import Runbook.Proofs.Run.Trace
import Runbook.Simulation

/-!
# Simulated runs

A simulated run makes up texts only: every other literal that it captures was written in the
template or given as a filler. What it creates has a text that is not empty.

## Main results

* `Simulation.literal_of_captured?`: what a simulated run captures is a text, or a literal of the
  template or its fillers;
* `Simulation.isSome_resultText?_of_create`: a creation that succeeded has a textual result.
-/

namespace Runbook

/-- The property holds of the literals of a value. -/
def Value.LiteralsHave (p : Literal → Prop) (v : Value) : Prop :=
  ∀ l, v = .literal l → p l

namespace Scope

/-- The property holds of all literals that are bound in a scope or given by its fillers. -/
structure LiteralsHave (p : Literal → Prop) (scope : Scope) : Prop where
  /-- It holds of what the bound outcomes capture. -/
  bound : ∀ name outcome, scope.bindings.lookup name = some outcome →
    ∀ l, outcome.captured? = some l → p l
  /-- It holds of the fillers. -/
  filled : ∀ filler ∈ scope.fillers.values, p filler

variable {p : Literal → Prop} {scope : Scope}

theorem LiteralsHave.ofFillers {fillers : Fillers} (h : ∀ filler ∈ fillers.values, p filler) :
    (Scope.ofFillers fillers).LiteralsHave p where
  bound _ _ hlookup := nomatch hlookup
  filled := h

/-- What a value is resolved to has a property that all literals at hand have. -/
theorem LiteralsHave.resolve (h : scope.LiteralsHave p) {v : Value} (hv : v.LiteralsHave p)
    {l : Literal} (hresolve : scope.resolve v = .ok l) : p l := by
  cases v with
  | literal other =>
    cases hresolve
    exact hv l rfl
  | reference name =>
    obtain ⟨outcome, hlookup, hcaptured⟩ := resolve_reference_eq_ok_iff.mp hresolve
    exact h.bound name outcome hlookup l hcaptured
  | hole name =>
    exact h.filled l (OrderedMap.mem_values_of_get? (resolve_hole_eq_ok_iff.mp hresolve))

/-- The property is kept by a declaration that captures such a literal or none. -/
theorem LiteralsHave.afterStatement (h : scope.LiteralsHave p) (name : Option String)
    {outcome : Outcome} (houtcome : ∀ l, outcome.captured? = some l → p l) :
    (scope.afterStatement name outcome).LiteralsHave p where
  bound other found hlookup := by
    cases name with
    | none => exact h.bound other found hlookup
    | some name =>
      -- The new binding is in front of the others, under its own name only.
      rw [Scope.afterStatement, bind, List.lookup_cons] at hlookup
      split at hlookup
      next => exact Option.some.inj hlookup ▸ houtcome
      next => exact h.bound other found hlookup
  filled := by
    rw [fillers_afterStatement]
    exact h.filled

end Scope

namespace Simulation

variable {p : Literal → Prop} {failures : OrderedMap String} {stopOnError : Bool}

/-- What an answer lets capture is a text or one of the arguments of the call. -/
theorem captured?_ofAnswer {call : Call} {count : Nat} {l : Literal}
    (h : (Outcome.ofAnswer (runner failures call count).1).captured? = some l) :
    (∃ text, l = .text text) ∨ l ∈ call.arguments.values := by
  rw [runner] at h
  split at h
  next => cases h
  next =>
    split at h
    next => exact .inl ⟨_, (Option.some.inj h).symm⟩
    next =>
      split at h
      next id hid =>
        have hsame : l = id := Literal.eq_of_ofJson?_toJson h
        exact .inr (hsame ▸ OrderedMap.mem_values_of_get? hid)
      next => cases h

/-- The name of what was created is not empty. -/
theorem isEmpty_created (entity : String) (n : Nat) : (created entity n).isEmpty = false := by
  simp [created]

variable (htexts : ∀ text, p (.text text))

include htexts

/-- What an attempt captures has a property that all texts and all literals at hand have. -/
theorem captured?_attempt {scope : Scope} (hscope : scope.LiteralsHave p) {c : Command}
    (hc : ∀ v ∈ c.parameters.values, v.LiteralsHave p) {count : Nat} {l : Literal}
    (h : (c.attempt (runner failures) scope count).outcome.captured? = some l) : p l := by
  rw [Command.attempt] at h
  split at h
  next => cases h
  next arguments harguments =>
    rcases captured?_ofAnswer h with ⟨text, rfl⟩ | hl
    · exact htexts text
    · obtain ⟨v, hv, hresolve⟩ := OrderedMap.mem_of_traverse harguments l hl
      exact hscope.resolve (hc v hv) hresolve

/-- What the steps of a simulated run capture has a property that all texts and all literals of
the statements and the scope have. -/
theorem captured?_steps {scope : Scope} (hscope : scope.LiteralsHave p) {count : Nat}
    {statements : List Statement}
    (hstatements : ∀ s ∈ statements, ∀ v ∈ s.command.parameters.values, v.LiteralsHave p) :
    ∀ step ∈ (Run.ofStatements (runner failures) stopOnError scope count statements).steps,
      ∀ l, step.statement.command.outcome.captured? = some l → p l := by
  -- The invariant of the run is `hscope`: each attempt captures such a literal or none, so the
  -- scope behind it has the property too.
  induction statements generalizing scope count with
  | nil => exact fun _ hstep => absurd hstep List.not_mem_nil
  | cons s rest ih =>
    rw [List.forall_mem_cons] at hstatements
    have hattempt : ∀ l, (s.command.attempt (runner failures) scope count).outcome.captured? =
        some l → p l := fun l => captured?_attempt htexts hscope hstatements.1
    rw [Run.ofStatements]
    split
    next => exact List.forall_mem_singleton.mpr hattempt
    next =>
      have hnext := hscope.afterStatement s.name hattempt
      exact List.forall_mem_cons.mpr ⟨hattempt, ih hnext hstatements.2⟩

/-- What a simulated run captures has a property that all texts, the literals of the template and
the fillers have. -/
theorem literal_of_captured? {t : Template} {fillers : Fillers} {count : Nat}
    (hpending : ∀ s ∈ t.statements, s.command.outcome = .pending)
    (hvalues : ∀ c ∈ t.commands, ∀ v ∈ c.parameters.values, v.LiteralsHave p)
    (hfillers : ∀ filler ∈ fillers.values, p filler) {name : String} {l : Literal}
    (h : (t.run (runner failures) fillers stopOnError count).template.captured? name = some l) :
    p l := by
  obtain ⟨s, hs, -, hcaptured⟩ := Template.exists_of_captured? h
  have hscope := Scope.LiteralsHave.ofFillers hfillers
  have hstatements : ∀ s ∈ t.statements, ∀ v ∈ s.command.parameters.values, v.LiteralsHave p :=
    fun s hs => hvalues s.command (List.mem_map_of_mem hs)
  rcases List.mem_append.mp hs with hreached | hunreached
  · obtain ⟨step, hstep, rfl⟩ := List.mem_map.mp hreached
    exact captured?_steps htexts hscope hstatements step hstep l hcaptured
  · rw [hpending s (Run.unreached_subset s hunreached)] at hcaptured
    cases hcaptured

omit htexts

/-- A creation that succeeded in a simulated run has a text that is not empty for its result. -/
theorem isSome_resultText?_of_create {t : Template} {fillers : Fillers} {count : Nat}
    (hpending : ∀ s ∈ t.statements, s.command.outcome = .pending) {c : Command}
    (hc : c ∈ (t.run (runner failures) fillers stopOnError count).template.commands)
    (hsucceeded : c.outcome.succeeded = true) (hcreate : c.action = "create") :
    c.outcome.resultText?.isSome = true := by
  obtain ⟨s, hs, rfl⟩ := List.mem_map.mp hc
  obtain ⟨-, -, -, arguments, count', -, -, -, houtcome⟩ :=
    Run.exists_call_of_succeeded hpending hs hsucceeded
  rw [runner] at houtcome
  split at houtcome
  next =>
    rw [houtcome] at hsucceeded
    cases hsucceeded
  next =>
    rw [if_pos hcreate] at houtcome
    rw [houtcome]
    simp [Outcome.ofAnswer, Outcome.success, Outcome.resultText?, isEmpty_created]

end Simulation

end Runbook
