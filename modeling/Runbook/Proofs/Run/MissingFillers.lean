import Runbook.Proofs.Run.Trace
import Runbook.Proofs.SortedMap
import Runbook.Proofs.Text.ByteOrder
import Runbook.Simulation

/-!
# Missing fillers

Whether a run will lack an input can be told from the template and the fillers alone. The scopes of
a run have its fillers throughout, whatever its declarations came to, so a hole is resolved in all
of them or in none, and a hole without a filler keeps its command from the runner.

## Main results

* `Scope.resolve_eq_error_hole_iff`: which values are not resolved for want of a filler;
* `Template.mem_missingFillers_iff`, `Template.pairwise_missingFillers`: which names are missing,
  and in which order they are listed;
* `Statement.step_of_hole`: a command with a hole that has no filler does not reach the runner;
* `Template.missingFillers_exact`: what the missing names tell about runs.
-/

namespace Runbook

variable {σ : Type}

namespace Scope

variable {scope : Scope} {name : String}

/-- A value lacks a filler exactly if it is a hole that has none. -/
theorem resolve_eq_error_hole_iff {v : Value} :
    scope.resolve v = .error (.hole name) ↔
      v = .hole name ∧ scope.fillers.contains name = false := by
  cases v with
  | literal l => simp [resolve]
  | reference other => cases h : scope.resolveReference other <;> simp [resolve, h, Except.mapError]
  | hole other =>
    rw [resolve, OrderedMap.contains]
    cases hfiller : scope.fillers.get? other with
    | some l =>
      simp only [reduceCtorEq, Value.hole.injEq, false_iff, not_and]
      rintro rfl
      simp [hfiller]
    | none =>
      simp only [Except.error.injEq, ResolutionError.hole.injEq, Value.hole.injEq]
      refine ⟨fun h => ⟨h, ?_⟩, And.left⟩
      rw [← h, hfiller]
      rfl

/-- A hole fails to be resolved exactly if it has no filler. -/
theorem exists_resolve_hole_eq_error_iff :
    (∃ e, scope.resolve (.hole name) = .error e) ↔ scope.fillers.contains name = false := by
  rw [resolve, OrderedMap.contains]
  cases scope.fillers.get? name <;> simp

end Scope

/-- A command with a hole that has no filler fails without reaching the runner. -/
theorem Statement.step_of_hole {scope : Scope} {s : Statement} {name : String}
    (hname : .hole name ∈ s.command.parameters.values)
    (hmissing : scope.fillers.contains name = false) (runner : Runner σ) (state : σ) :
    (s.step runner scope state).call = none ∧
      (s.step runner scope state).statement.command.outcome.failed = true := by
  cases harguments : scope.arguments s.command with
  | error e =>
    rw [step_of_arguments_eq_error harguments]
    exact ⟨rfl, rfl⟩
  | ok arguments =>
    -- The arguments would have a literal for the hole.
    obtain ⟨l, -, hl⟩ := OrderedMap.exists_of_traverse harguments _ hname
    obtain ⟨e, he⟩ := Scope.exists_resolve_hole_eq_error_iff.mpr hmissing
    cases hl.symm.trans he

namespace Template

variable {t : Template} {fillers : Fillers}

/-- The names that are missing are those of holes without fillers. -/
theorem mem_missingFillers_iff {name : String} :
    name ∈ t.missingFillers fillers ↔
      Value.hole name ∈ t.values ∧ fillers.contains name = false := by
  have hhole (v : Value) : v.hole? = some name ↔ v = .hole name := by
    cases v <;> simp [Value.hole?]
  rw [missingFillers, SortedMap.mem_keys_ofList]
  simp [hhole]

/-- The names that are missing are listed in strictly ascending order of their bytes. -/
theorem pairwise_missingFillers (t : Template) (fillers : Fillers) :
    (t.missingFillers fillers).Pairwise fun a b => Text.bytes a < Text.bytes b :=
  (SortedMap.ascending _).imp Text.bytes_lt_bytes

/-- A run that does not stop at failures attempts every statement, in a scope with its fillers. -/
theorem exists_step_of_mem {s : Statement} (hs : s ∈ t.statements) (fillers : Fillers)
    (runner : Runner σ) (state : σ) :
    ∃ step ∈ (t.run runner fillers false state).steps, ∃ scope state',
      scope.fillers = fillers ∧ step = s.step runner scope state' := by
  obtain ⟨i, hi, rfl⟩ := List.getElem_of_mem hs
  have hlength : (t.run runner fillers false state).steps.length = t.statements.length :=
    Run.length_steps _ _ _
  rw [← hlength] at hi
  have hsplit : (t.run runner fillers false state).steps =
      (t.run runner fillers false state).steps.take i ++
        (t.run runner fillers false state).steps[i] ::
          (t.run runner fillers false state).steps.drop (i + 1) := by
    rw [← List.drop_eq_getElem_cons hi, List.take_append_drop]
  obtain ⟨s', hs', hstep⟩ := Run.exists_attempt hsplit
  rw [List.length_take, Nat.min_eq_left hi.le, List.getElem?_eq_getElem (hlength ▸ hi)] at hs'
  refine ⟨_, List.getElem_mem hi, _, _, ?_, Option.some.inj hs' ▸ hstep⟩
  exact Scope.fillers_behind _ _

/-- The check for missing fillers is exact. It lists, in strictly ascending order of their bytes and
so each of them once, the names of those holes of the template that are not resolved in a scope with
the fillers. If there are none, then in every run each statement is attempted in a scope in which no
value lacks a filler. If there are some, then every run that does not stop at failures has a command
that fails without reaching the runner. -/
theorem missingFillers_exact (t : Template) (fillers : Fillers) (runner : Runner σ) (state : σ) :
    ((t.missingFillers fillers).Pairwise fun a b => Text.bytes a < Text.bytes b) ∧
    (∀ name bindings, name ∈ t.missingFillers fillers ↔
      Value.hole name ∈ t.values ∧
        ∃ e, (⟨bindings, fillers⟩ : Scope).resolve (.hole name) = .error e) ∧
    (t.missingFillers fillers = [] → ∀ stopOnError before step after,
      (t.run runner fillers stopOnError state).steps = before ++ step :: after →
        let scope := (Scope.ofFillers fillers).behind before
        ∃ s, t.statements[before.length]? = some s ∧
          step = s.step runner scope (runner.after state (before.filterMap Step.call)) ∧
          ∀ v ∈ s.command.parameters.values, ∀ name,
            scope.resolve v ≠ .error (.hole name)) ∧
    (t.missingFillers fillers ≠ [] →
      ∃ step ∈ (t.run runner fillers false state).steps,
        step.call = none ∧ step.statement.command.outcome.failed = true) := by
  refine ⟨pairwise_missingFillers t fillers, fun name bindings => ?_, ?_, ?_⟩
  · rw [mem_missingFillers_iff, Scope.exists_resolve_hole_eq_error_iff]
  · intro hnone stopOnError before step after hsplit scope
    obtain ⟨s, hs, hstep⟩ := Run.exists_attempt hsplit
    refine ⟨s, hs, hstep, fun v hv name hlacks => ?_⟩
    obtain ⟨rfl, hmissing⟩ := Scope.resolve_eq_error_hole_iff.mp hlacks
    rw [Scope.fillers_behind] at hmissing
    have hhole : .hole name ∈ t.values :=
      List.mem_flatMap.mpr ⟨s.command, List.mem_map_of_mem (List.mem_of_getElem? hs), hv⟩
    have hmem : name ∈ t.missingFillers fillers := mem_missingFillers_iff.mpr ⟨hhole, hmissing⟩
    rw [hnone] at hmem
    exact absurd hmem List.not_mem_nil
  · intro hsome
    obtain ⟨name, hname⟩ := List.exists_mem_of_ne_nil _ hsome
    obtain ⟨hhole, hmissing⟩ := mem_missingFillers_iff.mp hname
    obtain ⟨c, hc, hvalue⟩ := List.mem_flatMap.mp hhole
    obtain ⟨s, hs, rfl⟩ := List.mem_map.mp hc
    obtain ⟨step, hstep, scope, state', hfillers, rfl⟩ := exists_step_of_mem hs fillers runner state
    rw [← hfillers] at hmissing
    exact ⟨_, hstep, Statement.step_of_hole hvalue hmissing runner state'⟩

/-- A template with three holes, of which one is in a declaration. -/
private def zonedNetwork : Template :=
  ⟨[⟨some "net", .new "create" "vpc" (.ofList [("range", .hole "range")])⟩,
    ⟨none, .new "create" "subnet" (.ofList
      [("of", .reference "net"), ("zone", .hole "zone"), ("name", .hole "Name")])⟩]⟩

/-- Fillers for all holes of that template, and one for another hole. -/
private def allZones : Fillers :=
  .ofList [("range", .text "10.0.0.0/16"), ("zone", .text "a"), ("host", .flag true),
    ("Name", .text "n-1")]

/-- With one filler of three the other two are missing, and a command does not reach the runner.
With all of them the second command does not either, as no network is created, but not for want of a
filler. -/
theorem missingFillers_exact_zones :
    zonedNetwork.missingFillers (.ofList [("range", .text "10.0.0.0/16")]) = ["Name", "zone"] ∧
      (∃ step ∈ (zonedNetwork.run (Simulation.runner .empty)
          (.ofList [("range", .text "10.0.0.0/16")]) false 0).steps,
        step.call = none ∧ step.statement.command.outcome.failed = true) ∧
      zonedNetwork.missingFillers allZones = [] ∧
      ∃ before step, (zonedNetwork.run (Simulation.runner (.ofList [("create vpc", "quota")]))
          allZones false 0).steps = before ++ [step] ∧
        step.call = none ∧ ∀ v ∈ step.statement.command.parameters.values, ∀ name,
          ((Scope.ofFillers allZones).behind before).resolve v ≠ .error (.hole name) := by
  have hmissing : zonedNetwork.missingFillers (.ofList [("range", .text "10.0.0.0/16")]) =
      ["Name", "zone"] := by decide
  have hnone : zonedNetwork.missingFillers allZones = [] := by decide
  refine ⟨hmissing, ?_, hnone, ?_⟩
  · obtain ⟨-, -, -, hfails⟩ := missingFillers_exact zonedNetwork
      (.ofList [("range", .text "10.0.0.0/16")]) (Simulation.runner .empty) 0
    exact hfails (by rw [hmissing]; exact List.cons_ne_nil _ _)
  · obtain ⟨-, -, hresolves, -⟩ := missingFillers_exact zonedNetwork allZones
      (Simulation.runner (.ofList [("create vpc", "quota")])) 0
    let r :=
      zonedNetwork.run (Simulation.runner (.ofList [("create vpc", "quota")])) allZones false 0
    have hsplit : r.steps = [r.steps[0]] ++ [r.steps[1]] := rfl
    obtain ⟨s, -, hstep, hvalues⟩ := hresolves hnone false _ _ [] hsplit
    refine ⟨_, _, hsplit, rfl, ?_⟩
    rw [hstep]
    exact hvalues

end Template

end Runbook
