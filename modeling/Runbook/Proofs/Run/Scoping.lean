import Mathlib.Data.List.Forall2
import Runbook.Proofs.Run.Trace
import Runbook.Proofs.Template.RoundTrip
import Runbook.Simulation

/-!
# Scoped templates in runs

A template that was read is scoped, so in a run that does not stop at failures every reference
finds the outcome of its declaration. Which commands reach the runner, and with which literals,
can then be told from the template after the run alone: those all of whose values stand for a
literal there. Every other command fails with the error of its first value that does not.

## Main definitions

* `Template.Yields`, `Template.Lacks`: which literal a value of a template that ran stands for, or
  why it stands for none;
* `Step.Settles`: what a run makes of a statement, told from the template after the run.

## Main results

* `Template.resolve_of_yields`, `Template.yields_of_resolve`, `Template.lacks_of_resolve`: values
  are resolved during a run as they are told afterwards;
* `Template.run_calls_what_resolves`: every step of a run without early stop settles its statement.
-/

namespace Runbook

variable {σ : Type}

namespace Template

/-- The literal that a value of a template stands for after a run with some fillers. -/
inductive Yields (t : Template) (fillers : Fillers) : Value → Literal → Prop
  /-- A literal stands for itself. -/
  | literal (l : Literal) : Yields t fillers (.literal l) l
  /-- A reference stands for the result of its declaration if that succeeded with a literal. -/
  | reference {s : Statement} {name : String} {l : Literal} :
      s ∈ t.statements → s.name = some name → s.command.outcome = .success l.toJson →
      l.isFlat = true → Yields t fillers (.reference name) l
  /-- A hole stands for its filler. -/
  | hole {name : String} {l : Literal} :
      fillers.get? name = some l → Yields t fillers (.hole name) l

/-- Why a value of a template stands for no literal after a run with some fillers. -/
inductive Lacks (t : Template) (fillers : Fillers) : Value → ResolutionError → Prop
  /-- The declaration that is referred to failed. -/
  | failed {s : Statement} {name : String} :
      s ∈ t.statements → s.name = some name → s.command.outcome.failed = true →
      Lacks t fillers (.reference name) (.reference name .failed)
  /-- The declaration that is referred to succeeded with a result that is no literal. -/
  | notLiteral {s : Statement} {name : String} {result : Json} :
      s ∈ t.statements → s.name = some name → s.command.outcome = .success result →
      (∀ l : Literal, l.isFlat = true → l.toJson ≠ result) →
      Lacks t fillers (.reference name) (.reference name .notLiteral)
  /-- The hole has no filler. -/
  | unfilled {name : String} :
      fillers.get? name = none → Lacks t fillers (.hole name) (.hole name)

end Template

/-- What a run makes of a statement in a state of the runner, told from the template after the
run. -/
structure Step.Settles (t : Template) (fillers : Fillers) (runner : Runner σ) (state : σ)
    (s : Statement) (step : Step) : Prop where
  /-- The statement is kept but for its outcome. -/
  statement : step.statement = s.withOutcome step.statement.command.outcome
  /-- The command has an outcome. -/
  hasRun : step.statement.command.outcome.hasRun = true
  /-- A command all of whose values stand for literals is handed to the runner with these, under
  its keys in order, and ends as the runner answers. -/
  reached : (∀ v ∈ s.command.parameters.values, ∃ l, t.Yields fillers v l) →
    ∃ arguments : OrderedMap Literal, arguments.keys = s.command.parameters.keys ∧
      List.Forall₂ (t.Yields fillers) s.command.parameters.values arguments.values ∧
      step.call = some ⟨s.command.action, s.command.entity, arguments⟩ ∧
      step.statement.command.outcome =
        .ofAnswer (runner ⟨s.command.action, s.command.entity, arguments⟩ state).1
  /-- Any other command fails, without reaching the runner, with the error of its first value that
  stands for no literal. -/
  refused : ∀ before key v after, s.command.parameters.entries = before ++ (key, v) :: after →
    (∀ entry ∈ before, ∃ l, t.Yields fillers entry.2 l) → (¬∃ l, t.Yields fillers v l) →
      step.call = none ∧
        ∃ e, t.Lacks fillers v e ∧ step.statement.command.outcome = .failure e.message

/-- A step that settles a statement refers to what the statement refers to. -/
theorem Step.Settles.references_eq {t : Template} {fillers : Fillers} {runner : Runner σ}
    {state : σ} {s : Statement} {step : Step} (h : step.Settles t fillers runner state s) :
    step.statement.command.references = s.command.references := by
  rw [h.statement]
  rfl

/-- Where a map has an image, its values are the images of the values, one by one. -/
theorem OrderedMap.forall₂_values_of_traverse {α β ε : Type} {f : α → Except ε β}
    {m : OrderedMap α} {n : OrderedMap β} (h : m.traverse f = .ok n) :
    List.Forall₂ (fun v w => f v = .ok w) m.values n.values := by
  have hvalues : m.values.map f = n.values.map .ok := by
    rw [← values_map, map_eq_of_traverse h, values_map]
  rwa [← List.forall₂_eq_eq_eq, List.forall₂_map_left_iff, List.forall₂_map_right_iff] at hvalues

/-! ## Outcomes -/

namespace Outcome

/-- What is captured from an outcome is the literal that it succeeded with. -/
theorem captured?_eq_some_iff {o : Outcome} {l : Literal} :
    o.captured? = some l ↔ o = .success l.toJson ∧ l.isFlat = true := by
  obtain ⟨result, error⟩ := o
  rw [captured?]
  cases error with
  | some message => simp [failed, success]
  | none =>
    cases result with
    | none => simp [failed, resultLiteral?, success]
    | some json =>
      have hliteral : resultLiteral? ⟨some json, none⟩ = Literal.ofJson? json := rfl
      rw [failed, Option.isSome_none, if_neg Bool.false_ne_true, hliteral,
        Literal.ofJson?_eq_some_iff]
      simp [success, and_comm, eq_comm (a := json)]

/-- An answer is an outcome. -/
theorem hasRun_ofAnswer (answer : Except (List String) Json) : (ofAnswer answer).hasRun = true := by
  cases answer <;> rfl

end Outcome

/-- A step leaves its command with an outcome. -/
theorem Statement.hasRun_step (runner : Runner σ) (scope : Scope) (state : σ) (s : Statement) :
    (s.step runner scope state).statement.command.outcome.hasRun = true := by
  cases harguments : scope.arguments s.command with
  | error e => rw [step_of_arguments_eq_error harguments]; rfl
  | ok arguments =>
    rw [step_of_arguments_eq_ok harguments]
    exact Outcome.hasRun_ofAnswer _

/-- A reference to an outcome of a command that ran is not resolved if the command failed or its
result is no literal. -/
theorem Scope.exists_of_resolve_reference_eq_error {scope : Scope} {name : String}
    {outcome : Outcome} (hlookup : scope.bindings.lookup name = some outcome)
    (hran : outcome.hasRun = true) {e : ResolutionError}
    (h : scope.resolve (.reference name) = .error e) :
    (outcome.failed = true ∧ e = .reference name .failed) ∨
      ∃ result, outcome = .success result ∧ Literal.ofJson? result = none ∧
        e = .reference name .notLiteral := by
  rw [resolve, resolveReference, hlookup] at h
  obtain ⟨result, error⟩ := outcome
  cases error with
  | some message =>
    cases h
    exact .inl ⟨rfl, rfl⟩
  | none =>
    cases result with
    | none => cases hran
    | some result =>
      cases hliteral : Literal.ofJson? result with
      | some l =>
        simp [Outcome.failed, hliteral, Except.mapError] at h
      | none =>
        refine .inr ⟨result, rfl, hliteral, ?_⟩
        simpa [Outcome.failed, hliteral, Except.mapError, eq_comm] using h

/-! ## Values during and after a run -/

namespace Template

section Values

variable {t : Template} {fillers : Fillers} {before : List Step}

/-- What a value is resolved to during a run is what it stands for afterwards. -/
theorem yields_of_resolve (hbefore : ∀ step ∈ before, step.statement ∈ t.statements) {v : Value}
    {l : Literal} (h : ((Scope.ofFillers fillers).behind before).resolve v = .ok l) :
    t.Yields fillers v l := by
  cases v with
  | literal other =>
    cases h
    exact .literal l
  | reference name =>
    obtain ⟨outcome, hlookup, hcaptured⟩ := Scope.resolve_reference_eq_ok_iff.mp h
    rcases Scope.lookup_behind hlookup with ⟨step, hstep, hname, rfl⟩ | hnone
    · obtain ⟨hsuccess, hflat⟩ := Outcome.captured?_eq_some_iff.mp hcaptured
      exact .reference (hbefore step hstep) hname hsuccess hflat
    · cases hnone
  | hole name =>
    rw [Scope.resolve_hole_eq_ok_iff, Scope.fillers_behind] at h
    exact .hole h

/-- A name that one of the steps declares is bound behind them to the outcome of the statement
that declares it, if names are declared once. -/
theorem lookup_behind_of_mem (hnodup : (Statement.names t.statements).Nodup)
    (hbefore : ∀ step ∈ before, step.statement ∈ t.statements) {name : String}
    (hname : name ∈ Statement.names (before.map Step.statement)) {s : Statement}
    (hs : s ∈ t.statements) (hdeclares : s.name = some name) :
    ((Scope.ofFillers fillers).behind before).bindings.lookup name = some s.command.outcome := by
  obtain ⟨statement, hstatement, hstep⟩ := List.mem_filterMap.mp hname
  obtain ⟨step, hmem, rfl⟩ := List.mem_map.mp hstatement
  have hbound : (((Scope.ofFillers fillers).behind before).bindings.lookup name).isSome = true :=
    Scope.isSome_lookup_behind (.inl ⟨step, hmem, hstep⟩)
  obtain ⟨outcome, houtcome⟩ := Option.isSome_iff_exists.mp hbound
  rw [houtcome]
  rcases Scope.lookup_behind houtcome with ⟨bound, hbound, hother, rfl⟩ | hnone
  · rw [Statement.eq_of_names_nodup hnodup (hbefore bound hbound) hs hother hdeclares]
  · cases hnone

variable (hnodup : (Statement.names t.statements).Nodup)
  (hbefore : ∀ step ∈ before, step.statement ∈ t.statements)

include hnodup hbefore

section Value

variable {v : Value}
  (hv : ∀ name ∈ v.reference?, name ∈ Statement.names (before.map Step.statement))

include hv

/-- What a value stands for after a run it was resolved to in the run, if its declaration came
before. -/
theorem resolve_of_yields {l : Literal} (h : t.Yields fillers v l) :
    ((Scope.ofFillers fillers).behind before).resolve v = .ok l := by
  cases h with
  | literal => rfl
  | reference hs hname hsuccess hflat =>
    refine Scope.resolve_reference_eq_ok_iff.mpr
      ⟨_, lookup_behind_of_mem hnodup hbefore (hv _ rfl) hs hname, ?_⟩
    exact Outcome.captured?_eq_some_iff.mpr ⟨hsuccess, hflat⟩
  | hole hfiller =>
    rw [Scope.resolve_hole_eq_ok_iff, Scope.fillers_behind]
    exact hfiller

variable (hran : ∀ step ∈ before, step.statement.command.outcome.hasRun = true)

include hran

/-- A value that was not resolved in a run lacks a literal afterwards for the same reason, if its
declaration came before and ran. -/
theorem lacks_of_resolve {e : ResolutionError}
    (h : ((Scope.ofFillers fillers).behind before).resolve v = .error e) :
    t.Lacks fillers v e := by
  cases v with
  | literal l => cases h
  | reference name =>
    obtain ⟨s, hs, hdeclares⟩ := List.mem_filterMap.mp (hv name rfl)
    obtain ⟨step, hstep, rfl⟩ := List.mem_map.mp hs
    have hlookup : ((Scope.ofFillers fillers).behind before).bindings.lookup name =
        some step.statement.command.outcome :=
      lookup_behind_of_mem hnodup hbefore (hv name rfl) (hbefore step hstep) hdeclares
    rcases Scope.exists_of_resolve_reference_eq_error hlookup (hran step hstep) h with
      ⟨hfailed, rfl⟩ | ⟨result, hsuccess, hliteral, rfl⟩
    · exact .failed (hbefore step hstep) hdeclares hfailed
    · refine .notLiteral (hbefore step hstep) hdeclares hsuccess ?_
      rintro l hflat rfl
      rw [Literal.ofJson?_toJson hflat] at hliteral
      cases hliteral
  | hole name =>
    rw [Scope.resolve, Scope.fillers_behind] at h
    split at h
    next => cases h
    next hfiller =>
      cases h
      exact .unfilled hfiller

/-- A value that stands for no literal after a run was not resolved in the run. -/
theorem exists_lacks_of_not_yields (h : ¬∃ l, t.Yields fillers v l) :
    ∃ e, ((Scope.ofFillers fillers).behind before).resolve v = .error e ∧ t.Lacks fillers v e := by
  cases hresolve : ((Scope.ofFillers fillers).behind before).resolve v with
  | ok l => exact absurd ⟨l, yields_of_resolve hbefore hresolve⟩ h
  | error e => exact ⟨e, rfl, lacks_of_resolve hnodup hbefore hv hran hresolve⟩

end Value

/-! ## Steps -/

/-- The step of a statement whose references were declared before settles it. -/
theorem settles_step {s : Statement}
    (hs : ∀ name ∈ s.command.references, name ∈ Statement.names (before.map Step.statement))
    (hran : ∀ step ∈ before, step.statement.command.outcome.hasRun = true) (runner : Runner σ)
    (state : σ) :
    (s.step runner ((Scope.ofFillers fillers).behind before) state).Settles t fillers runner state
      s := by
  have hv : ∀ v ∈ s.command.parameters.values, ∀ name ∈ v.reference?,
      name ∈ Statement.names (before.map Step.statement) := fun v hmem name hname =>
    hs name (List.mem_filterMap.mpr ⟨v, hmem, hname⟩)
  have hresolve : ∀ v ∈ s.command.parameters.values, (∃ l, t.Yields fillers v l) →
      ∃ l, ((Scope.ofFillers fillers).behind before).resolve v = .ok l := fun v hmem ⟨l, hl⟩ =>
    ⟨l, resolve_of_yields hnodup hbefore (hv v hmem) hl⟩
  refine ⟨rfl, s.hasRun_step runner _ state, fun h => ?_, ?_⟩
  · obtain ⟨arguments, harguments⟩ := OrderedMap.exists_traverse fun v hmem =>
      hresolve v hmem (h v hmem)
    refine ⟨arguments, OrderedMap.keys_of_traverse harguments, ?_, ?_⟩
    · refine (OrderedMap.forall₂_values_of_traverse harguments).imp ?_
      exact fun v l hl => yields_of_resolve hbefore hl
    · rw [Statement.step_of_arguments_eq_ok harguments]
      exact ⟨rfl, rfl⟩
  · intro front key v rest hsplit hfront hnone
    have hmem : ∀ entry ∈ s.command.parameters.entries, entry.2 ∈ s.command.parameters.values :=
      fun entry hentry => List.mem_map_of_mem hentry
    rw [hsplit, List.forall_mem_append, List.forall_mem_cons] at hmem
    obtain ⟨e, herror, hlacks⟩ :=
      exists_lacks_of_not_yields hnodup hbefore (hv v hmem.2.1) hran hnone
    have harguments : ((Scope.ofFillers fillers).behind before).arguments s.command = .error e :=
      OrderedMap.traverse_eq_error_iff.mpr ⟨front, key, v, rest, hsplit,
        fun entry hentry => hresolve _ (hmem.1 entry hentry) (hfront entry hentry), herror⟩
    rw [Statement.step_of_arguments_eq_error harguments]
    exact ⟨rfl, e, hlacks, rfl⟩

end Values

section Run

variable {t : Template} {fillers : Fillers} {runner : Runner σ} {stopOnError : Bool} {state : σ}

/-- Every step of a run leaves its command with an outcome. -/
theorem hasRun_of_steps {before after : List Step}
    (hsplit : (t.run runner fillers stopOnError state).steps = before ++ after) :
    ∀ step ∈ before, step.statement.command.outcome.hasRun = true := by
  intro step hstep
  obtain ⟨front, rest, rfl⟩ := List.append_of_mem hstep
  rw [List.append_assoc, List.cons_append] at hsplit
  obtain ⟨s, -, rfl⟩ := Run.exists_attempt hsplit
  exact s.hasRun_step runner _ _

/-- What a statement refers to in a run of a scoped template was declared by earlier steps. -/
theorem references_of_steps (hscoped : t.IsScoped) {before after : List Step} {step : Step}
    (hsplit : (t.run runner fillers stopOnError state).steps = before ++ step :: after) :
    ∀ name ∈ step.statement.command.references,
      name ∈ Statement.names (before.map Step.statement) := by
  have hran : (t.run runner fillers stopOnError state).template.IsScoped := isScoped_run hscoped
  refine hran.declared (before.map Step.statement) step.statement
    (after.map Step.statement ++ (t.run runner fillers stopOnError state).unreached) ?_
  rw [Run.template, Run.statements, hsplit]
  simp

/-- Every step of a run of a scoped template settles its statement. -/
theorem settles_of_steps (hscoped : t.IsScoped) {before after : List Step} {step : Step}
    (hsplit : (t.run runner fillers stopOnError state).steps = before ++ step :: after) :
    ∃ s, t.statements[before.length]? = some s ∧
      step.Settles (t.run runner fillers stopOnError state).template fillers runner
        (runner.after state (before.filterMap Step.call)) s := by
  obtain ⟨s, hs, hstep⟩ := Run.exists_attempt hsplit
  have hreferences : ∀ name ∈ s.command.references,
      name ∈ Statement.names (before.map Step.statement) := by
    have hkept := references_of_steps hscoped hsplit
    rwa [hstep] at hkept
  have hscoped' : (t.run runner fillers stopOnError state).template.IsScoped :=
    isScoped_run hscoped
  refine ⟨s, hs, ?_⟩
  rw [hstep]
  exact settles_step hscoped'.distinct (statement_mem_of_steps hsplit) hreferences
    (hasRun_of_steps hsplit) runner _

/-- A name that a statement refers to in a run of a scoped template is bound to the outcome of an
earlier step. -/
theorem exists_lookup_of_references (hscoped : t.IsScoped) {before after : List Step} {step : Step}
    (hsplit : (t.run runner fillers stopOnError state).steps = before ++ step :: after)
    {name : String} (hname : name ∈ step.statement.command.references) :
    ∃ earlier ∈ before, earlier.statement.name = some name ∧
      ((Scope.ofFillers fillers).behind before).bindings.lookup name =
        some earlier.statement.command.outcome := by
  have hdeclared := references_of_steps hscoped hsplit name hname
  obtain ⟨statement, hstatement, hdeclares⟩ := List.mem_filterMap.mp hdeclared
  obtain ⟨earlier, hearlier, rfl⟩ := List.mem_map.mp hstatement
  have hran : (t.run runner fillers stopOnError state).template.IsScoped := isScoped_run hscoped
  have hmem := statement_mem_of_steps hsplit
  exact ⟨earlier, hearlier, hdeclares,
    lookup_behind_of_mem hran.distinct hmem hdeclared (hmem earlier hearlier) hdeclares⟩

/-- Where all holes are filled and the runner answers every call with a literal, every step of a run
of a scoped template succeeds with a literal. -/
theorem exists_literal_of_steps (hscoped : t.IsScoped)
    (hfillers : ∀ name, .hole name ∈ t.values → fillers.contains name = true)
    (hrunner : ∀ call state, ∃ l : Literal, l.isFlat = true ∧ (runner call state).1 = .ok l.toJson)
    {before after : List Step} {step : Step}
    (hsplit : (t.run runner fillers stopOnError state).steps = before ++ step :: after) :
    ∃ l : Literal, l.isFlat = true ∧ step.statement.command.outcome = .success l.toJson := by
  -- What a step refers to was declared by earlier steps, so the induction is over their number.
  induction hlength : before.length using Nat.strongRecOn generalizing before after step with
  | ind n ih =>
    obtain ⟨s, hs, hsettles⟩ := settles_of_steps hscoped hsplit
    have hvalues : ∀ v ∈ s.command.parameters.values,
        ∃ l, (t.run runner fillers stopOnError state).template.Yields fillers v l := by
      intro v hv
      cases v with
      | literal l => exact ⟨l, .literal l⟩
      | reference name =>
        have hname : name ∈ step.statement.command.references := by
          rw [hsettles.references_eq]
          exact List.mem_filterMap.mpr ⟨_, hv, rfl⟩
        obtain ⟨earlier, hearlier, hdeclares, -⟩ :=
          exists_lookup_of_references hscoped hsplit hname
        have hmem := statement_mem_of_steps hsplit earlier hearlier
        obtain ⟨front, rest, rfl⟩ := List.append_of_mem hearlier
        rw [List.append_assoc, List.cons_append] at hsplit
        obtain ⟨l, hflat, hsuccess⟩ := ih front.length (by simp at hlength; omega) hsplit rfl
        exact ⟨l, .reference hmem hdeclares hsuccess hflat⟩
      | hole name =>
        have hhole : .hole name ∈ t.values :=
          List.mem_flatMap.mpr ⟨s.command, List.mem_map_of_mem (List.mem_of_getElem? hs), hv⟩
        obtain ⟨l, hl⟩ := Option.isSome_iff_exists.mp (hfillers name hhole)
        exact ⟨l, .hole hl⟩
    obtain ⟨arguments, -, -, -, houtcome⟩ := hsettles.reached hvalues
    obtain ⟨l, hflat, hanswer⟩ := hrunner ⟨s.command.action, s.command.entity, arguments⟩
      (runner.after state (before.filterMap Step.call))
    rw [hanswer] at houtcome
    exact ⟨l, hflat, houtcome⟩

end Run

/-- Which commands of a template that was read reach the runner is told by its scopes. A run that
does not stop at failures takes one step for each statement, in order, and the runner answers the
calls of these steps and no others. A command all of whose values stand for literals in the
template after the run is called with these; every other command fails with the error of its first
value that does not. What a command refers to is bound to an outcome of a command that ran. So with
all holes filled and a runner that answers with literals, all commands succeed. -/
theorem run_calls_what_resolves {text : String} {t : Template} (ht : ofText text = .ok t)
    (fillers : Fillers) (runner : Runner σ) (state : σ) :
    let r := t.run runner fillers false state
    r.unreached = [] ∧ r.steps.length = t.statements.length ∧
      r.state = runner.after state r.calls ∧
      (∀ before step after, r.steps = before ++ step :: after →
        ∃ s, t.statements[before.length]? = some s ∧
          step.Settles r.template fillers runner (runner.after state (before.filterMap Step.call))
            s ∧
          ∀ name ∈ s.command.references, ∃ outcome,
            ((Scope.ofFillers fillers).behind before).bindings.lookup name = some outcome ∧
              outcome.hasRun = true) ∧
      ((∀ name, .hole name ∈ t.values → fillers.contains name = true) →
        (∀ call state, ∃ l : Literal, l.isFlat = true ∧ (runner call state).1 = .ok l.toJson) →
          ∀ c ∈ r.template.commands, c.outcome.succeeded = true) := by
  intro r
  have hscoped := isScoped_of_ofText ht
  have hlength : r.steps.length = t.statements.length := Run.length_steps _ _ _
  have hunreached : r.unreached = [] := by
    rw [show r.unreached = _ from Run.unreached_eq_drop _ _ _]
    exact List.drop_eq_nil_of_le hlength.ge
  refine ⟨hunreached, hlength, Run.state_ofStatements _ _ _, ?_, ?_⟩
  · intro before step after hsplit
    obtain ⟨s, hs, hsettles⟩ := settles_of_steps hscoped hsplit
    refine ⟨s, hs, hsettles, fun name hname => ?_⟩
    rw [← hsettles.references_eq] at hname
    obtain ⟨earlier, hearlier, -, hlookup⟩ := exists_lookup_of_references hscoped hsplit hname
    exact ⟨_, hlookup, hasRun_of_steps hsplit earlier hearlier⟩
  · intro hfillers hrunner c hc
    obtain ⟨statement, hstatement, rfl⟩ := List.mem_map.mp hc
    have hreached : statement ∈ r.steps.map Step.statement := by
      have hall : statement ∈ r.steps.map Step.statement ++ r.unreached := hstatement
      rwa [hunreached, List.append_nil] at hall
    obtain ⟨step, hstep, rfl⟩ := List.mem_map.mp hreached
    obtain ⟨before, after, hsplit⟩ := List.append_of_mem hstep
    obtain ⟨l, -, hsuccess⟩ := exists_literal_of_steps hscoped hfillers hrunner hsplit
    rw [hsuccess]
    rfl

/-- A template of which, in a simulation, a gate has no literal for a result. -/
private def scopedNetwork : Template :=
  ⟨[⟨some "net", .new "create" "vpc" (.ofList [("range", .hole "range")])⟩,
    ⟨some "sub", .new "create" "subnet" (.ofList [("of", .reference "net")])⟩,
    ⟨some "gate", .new "attach" "gateway" (.ofList [("to", .reference "net")])⟩,
    ⟨none, .new "start" "vm" (.ofList
      [("size", .literal (.text "small")), ("via", .reference "gate"), ("on", .reference "sub")])⟩]⟩

/-- Where no subnet can be created the machine fails, with the gate, which has no literal, before
the subnet. A runner that always answers with a text completes all commands, also with a nested list
for a filler. -/
theorem run_calls_what_resolves_network :
    ofText scopedNetwork.text = .ok scopedNetwork ∧
      (let r := scopedNetwork.run (Simulation.runner (.ofList [("create subnet", "quota")]))
        (.ofList [("range", .text "10.0.0.0/16")]) false 0
      r.unreached = [] ∧ ∃ before step, r.steps = before ++ [step] ∧
        before.filterMap Step.call =
          [⟨"create", "vpc", .ofList [("range", .text "10.0.0.0/16")]⟩,
            ⟨"create", "subnet", .ofList [("of", .text "vpc-sim-0001")]⟩,
            ⟨"attach", "gateway", .ofList [("to", .text "vpc-sim-0001")]⟩] ∧
        step.call = none ∧ step.statement.command.outcome = .failure
          "unresolved reference $gate: declaration result is not a literal value") ∧
      ∀ c ∈ (scopedNetwork.run (fun _ count => (.ok (.string "id"), count + 1))
          (.ofList [("range", .list [.list []])]) false 0).template.commands,
        c.outcome.succeeded = true := by
  have hread : ofText scopedNetwork.text = .ok scopedNetwork :=
    (ofText_text (by decide) (by decide)).trans (congrArg Except.ok (by decide))
  refine ⟨hread, ?_, ?_⟩
  · intro r
    obtain ⟨hunreached, -, -, hsettles, -⟩ := run_calls_what_resolves hread
      (.ofList [("range", .text "10.0.0.0/16")])
      (Simulation.runner (.ofList [("create subnet", "quota")])) 0
    have hsplit : r.steps = r.steps.take 3 ++ [r.steps[3]] := rfl
    obtain ⟨s, hs, hstep, -⟩ := hsettles _ _ [] hsplit
    cases hs
    have hgate : ∀ s ∈ r.template.statements, s.name = some "gate" →
        s.command.outcome = .success .null := by decide
    have hnone : ¬∃ l, r.template.Yields (.ofList [("range", .text "10.0.0.0/16")])
        (.reference "gate") l := by
      rintro ⟨l, hl⟩
      cases hl with
      | reference hs hname hsuccess _ =>
        rw [hgate _ hs hname] at hsuccess
        cases l <;> cases hsuccess
    have hsize : ∀ entry ∈ [("size", Value.literal (.text "small"))],
        ∃ l, r.template.Yields (.ofList [("range", .text "10.0.0.0/16")]) entry.2 l := by
      rintro entry hentry
      rw [List.mem_singleton.mp hentry]
      exact ⟨_, .literal _⟩
    obtain ⟨hcall, e, hlacks, houtcome⟩ := hstep.refused
      [("size", .literal (.text "small"))] "via" _ [("on", .reference "sub")] rfl hsize hnone
    refine ⟨hunreached, _, _, hsplit, rfl, hcall, houtcome.trans ?_⟩
    cases hlacks with
    | failed hs hname hfailed =>
      rw [hgate _ hs hname] at hfailed
      cases hfailed
    | notLiteral => rfl
  · refine (run_calls_what_resolves hread _ _ 0).2.2.2.2 ?_ ?_
    · intro name hname
      have hholes : ∀ v ∈ scopedNetwork.values, v.hole?.all (· == "range") = true := by decide
      have hrange : name = "range" := by simpa [Value.hole?] using hholes _ hname
      rw [hrange]
      rfl
    · exact fun _ _ => ⟨.text "id", rfl, rfl⟩

end Template

end Runbook
