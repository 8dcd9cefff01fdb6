import Runbook.Proofs.Record.Reload
import Runbook.Proofs.Template.Scoped
import Runbook.Run

/-!
# Traces of runs

Every step of a run is the attempt of its statement in the scope behind the steps before it. In a
scoped template each name is declared once, so what a reference was resolved to is what is found
under its name in the template afterwards, whether the first or the last declaration is looked
for.

## Main definitions

* `Scope.behind`: the scope behind some steps;
* `Runner.after`: the state of a runner after some calls;
* `Statement.step`: what a run makes of a statement in a scope.

## Main results

* `Run.exists_attempt`: every step is an attempt in the scope behind the earlier ones, in the
  state of the runner after their calls;
* `Run.state_ofStatements`: the runner answers the calls of the run and no others;
* `Run.map_pending_statements`: a run changes nothing but outcomes;
* `Template.kept_of_resolve`: what a value was resolved to in a run is what records and reversals
  make of it;
* `Template.exists_kept_of_succeeded`: so the values of a command that succeeded are all kept.
-/

namespace Runbook

variable {σ : Type}

/-- The state of a runner after some calls. -/
def Runner.after (runner : Runner σ) (state : σ) (calls : List Call) : σ :=
  calls.foldl (fun state call => (runner call state).2) state

theorem Runner.after_append (runner : Runner σ) (state : σ) (calls others : List Call) :
    runner.after state (calls ++ others) = runner.after (runner.after state calls) others :=
  List.foldl_append

/-- The step of a run that attempts a statement in a scope. -/
def Statement.step (runner : Runner σ) (scope : Scope) (state : σ) (s : Statement) : Step :=
  let attempt := s.command.attempt runner scope state
  ⟨s.withOutcome attempt.outcome, attempt.call⟩

section Step

variable {runner : Runner σ} {scope : Scope} {state : σ} {s : Statement}

/-- A command whose values are resolved is handed to the runner, whose answer is its outcome. -/
theorem Statement.step_of_arguments_eq_ok {arguments : OrderedMap Literal}
    (h : scope.arguments s.command = .ok arguments) :
    s.step runner scope state =
      ⟨s.withOutcome (.ofAnswer
          (runner ⟨s.command.action, s.command.entity, arguments⟩ state).1),
        some ⟨s.command.action, s.command.entity, arguments⟩⟩ := by
  rw [step, Command.attempt, h]

/-- A command with a value that is not resolved fails without reaching the runner. -/
theorem Statement.step_of_arguments_eq_error {e : ResolutionError}
    (h : scope.arguments s.command = .error e) :
    s.step runner scope state = ⟨s.withOutcome (.failure e.message), none⟩ := by
  rw [step, Command.attempt, h]

/-- A step with a call hands the runner the command of its statement with the arguments that it has
in the scope, and ends as the runner answers. -/
theorem Statement.arguments_of_call {call : Call}
    (h : (s.step runner scope state).call = some call) :
    call.action = s.command.action ∧ call.entity = s.command.entity ∧
      scope.arguments s.command = .ok call.arguments ∧
      (s.step runner scope state).statement.command.outcome =
        .ofAnswer (runner call state).1 := by
  cases harguments : scope.arguments s.command with
  | error e =>
    rw [step_of_arguments_eq_error harguments] at h
    cases h
  | ok arguments =>
    rw [step_of_arguments_eq_ok harguments] at h ⊢
    cases h
    exact ⟨rfl, rfl, rfl, rfl⟩

/-- A step that succeeds has a call. -/
theorem Statement.exists_call_of_succeeded
    (h : (s.step runner scope state).statement.command.outcome.succeeded = true) :
    ∃ call, (s.step runner scope state).call = some call := by
  cases harguments : scope.arguments s.command with
  | error e =>
    rw [step_of_arguments_eq_error harguments] at h
    cases h
  | ok arguments =>
    rw [step_of_arguments_eq_ok harguments]
    exact ⟨_, rfl⟩

/-- An attempt that reaches the runner hands it one call. -/
theorem Command.state_attempt (c : Command) :
    (c.attempt runner scope state).state =
      runner.after state (c.attempt runner scope state).call.toList := by
  rw [attempt]
  split <;> rfl

/-- The call of a step comes before those of later steps. -/
theorem Step.filterMap_call_cons (step : Step) (steps : List Step) :
    (step :: steps).filterMap Step.call = step.call.toList ++ steps.filterMap Step.call := by
  cases h : step.call <;> simp [h]

end Step

namespace Scope

/-- The scope behind some steps. -/
def behind (scope : Scope) (steps : List Step) : Scope :=
  steps.foldl
    (fun scope step => scope.afterStatement step.statement.name step.statement.command.outcome)
    scope

@[simp]
theorem behind_nil (scope : Scope) : scope.behind [] = scope := rfl

@[simp]
theorem behind_cons (scope : Scope) (step : Step) (steps : List Step) :
    scope.behind (step :: steps) =
      (scope.afterStatement step.statement.name step.statement.command.outcome).behind steps := rfl

@[simp]
theorem fillers_afterStatement (scope : Scope) (name : Option String) (outcome : Outcome) :
    (scope.afterStatement name outcome).fillers = scope.fillers := by
  cases name <;> rfl

@[simp]
theorem fillers_behind (scope : Scope) (steps : List Step) :
    (scope.behind steps).fillers = scope.fillers := by
  induction steps generalizing scope with
  | nil => rfl
  | cons step steps ih => rw [behind_cons, ih, fillers_afterStatement]

/-- What is bound behind some steps was bound by one of them or before them. -/
theorem lookup_behind {scope : Scope} {steps : List Step} {name : String} {outcome : Outcome}
    (h : (scope.behind steps).bindings.lookup name = some outcome) :
    (∃ step ∈ steps, step.statement.name = some name ∧ step.statement.command.outcome = outcome) ∨
      scope.bindings.lookup name = some outcome := by
  induction steps generalizing scope with
  | nil => exact .inr h
  | cons step steps ih =>
    rw [behind_cons] at h
    rcases ih h with ⟨later, hlater, hname, houtcome⟩ | hscope
    · exact .inl ⟨later, List.mem_cons_of_mem step hlater, hname, houtcome⟩
    -- Otherwise it was bound behind this step, by it if it declares the name.
    · cases hname : step.statement.name with
      | none =>
        rw [hname] at hscope
        exact .inr hscope
      | some declared =>
        rw [hname, afterStatement, bind, List.lookup_cons] at hscope
        split at hscope
        next heq =>
          obtain rfl : name = declared := by simpa using heq
          exact .inl ⟨step, List.mem_cons_self, hname, Option.some.inj hscope⟩
        next => exact .inr hscope

/-- What a step declares, or what was bound before the steps, is bound behind them. -/
theorem isSome_lookup_behind {scope : Scope} {steps : List Step} {name : String}
    (h : (∃ step ∈ steps, step.statement.name = some name) ∨
      (scope.bindings.lookup name).isSome = true) :
    ((scope.behind steps).bindings.lookup name).isSome = true := by
  induction steps generalizing scope with
  | nil =>
    rcases h with ⟨step, hstep, -⟩ | hbound
    · exact absurd hstep List.not_mem_nil
    · exact hbound
  | cons step steps ih =>
    rw [behind_cons]
    rcases h with ⟨declaring, hmem, hname⟩ | hbound
    · rcases List.mem_cons.mp hmem with rfl | hlater
      · refine ih (.inr ?_)
        simp [hname, afterStatement, bind]
      · exact ih (.inl ⟨declaring, hlater, hname⟩)
    -- A binding stays, or gives way to another one of the same name.
    · refine ih (.inr ?_)
      cases step.statement.name with
      | none => exact hbound
      | some declared =>
        rw [afterStatement, bind, List.lookup_cons]
        split
        · rfl
        · exact hbound

end Scope

namespace Run

variable {runner : Runner σ} {stopOnError : Bool}

/-- Every step attempts its statement in the scope behind the earlier steps, in the state of the
runner after their calls. -/
theorem exists_attempt {scope : Scope} {state : σ} {statements : List Statement}
    {before after : List Step} {step : Step}
    (h : (ofStatements runner stopOnError scope state statements).steps =
      before ++ step :: after) :
    ∃ s, statements[before.length]? = some s ∧
      step = s.step runner (scope.behind before)
        (runner.after state (before.filterMap Step.call)) := by
  -- The scope that a run goes on with is the one behind its first step, and the state is the one
  -- after its call, so the induction is over the statements for every scope and state.
  induction statements generalizing scope state before with
  | nil =>
    rw [ofStatements] at h
    exact absurd (congrArg List.length h) (by simp)
  | cons statement rest ih =>
    rw [ofStatements] at h
    split at h
    -- The run stops after this step, which then is the only one.
    · cases before with
      | nil =>
        cases h
        exact ⟨statement, rfl, rfl⟩
      | cons first others => exact absurd (congrArg List.length h) (by simp)
    · cases before with
      | nil =>
        cases h
        exact ⟨statement, rfl, rfl⟩
      | cons first others =>
        obtain ⟨rfl, hrest⟩ := List.cons.inj h
        obtain ⟨s, hs, hstep⟩ := ih hrest
        refine ⟨s, hs, ?_⟩
        rw [Step.filterMap_call_cons, Runner.after_append, ← Command.state_attempt]
        exact hstep

/-- The runner answers the calls of the run, one after another, and no others. -/
theorem state_ofStatements (scope : Scope) (state : σ) (statements : List Statement) :
    (ofStatements runner stopOnError scope state statements).state =
      runner.after state (ofStatements runner stopOnError scope state statements).calls := by
  induction statements generalizing scope state with
  | nil => rfl
  | cons statement rest ih =>
    rw [ofStatements]
    split
    · rw [calls, Step.filterMap_call_cons, List.filterMap_nil, List.append_nil]
      exact statement.command.state_attempt
    · rw [calls_cons, Runner.after_append, ← Command.state_attempt]
      exact ih _ _

/-- A run changes nothing but outcomes. -/
theorem map_pending_statements (scope : Scope) (state : σ) (statements : List Statement) :
    (ofStatements runner stopOnError scope state statements).statements.map
      (·.withOutcome .pending) = statements.map (·.withOutcome .pending) := by
  induction statements generalizing scope state with
  | nil => rfl
  | cons statement rest ih =>
    rw [ofStatements]
    split
    · rfl
    · rw [statements_cons, List.map_cons, ih, List.map_cons]
      rfl

/-- The statements that were not reached are those behind the steps, as they were before. -/
theorem unreached_eq_drop (scope : Scope) (state : σ) (statements : List Statement) :
    (ofStatements runner stopOnError scope state statements).unreached =
      statements.drop (ofStatements runner stopOnError scope state statements).steps.length := by
  induction statements generalizing scope state with
  | nil => rfl
  | cons statement rest ih =>
    rw [ofStatements]
    split
    · rfl
    · exact ih _ _

/-- The statements that were not reached are some of those that the run started from. -/
theorem unreached_subset {scope : Scope} {state : σ} {statements : List Statement} :
    ∀ s ∈ (ofStatements runner stopOnError scope state statements).unreached, s ∈ statements := by
  rw [unreached_eq_drop]
  exact fun _ hs => List.mem_of_mem_drop hs

/-- A run that does not stop at failures reaches every statement. -/
theorem length_steps (scope : Scope) (state : σ) (statements : List Statement) :
    (ofStatements runner false scope state statements).steps.length = statements.length := by
  induction statements generalizing scope state with
  | nil => rfl
  | cons statement rest ih =>
    rw [ofStatements, Bool.false_and, if_neg Bool.false_ne_true]
    exact congrArg (· + 1) (ih _ _)

/-- A command that succeeded in a run of commands that had not run was reached by the run: its
arguments were resolved in the scope behind the earlier steps, and the runner answered the call
with them. -/
theorem exists_call_of_succeeded {scope : Scope} {state : σ} {statements : List Statement}
    (hpending : ∀ s ∈ statements, s.command.outcome = .pending) {s : Statement}
    (hs : s ∈ (ofStatements runner stopOnError scope state statements).statements)
    (hsucceeded : s.command.outcome.succeeded = true) :
    ∃ before step after arguments state',
      (ofStatements runner stopOnError scope state statements).steps = before ++ step :: after ∧
      step.statement = s ∧ (scope.behind before).arguments s.command = .ok arguments ∧
      s.command.outcome =
        .ofAnswer (runner ⟨s.command.action, s.command.entity, arguments⟩ state').1 := by
  -- The outcome of a reached statement is that of its attempt, which has a call as it succeeds.
  rcases List.mem_append.mp hs with hreached | hunreached
  · obtain ⟨step, hstep, rfl⟩ := List.mem_map.mp hreached
    obtain ⟨before, after, hsplit⟩ := List.append_of_mem hstep
    obtain ⟨original, -, hstep⟩ := exists_attempt hsplit
    rw [hstep] at hsucceeded
    obtain ⟨⟨action, entity, arguments⟩, hcall⟩ := Statement.exists_call_of_succeeded hsucceeded
    obtain ⟨rfl, rfl, harguments, houtcome⟩ := Statement.arguments_of_call hcall
    refine ⟨before, step, after, arguments,
      runner.after state (before.filterMap Step.call), hsplit, rfl, ?_, ?_⟩
    · rw [hstep]
      exact harguments
    · rw [hstep]
      exact houtcome
  · rw [hpending s (unreached_subset s hunreached)] at hsucceeded
    cases hsucceeded

/-- In a run of commands that had not run, those that succeed are among those that were reached. -/
theorem filter_succeeded_statements {scope : Scope} {state : σ} {statements : List Statement}
    (hpending : ∀ s ∈ statements, s.command.outcome = .pending) :
    (ofStatements runner stopOnError scope state statements).statements.filter
        (·.command.outcome.succeeded) =
      ((ofStatements runner stopOnError scope state statements).steps.filter
        (·.statement.command.outcome.succeeded)).map Step.statement := by
  have hunreached : (ofStatements runner stopOnError scope state statements).unreached.filter
      (·.command.outcome.succeeded) = [] := by
    refine List.filter_eq_nil_iff.mpr fun s hs => ?_
    rw [hpending s (unreached_subset s hs)]
    exact Bool.false_ne_true
  rw [Run.statements, List.filter_append, hunreached, List.append_nil, List.filter_map]
  rfl

end Run

/-! ## References after a run -/

namespace Statement

/-- Whether statements are scoped does not depend on outcomes. -/
theorem areScoped_map_pending {declared : List String} {statements : List Statement} :
    AreScoped declared (statements.map (·.withOutcome .pending)) ↔
      AreScoped declared statements := by
  induction statements generalizing declared with
  | nil => rfl
  | cons s rest ih =>
    rw [List.map_cons, AreScoped, AreScoped, ih]
    rfl

/-- Of statements that declare distinct names at most one declares a given name. -/
theorem eq_of_names_nodup {statements : List Statement} (h : (names statements).Nodup)
    {s s' : Statement} (hs : s ∈ statements) (hs' : s' ∈ statements) {name : String}
    (hname : s.name = some name) (hname' : s'.name = some name) : s = s' := by
  induction statements with
  | nil => exact absurd hs List.not_mem_nil
  | cons first rest ih =>
    rw [names_cons, List.nodup_append] at h
    -- If one of the rest declared the name too, it would be declared twice.
    have hrest {other : Statement} (hother : other ∈ rest) (hsame : other.name = some name) :
        first.name ≠ some name := by
      intro hfirst
      have hmem : name ∈ names rest := List.mem_filterMap.mpr ⟨other, hother, hsame⟩
      exact h.2.2 name (by simp [hfirst]) name hmem rfl
    rcases List.mem_cons.mp hs with rfl | hmem
    · rcases List.mem_cons.mp hs' with rfl | hmem'
      · rfl
      · exact absurd hname (hrest hmem' hname')
    · rcases List.mem_cons.mp hs' with rfl | hmem'
      · exact absurd hname' (hrest hmem hname)
      · exact ih h.2.1 hmem hmem'

end Statement

namespace Template

/-- Where names are declared once, the declaration of a name is the statement that declares it,
and its result is the one that is captured. -/
theorem declaration?_of_mem {t : Template} (h : (Statement.names t.statements).Nodup)
    {s : Statement} (hs : s ∈ t.statements) {name : String} (hname : s.name = some name) :
    t.declaration? name = some s.command ∧ t.captured? name = s.command.outcome.captured? := by
  constructor
  -- The first statement found with the name is `s`, and so is the last one with a result.
  · rw [declaration?]
    cases hfound : t.statements.find? fun s => s.name == some name with
    | none =>
      have := List.find?_eq_none.mp hfound s hs
      simp [hname] at this
    | some other =>
      have hother : other.name = some name := by simpa using List.find?_some hfound
      rw [Statement.eq_of_names_nodup h hs (List.mem_of_find?_eq_some hfound) hname hother]
      rfl
  · cases hcaptured : t.captured? name with
    | none =>
      have := List.findSome?_eq_none_iff.mp hcaptured s (List.mem_reverse.mpr hs)
      rw [if_pos hname] at this
      exact this.symm
    | some l =>
      obtain ⟨other, hmem, hother, hl⟩ := exists_of_captured? hcaptured
      rw [Statement.eq_of_names_nodup h hs hmem hname hother, hl]

end Template

namespace Scope

/-- A reference is resolved to the result that is captured from the outcome bound to its name. -/
theorem resolveReference_eq_ok_iff {scope : Scope} {name : String} {l : Literal} :
    scope.resolveReference name = .ok l ↔
      ∃ outcome, scope.bindings.lookup name = some outcome ∧ outcome.captured? = some l := by
  rw [resolveReference]
  cases scope.bindings.lookup name with
  | none => simp
  | some outcome =>
    simp only [Option.some.injEq, exists_eq_left', Outcome.captured?]
    cases outcome.failed with
    | true => simp
    | false =>
      simp only [Bool.false_eq_true, if_false, Outcome.resultLiteral?]
      cases outcome.result with
      | none => simp
      | some json => cases hjson : Literal.ofJson? json <;> simp [hjson]

/-- A reference stands for what is captured from the outcome bound to its name. -/
theorem resolve_reference_eq_ok_iff {scope : Scope} {name : String} {l : Literal} :
    scope.resolve (.reference name) = .ok l ↔
      ∃ outcome, scope.bindings.lookup name = some outcome ∧ outcome.captured? = some l := by
  rw [resolve, ← resolveReference_eq_ok_iff]
  cases scope.resolveReference name <;> simp [Except.mapError]

/-- A hole stands for its filler. -/
theorem resolve_hole_eq_ok_iff {scope : Scope} {name : String} {l : Literal} :
    scope.resolve (.hole name) = .ok l ↔ scope.fillers.get? name = some l := by
  rw [resolve]
  cases scope.fillers.get? name <;> simp

end Scope

namespace Template

/-- What a value was resolved to behind some statements of a template is what the template keeps
of it, in records and in reversals, if names are declared once and fillers are flat. -/
theorem kept_of_resolve {t : Template} (hnodup : (Statement.names t.statements).Nodup)
    {fillers : Fillers} (hflat : ∀ filler ∈ fillers.values, filler.isFlat = true)
    {before : List Step} (hbefore : ∀ step ∈ before, step.statement ∈ t.statements) {v : Value}
    {l : Literal} (h : ((Scope.ofFillers fillers).behind before).resolve v = .ok l) :
    t.executed fillers v = .literal l ∧ t.frozen (some fillers) v = .ok (.literal l) := by
  cases v with
  | literal other =>
    cases h
    exact ⟨rfl, rfl⟩
  | reference name =>
    -- The outcome was bound by a step, and as the name is declared once it is the outcome of the
    -- declaration that is found in the template, from whichever end it is looked for.
    obtain ⟨outcome, hlookup, hcaptured⟩ := Scope.resolve_reference_eq_ok_iff.mp h
    rcases Scope.lookup_behind hlookup with ⟨step, hstep, hname, rfl⟩ | hnone
    · obtain ⟨hdeclaration, hsame⟩ := declaration?_of_mem hnodup (hbefore step hstep) hname
      have hliteral : step.statement.command.outcome.resultLiteral? = some l := by
        rw [Outcome.captured?] at hcaptured
        split at hcaptured
        · cases hcaptured
        · exact hcaptured
      constructor
      · rw [executed, hsame, hcaptured]
      · rw [frozen, hdeclaration, Option.bind_some, hliteral]
    · cases hnone
  | hole name =>
    rw [Scope.resolve_hole_eq_ok_iff, Scope.fillers_behind] at h
    have hfiller : fillers.get? name = some l := h
    have hfill : fillers.fill name = .literal l := by
      rw [Fillers.fill, hfiller]
      exact if_pos (hflat l (OrderedMap.mem_values_of_get? hfiller))
    exact ⟨hfill, congrArg Except.ok hfill⟩

/-! ## Runs of templates that were read -/

section Read

variable {runner : Runner σ} {stopOnError : Bool} {state : σ} {fillers : Fillers} {t : Template}

/-- A statement after a run is one of the template but for its outcome. -/
theorem withOutcome_mem_of_mem_run {s : Statement}
    (hpending : ∀ s ∈ t.statements, s.command.outcome = .pending)
    (hs : s ∈ (t.run runner fillers stopOnError state).template.statements) :
    s.withOutcome .pending ∈ t.statements := by
  have hself : ∀ s ∈ t.statements, s.withOutcome .pending = id s := by
    intro s hs
    rw [Statement.withOutcome, Command.withOutcome, ← hpending s hs]
    rfl
  have hmap : (t.run runner fillers stopOnError state).template.statements.map
      (·.withOutcome .pending) = t.statements := by
    refine (Run.map_pending_statements _ _ _).trans ?_
    rw [List.map_congr_left hself, List.map_id]
  exact hmap ▸ List.mem_map_of_mem hs

/-- A run changes nothing in the commands but outcomes. -/
theorem map_pending_commands_run :
    (t.run runner fillers stopOnError state).template.commands.map (·.withOutcome .pending) =
      t.commands.map (·.withOutcome .pending) := by
  have hcommands (statements : List Statement) :
      (statements.map Statement.command).map (·.withOutcome .pending) =
        (statements.map (·.withOutcome .pending)).map Statement.command := by
    rw [List.map_map, List.map_map]
    rfl
  rw [commands, commands, hcommands, hcommands]
  exact congrArg (List.map Statement.command) (Run.map_pending_statements _ _ _)

/-- A run keeps the declared names. -/
theorem names_run : Statement.names (t.run runner fillers stopOnError state).template.statements =
    Statement.names t.statements := by
  have hnames (statements : List Statement) :
      Statement.names (statements.map (·.withOutcome .pending)) = Statement.names statements :=
    List.filterMap_map
  rw [← hnames, ← hnames t.statements]
  exact congrArg Statement.names (Run.map_pending_statements _ _ _)

/-- A scoped template is scoped after a run. -/
theorem isScoped_run (h : t.IsScoped) :
    (t.run runner fillers stopOnError state).template.IsScoped := by
  rw [isScoped_iff, ← Statement.areScoped_map_pending] at h ⊢
  rwa [show (t.run runner fillers stopOnError state).template.statements.map
    (·.withOutcome .pending) = _ from Run.map_pending_statements _ _ _]

/-- The statements of earlier steps are among those of the template after the run. -/
theorem statement_mem_of_steps {before after : List Step}
    (hsplit : (t.run runner fillers stopOnError state).steps = before ++ after) :
    ∀ step ∈ before, step.statement ∈
      (t.run runner fillers stopOnError state).template.statements := by
  intro step hstep
  refine List.mem_append_left _ (List.mem_map_of_mem ?_)
  rw [hsplit]
  exact List.mem_append_left _ hstep

/-- The statements of a template that was read have not run. -/
theorem pending_of_ofText {text : String} (ht : ofText text = .ok t) :
    ∀ s ∈ t.statements, s.command.outcome = .pending := fun s hs =>
  (forall_of_ofText (fun _ _ => Statement.isWellFormed_of_ofText) ht s hs).2

/-- A command after a run of a template that was read is a well-formed command of the template
but for its outcome. -/
theorem exists_command_of_mem_run {text : String} (ht : ofText text = .ok t) {c : Command}
    (hc : c ∈ (t.run runner fillers stopOnError state).template.commands) :
    ∃ original ∈ t.commands, original.IsWellFormed ∧ c = original.withOutcome c.outcome := by
  have hread := forall_of_ofText (fun _ _ => Statement.isWellFormed_of_ofText) ht
  obtain ⟨s, hs, rfl⟩ := List.mem_map.mp hc
  have hmem := withOutcome_mem_of_mem_run (pending_of_ofText ht) hs
  exact ⟨_, List.mem_map_of_mem hmem, (hread _ hmem).1.command, rfl⟩

/-- The commands of a template that was read are well formed after a run. -/
theorem isWellFormed_of_mem_run {text : String} (ht : ofText text = .ok t) {c : Command}
    (hc : c ∈ (t.run runner fillers stopOnError state).template.commands) : c.IsWellFormed := by
  obtain ⟨original, -, hwell, hsame⟩ := exists_command_of_mem_run ht hc
  rw [hsame]
  exact ⟨hwell.action, hwell.entity, hwell.keys, hwell.values⟩

/-- The values of a command that succeeded in a run of a template that was read are literals, in
the record of the run and in its reversal, if fillers are flat. -/
theorem exists_kept_of_succeeded {text : String} (ht : ofText text = .ok t)
    (hflat : ∀ filler ∈ fillers.values, filler.isFlat = true) {c : Command}
    (hc : c ∈ (t.run runner fillers stopOnError state).template.commands)
    (hsucceeded : c.outcome.succeeded = true) :
    ∀ v ∈ c.parameters.values, ∃ l,
      (t.run runner fillers stopOnError state).template.executed fillers v = .literal l ∧
        (t.run runner fillers stopOnError state).template.frozen (some fillers) v =
          .ok (.literal l) := by
  obtain ⟨s, hs, rfl⟩ := List.mem_map.mp hc
  obtain ⟨before, step, after, arguments, -, hsplit, rfl, harguments, -⟩ :=
    Run.exists_call_of_succeeded (pending_of_ofText ht) hs hsucceeded
  have hnodup : (Statement.names
      (t.run runner fillers stopOnError state).template.statements).Nodup := by
    rw [names_run]
    exact (isScoped_of_ofText ht).distinct
  intro v hv
  obtain ⟨l, -, hl⟩ := OrderedMap.exists_of_traverse harguments v hv
  exact ⟨l, kept_of_resolve hnodup hflat (statement_mem_of_steps hsplit) hl⟩

end Read

end Template

end Runbook
