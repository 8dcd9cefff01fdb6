import Runbook.Proofs.Run.EarlierOutcomes

/-!
# Runs that stop at failures

A run that stops at failures is the beginning of the run that does not: it takes the same steps up
to the first one that fails, and leaves the statements behind that one as they were. What a run
makes of the first statements of a template depends on no later ones.

## Main definitions

* `Step.throughFailure`: the steps up to the first one that failed.

## Main results

* `Run.steps_ofStatements_true`: the steps of a run that stops at failures;
* `Run.take_statements_ofStatements`: what a run makes of the first statements;
* `Template.stopping_truncates`: the run that stops at failures, compared with the full one.
-/

namespace Runbook

variable {σ : Type}

/-- The steps up to the first one that failed, with that one; all steps if none failed. -/
def Step.throughFailure : List Step → List Step
  | [] => []
  | step :: rest =>
    if step.statement.command.outcome.failed then [step] else step :: throughFailure rest

namespace Step

theorem throughFailure_isPrefix (steps : List Step) : throughFailure steps <+: steps := by
  induction steps with
  | nil => exact List.prefix_rfl
  | cons step rest ih =>
    rw [throughFailure]
    split
    · exact (List.cons_prefix_cons).mpr ⟨rfl, List.nil_prefix⟩
    · exact (List.cons_prefix_cons).mpr ⟨rfl, ih⟩

/-- Where a step failed and none before it, it is the last one. -/
theorem throughFailure_append_cons {before after : List Step} {step : Step}
    (hbefore : ∀ earlier ∈ before, earlier.statement.command.outcome.failed = false)
    (hstep : step.statement.command.outcome.failed = true) :
    throughFailure (before ++ step :: after) = before ++ [step] := by
  induction before with
  | nil => rw [List.nil_append, throughFailure, if_pos hstep, List.nil_append]
  | cons first rest ih =>
    rw [List.forall_mem_cons] at hbefore
    rw [List.cons_append, throughFailure, hbefore.1, if_neg Bool.false_ne_true, ih hbefore.2,
      List.cons_append]

/-- Where no step failed they are all there. -/
theorem throughFailure_eq_self {steps : List Step}
    (h : ∀ step ∈ steps, step.statement.command.outcome.failed = false) :
    throughFailure steps = steps := by
  induction steps with
  | nil => rfl
  | cons first rest ih =>
    rw [List.forall_mem_cons] at h
    rw [throughFailure, h.1, if_neg Bool.false_ne_true, ih h.2]

end Step

namespace Run

@[simp]
theorem steps_cons (step : Step) (rest : Run σ) : (cons step rest).steps = step :: rest.steps := rfl

variable (runner : Runner σ) (scope : Scope) (state : σ) (statements : List Statement)

/-- A run that stops at failures takes the steps of the full run through the first failure. -/
theorem steps_ofStatements_true :
    (ofStatements runner true scope state statements).steps =
      Step.throughFailure (ofStatements runner false scope state statements).steps := by
  -- Both runs attempt a statement in one scope and state, and go on alike if it does not fail.
  induction statements generalizing scope state with
  | nil => rfl
  | cons s rest ih =>
    rw [ofStatements, ofStatements, Bool.true_and, Bool.false_and, if_neg Bool.false_ne_true,
      steps_cons, Step.throughFailure]
    split
    next hfailed => exact (if_pos hfailed).symm
    next hfailed =>
      rw [steps_cons, ih]
      exact (if_neg hfailed).symm

/-- What a run makes of the first statements is what it makes of them without the others. -/
theorem take_statements_ofStatements (stopOnError : Bool) (k : Nat) :
    (ofStatements runner stopOnError scope state statements).statements.take k =
      (ofStatements runner stopOnError scope state (statements.take k)).statements := by
  induction statements generalizing scope state k with
  | nil => rw [List.take_nil, ofStatements]; exact List.take_nil
  | cons s rest ih =>
    cases k with
    | zero => rfl
    | succ k =>
      rw [List.take_succ_cons, ofStatements, ofStatements]
      split
      next => rfl
      next => rw [statements_cons, statements_cons, List.take_succ_cons, ih]

end Run

namespace Template

/-- A template whose commands have not run has no outcomes to clear. -/
theorem cleared_eq_self {t : Template} (h : ∀ s ∈ t.statements, s.command.outcome = .pending) :
    t.cleared = t := by
  have hself : ∀ s ∈ t.statements, s.withOutcome .pending = id s := by
    intro s hs
    rw [Statement.withOutcome, Command.withOutcome, ← h s hs]
    rfl
  rw [cleared, List.map_congr_left hself, List.map_id]

section Stop

variable {t : Template} {fillers : Fillers} {runner : Runner σ} {state : σ}

/-- A run that does not stop at failures leaves the statements of its steps. -/
theorem statements_run_false : (t.run runner fillers false state).template.statements =
    (t.run runner fillers false state).steps.map Step.statement := by
  have hlength : (t.run runner fillers false state).steps.length = t.statements.length :=
    Run.length_steps _ _ _
  rw [template_run, List.drop_eq_nil_of_le hlength.ge, List.append_nil]

/-- A run that stops at failures takes the steps of the full run through the first failure. -/
theorem steps_run_true : (t.run runner fillers true state).steps =
    Step.throughFailure (t.run runner fillers false state).steps :=
  Run.steps_ofStatements_true _ _ _ _

/-- Where a statement fails in the full run and none before it, the run that stops at failures has
the outcomes up to it and none behind it. -/
theorem statements_run_true (hpending : ∀ s ∈ t.statements, s.command.outcome = .pending)
    {before after : List Statement} {s : Statement}
    (hsplit : (t.run runner fillers false state).template.statements = before ++ s :: after)
    (hbefore : ∀ earlier ∈ before, earlier.command.outcome.failed = false)
    (hs : s.command.outcome.failed = true) :
    (t.run runner fillers true state).template.statements =
      before ++ s :: after.map (·.withOutcome .pending) := by
  -- The statements of the full run are those of its steps, so they split where the steps do.
  obtain ⟨earlier, later, hsteps, rfl, hlater⟩ :=
    List.map_eq_append_iff.mp (statements_run_false.symm.trans hsplit)
  obtain ⟨step, rest, rfl, rfl, rfl⟩ := List.map_eq_cons_iff.mp hlater
  rw [List.forall_mem_map] at hbefore
  have hstopped : (t.run runner fillers true state).steps = earlier ++ [step] := by
    rw [steps_run_true, hsteps, Step.throughFailure_append_cons hbefore hs]
  -- What the stopped run did not reach is what the full run found there.
  have hstatements : t.statements =
      (t.run runner fillers false state).template.statements.map (·.withOutcome .pending) :=
    congrArg Template.statements
      ((cleared_run t runner fillers false state).trans (cleared_eq_self hpending)).symm
  have hdrop : t.statements.drop (earlier ++ [step]).length =
      (rest.map Step.statement).map (·.withOutcome .pending) := by
    rw [hstatements, statements_run_false, List.map_map, hsteps,
      List.append_cons earlier step rest, List.map_append, List.drop_left' (List.length_map _),
      List.map_map]
  rw [template_run, hstopped, hdrop, List.map_append, List.append_assoc]
  rfl

/-- Where no statement fails in the full run, the run that stops at failures takes its steps and
leaves its template. -/
theorem run_true_of_forall
    (h : ∀ s ∈ (t.run runner fillers false state).template.statements,
      s.command.outcome.failed = false) :
    (t.run runner fillers true state).steps = (t.run runner fillers false state).steps ∧
      (t.run runner fillers true state).template =
        (t.run runner fillers false state).template := by
  have hsteps : (t.run runner fillers true state).steps =
      (t.run runner fillers false state).steps := by
    rw [statements_run_false, List.forall_mem_map] at h
    rw [steps_run_true, Step.throughFailure_eq_self h]
  exact ⟨hsteps, by rw [template_run, template_run, hsteps]⟩

end Stop

/-- Stopping at failures truncates a run. For a template whose commands have not run, the calls of
the run that stops at failures are the first ones of the full run. Where a statement fails in the
full run and none before it, the run that stops has the outcomes of the full run up to that
statement and none behind it; where no statement fails the two runs leave the same template. Both
runs change nothing but outcomes, and what they make of the first statements is the same for every
template that has these statements at its beginning. -/
theorem stopping_truncates {t : Template}
    (hpending : ∀ s ∈ t.statements, s.command.outcome = .pending) (fillers : Fillers)
    (runner : Runner σ) (state : σ) :
    let full := t.run runner fillers false state
    let stopped := t.run runner fillers true state
    stopped.calls <+: full.calls ∧
      (∀ before s after, full.template.statements = before ++ s :: after →
        (∀ earlier ∈ before, earlier.command.outcome.failed = false) →
        s.command.outcome.failed = true →
          stopped.template.statements = before ++ s :: after.map (·.withOutcome .pending)) ∧
      ((∀ s ∈ full.template.statements, s.command.outcome.failed = false) →
        stopped.calls = full.calls ∧ stopped.template = full.template) ∧
      ∀ stopOnError, (t.run runner fillers stopOnError state).template.cleared = t ∧
        ∀ (t' : Template) (k : Nat), t'.statements.take k = t.statements.take k →
          (t'.run runner fillers stopOnError state).template.statements.take k =
            (t.run runner fillers stopOnError state).template.statements.take k := by
  intro full stopped
  refine ⟨?_, fun before s after => statements_run_true hpending, fun h => ?_,
    fun stopOnError => ⟨?_, fun t' k hsame => ?_⟩⟩
  · rw [Run.calls, steps_run_true]
    exact (Step.throughFailure_isPrefix full.steps).filterMap Step.call
  · obtain ⟨hsteps, htemplate⟩ := run_true_of_forall h
    exact ⟨congrArg (List.filterMap Step.call) hsteps, htemplate⟩
  · rw [cleared_run, cleared_eq_self hpending]
  · have htake (u : Template) :
        (u.run runner fillers stopOnError state).template.statements.take k =
          (Run.ofStatements runner stopOnError (.ofFillers fillers) state
            (u.statements.take k)).statements :=
      Run.take_statements_ofStatements _ _ _ _ _ _
    rw [htake, htake, hsame]

/-- A template in which a machine refers to a gate, and the gate to a network that is declared
twice, before and behind it. -/
private def gatedMachine : Template :=
  ⟨[⟨some "net", .new "create" "vpc" .empty⟩,
    ⟨some "gate", .new "attach" "gate" (.ofList [("to", .reference "net")])⟩,
    ⟨some "net", .new "start" "vm" (.ofList [("via", .reference "gate")])⟩,
    ⟨none, .new "stop" "vm" (.ofList [("id", .literal (.text "i-2"))])⟩]⟩

/-- The gate comes to no literal, so that the machine does not start: a run that stops there makes
the two calls before it and leaves the command behind it without outcome, which the full run calls
as well. -/
theorem stopping_truncates_gate :
    (∀ s ∈ gatedMachine.statements, s.command.outcome = .pending) ∧
      (let full := gatedMachine.run (Simulation.runner .empty) .empty false 0
      let stopped := gatedMachine.run (Simulation.runner .empty) .empty true 0
      stopped.calls <+: full.calls ∧ stopped.calls.length = 2 ∧ full.calls.length = 3 ∧
        full.template.commands.map Command.outcome =
          [.success (.string "vpc-sim-0001"), .success .null,
            .failure "unresolved reference $gate: declaration result is not a literal value",
            .success (.string "i-2")] ∧
        stopped.template.commands.map Command.outcome =
          [.success (.string "vpc-sim-0001"), .success .null,
            .failure "unresolved reference $gate: declaration result is not a literal value",
            .pending]) := by
  have hpending : ∀ s ∈ gatedMachine.statements, s.command.outcome = .pending := by decide
  obtain ⟨hcalls, hstopped, -, -⟩ :=
    stopping_truncates hpending .empty (Simulation.runner .empty) 0
  refine ⟨hpending, hcalls, rfl, rfl, rfl, ?_⟩
  have hsplit := hstopped
    ((gatedMachine.run (Simulation.runner .empty) .empty false 0).template.statements.take 2) _ _
    rfl (by decide) (by decide)
  rw [commands, hsplit]
  rfl

end Template

end Runbook
