import Runbook.Proofs.Run.Trace
import Runbook.Simulation
import Runbook.Tally

/-!
# Earlier outcomes in a run

A run does not look at the outcomes that the commands of its template have already. Templates that
differ only in outcomes make the same calls and take the same steps, and what a run reached has the
outcomes of this run. What lies behind an early stop keeps the outcomes that it had, so templates
that are the same but for outcomes may be different after runs that stop early.

## Main definitions

* `Template.cleared`: the template without the outcomes of its commands.

## Main results

* `Run.ofStatements_map_pending`: without earlier outcomes a run is the same but for what it does
  not reach;
* `Run.failed_of_length_lt`: only a failure stops a run early;
* `Template.run_of_cleared_eq`: what two runs of templates that differ in outcomes have in common;
* `Template.outcomes_kept_behind_stop`: they may leave different templates.
-/

namespace Runbook

variable {σ : Type}

/-- The template without the outcomes of its commands. -/
def Template.cleared (t : Template) : Template :=
  ⟨t.statements.map (·.withOutcome .pending)⟩

/-- The attempt of a command does not depend on the outcome that the command has. -/
@[simp]
theorem Statement.attempt_withOutcome (runner : Runner σ) (scope : Scope) (state : σ)
    (s : Statement) (outcome : Outcome) :
    (s.withOutcome outcome).command.attempt runner scope state =
      s.command.attempt runner scope state := rfl

namespace Run

variable (runner : Runner σ) (stopOnError : Bool) (scope : Scope) (state : σ)
  (statements : List Statement)

/-- Without the outcomes that commands have already, a run is the same but for the statements that
it does not reach. -/
theorem ofStatements_map_pending :
    ofStatements runner stopOnError scope state (statements.map (·.withOutcome .pending)) =
      { ofStatements runner stopOnError scope state statements with
        unreached := (ofStatements runner stopOnError scope state statements).unreached.map
          (·.withOutcome .pending) } := by
  induction statements generalizing scope state with
  | nil => rfl
  | cons s rest ih =>
    -- Both runs attempt the same command, and stop behind it or go on in the same scope.
    rw [List.map_cons, ofStatements, ofStatements, Statement.attempt_withOutcome]
    split
    · rfl
    · rw [ih]
      rfl

/-- Only a failure stops a run early, where runs stop at failures. -/
theorem failed_of_length_lt
    (h : (ofStatements runner stopOnError scope state statements).steps.length <
      statements.length) :
    stopOnError = true ∧ ∃ before step,
      (ofStatements runner stopOnError scope state statements).steps = before ++ [step] ∧
        step.statement.command.outcome.failed = true := by
  induction statements generalizing scope state with
  | nil => exact absurd h (Nat.not_lt_zero _)
  | cons s rest ih =>
    rw [ofStatements] at h ⊢
    split at h
    next hstop =>
      rw [if_pos hstop]
      obtain ⟨hstopOnError, hfailed⟩ := Bool.and_eq_true_iff.mp hstop
      exact ⟨hstopOnError, [], _, rfl, hfailed⟩
    next hgoes =>
      rw [if_neg hgoes]
      obtain ⟨hstopOnError, before, step, hsteps, hfailed⟩ := ih _ _ (Nat.lt_of_succ_lt_succ h)
      exact ⟨hstopOnError, _ :: before, step, congrArg (_ :: ·) hsteps, hfailed⟩

end Run

namespace Template

/-- A run leaves the template as it was but for outcomes. -/
theorem cleared_run (t : Template) (runner : Runner σ) (fillers : Fillers) (stopOnError : Bool)
    (state : σ) : (t.run runner fillers stopOnError state).template.cleared = t.cleared :=
  congrArg Template.mk (Run.map_pending_statements _ _ _)

/-- Without the earlier outcomes a run is the same but for the statements that it does not reach. -/
theorem run_cleared (t : Template) (runner : Runner σ) (fillers : Fillers) (stopOnError : Bool)
    (state : σ) :
    t.cleared.run runner fillers stopOnError state =
      { t.run runner fillers stopOnError state with
        unreached := (t.run runner fillers stopOnError state).unreached.map
          (·.withOutcome .pending) } :=
  Run.ofStatements_map_pending _ _ _ _ _

/-- After a run the statements that were reached come before the others as they were. -/
theorem template_run (t : Template) (runner : Runner σ) (fillers : Fillers) (stopOnError : Bool)
    (state : σ) :
    (t.run runner fillers stopOnError state).template =
      ⟨(t.run runner fillers stopOnError state).steps.map Step.statement ++
        t.statements.drop (t.run runner fillers stopOnError state).steps.length⟩ := by
  rw [Run.template, Run.statements]
  exact congrArg (fun unreached => Template.mk (_ ++ unreached)) (Run.unreached_eq_drop _ _ _)

/-- A run does not depend on earlier outcomes, but for what it does not reach. Two templates that
differ only in outcomes take the same steps with the same calls, and leave the runner in the same
state. Behind the statements that were reached come the others, with the outcomes that they had; so
the templates are equal after the runs if and only if those that were not reached were equal before.
There are such statements only behind a failure that stops the run; a run that does not stop at
failures leaves equal templates. -/
theorem run_of_cleared_eq {t t' : Template} (h : t.cleared = t'.cleared) (fillers : Fillers)
    (runner : Runner σ) (stopOnError : Bool) (state : σ) :
    let r := t.run runner fillers stopOnError state
    let r' := t'.run runner fillers stopOnError state
    r.steps = r'.steps ∧ r.calls = r'.calls ∧ r.state = r'.state ∧
      r.template = ⟨r.steps.map Step.statement ++ t.statements.drop r.steps.length⟩ ∧
      (r.template = r'.template ↔
        t.statements.drop r.steps.length = t'.statements.drop r.steps.length) ∧
      (r.steps.length < t.statements.length → stopOnError = true ∧ ∃ before step,
        r.steps = before ++ [step] ∧ step.statement.command.outcome.failed = true) ∧
      (stopOnError = false → r.template = r'.template ∧ r.template.tally = r'.template.tally) := by
  intro r r'
  -- Both runs are told by the run without earlier outcomes.
  have hcleared : { r with unreached := r.unreached.map (Statement.withOutcome · .pending) } =
      { r' with unreached := r'.unreached.map (Statement.withOutcome · .pending) } := by
    rw [← t.run_cleared, h, t'.run_cleared]
  rw [Run.mk.injEq] at hcleared
  obtain ⟨hsteps, -, hstate⟩ := hcleared
  have htemplate : r.template = ⟨r.steps.map Step.statement ++ t.statements.drop r.steps.length⟩ :=
    t.template_run runner fillers stopOnError state
  have htemplate' : r'.template =
      ⟨r.steps.map Step.statement ++ t'.statements.drop r.steps.length⟩ :=
    hsteps ▸ t'.template_run runner fillers stopOnError state
  have hequal : r.template = r'.template ↔
      t.statements.drop r.steps.length = t'.statements.drop r.steps.length := by
    rw [htemplate, htemplate', Template.mk.injEq, List.append_cancel_left_eq]
  refine ⟨hsteps, congrArg (List.filterMap Step.call) hsteps, hstate, htemplate, hequal,
    Run.failed_of_length_lt _ _ _ _ _, ?_⟩
  rintro rfl
  have hlength : r.steps.length = t.statements.length := Run.length_steps _ _ _
  have hlength' : r.steps.length = t'.statements.length := by
    rw [hsteps]
    exact Run.length_steps _ _ _
  have hsame : r.template = r'.template := by
    rw [hequal, List.drop_eq_nil_of_le hlength.ge, List.drop_eq_nil_of_le hlength'.ge]
  exact ⟨hsame, congrArg tally hsame⟩

/-- A template of three commands. -/
private def machine : Template :=
  .ofCommands [.new "create" "vpc" (.ofList [("cidr", .literal (.text "10.0.0.0/16"))]),
    .new "start" "vm" (.ofList [("id", .literal (.text "i-1"))]),
    .new "stop" "vm" (.ofList [("id", .literal (.text "i-2"))])]

/-- The template after a simulation in which the machine could not be stopped. -/
private def machineRan : Template :=
  (machine.run (Simulation.runner (.ofList [("stop vm", "busy")])) .empty false 0).template

/-- A simulation in which no network can be created. -/
private def withoutNetwork : Runner Nat :=
  Simulation.runner (.ofList [("create vpc", "quota")])

/-- Where no network can be created the runner is called once, whether or not the template ran
before, and the other commands are left as they were. -/
theorem run_of_cleared_eq_machine :
    machineRan.cleared = machine.cleared ∧
      (machineRan.run withoutNetwork .empty true 0).steps =
        (machine.run withoutNetwork .empty true 0).steps ∧
      (machineRan.run withoutNetwork .empty true 0).calls =
        [⟨"create", "vpc", .ofList [("cidr", .text "10.0.0.0/16")]⟩] ∧
      (machineRan.run withoutNetwork .empty true 0).template.commands.map Command.outcome =
        [.failure "quota", .success (.string "i-1"), .failure "busy"] := by
  have hcleared : machineRan.cleared = machine.cleared := cleared_run ..
  obtain ⟨hsteps, hcalls, -, htemplate, -⟩ :=
    run_of_cleared_eq hcleared .empty withoutNetwork true 0
  refine ⟨hcleared, hsteps, hcalls.trans rfl, ?_⟩
  rw [htemplate, hsteps]
  rfl

/-- Earlier outcomes stay behind an early stop. Two templates that differ only in outcomes make the
same call in runs that stop at its failure, and yet are counted and left differently: a command that
was not reached has the outcome of an earlier run. -/
theorem outcomes_kept_behind_stop :
    machine.cleared = machineRan.cleared ∧
      (let r := machine.run withoutNetwork .empty true 0
      let r' := machineRan.run withoutNetwork .empty true 0
      r.calls = r'.calls ∧ r.template.tally = ⟨2, 1⟩ ∧ r'.template.tally = ⟨1, 2⟩ ∧
        r.template ≠ r'.template ∧ r'.steps.length = 1 ∧
        r'.template.commands[1]?.map Command.outcome = some (.success (.string "i-1"))) := by
  refine ⟨rfl, rfl, rfl, rfl, ?_, rfl, rfl⟩
  decide

end Template

end Runbook
