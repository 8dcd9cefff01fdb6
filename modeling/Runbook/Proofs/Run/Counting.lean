import Runbook.Proofs.Run.Scoping
import Runbook.Proofs.Run.EarlierOutcomes
import Runbook.Report
import Runbook.Simulation

/-!
# Counting what ran

The tally of a template splits its commands by whether they have an error, and so does the mark of
a command in a report: what is no failure counts as a success. After a run of commands that had no
outcomes that is the same as counting the commands that ran without error, but for those behind an
early stop, which have no outcome and count as successes as well.

## Main definitions

* `Command.IsMarked`: the details of a command begin with a mark and its text;
* `Execution.headline`: what a report in full shows before the commands.

## Main results

* `Template.total_tally`, `Template.succeeded_tally`: what the tally of any template counts;
* `Command.isMarked_ok_iff`, `Command.isMarked_ko_iff`: a report marks commands as the tally counts
  them;
* `Template.map_not_hasRun`: which commands did not run;
* `Template.counted_unless_failed`: the tally and the report after a run;
* `Template.unreached_counted_as_succeeded`: a command that did not run is counted as a success.
-/

namespace Runbook

variable {σ : Type}

/-! ## Tallies -/

namespace Outcome

variable {o : Outcome}

/-- A command that ran succeeded unless it failed. -/
theorem succeeded_of_hasRun (h : o.hasRun = true) : o.succeeded = !o.failed := by
  unfold succeeded
  rw [h, Bool.true_and]

/-- A command that did not run neither succeeded nor failed. -/
theorem not_succeeded_of_not_hasRun (h : o.hasRun = false) :
    o.succeeded = false ∧ o.failed = false := by
  unfold succeeded
  rw [h, Bool.false_and]
  exact ⟨rfl, (Bool.or_eq_false_iff.mp h).2⟩

end Outcome

namespace Template

/-- The tally counts every command. -/
theorem total_tally (t : Template) : t.tally.total = t.size := by
  have hsplit : t.commands.length = t.tally.failed + t.tally.succeeded := by
    unfold tally
    rw [List.length_eq_countP_add_countP fun c : Command => c.outcome.failed]
    simp
  unfold Tally.total size
  rw [Nat.add_comm, ← hsplit, commands, List.length_map]

/-- The tally counts as successes the commands that succeeded and those that did not run. -/
theorem succeeded_tally (t : Template) :
    t.tally.succeeded = t.commands.countP (·.outcome.succeeded) +
      t.commands.countP (!·.outcome.hasRun) := by
  change t.commands.countP (fun c => !c.outcome.failed) = _
  induction t.commands with
  | nil => rfl
  | cons c rest ih =>
    rw [List.countP_cons, List.countP_cons, List.countP_cons, ih]
    -- A command that ran is on both sides if it succeeded, any other one as it did not run.
    cases hran : c.outcome.hasRun with
    | true =>
      rw [Outcome.succeeded_of_hasRun hran, Bool.not_true, if_neg Bool.false_ne_true, Nat.add_zero]
      exact Nat.add_right_comm _ _ _
    | false =>
      obtain ⟨hsucceeded, hfailed⟩ := Outcome.not_succeeded_of_not_hasRun hran
      rw [hsucceeded, hfailed, Bool.not_false, if_neg Bool.false_ne_true, if_pos rfl]
      rfl

section Run

variable {t : Template} {fillers : Fillers} {runner : Runner σ} {stopOnError : Bool} {state : σ}

/-- The commands after a run are those of its steps before those that it did not reach. -/
theorem commands_run : (t.run runner fillers stopOnError state).template.commands =
    (t.run runner fillers stopOnError state).steps.map (·.statement.command) ++
      (t.run runner fillers stopOnError state).unreached.map Statement.command := by
  unfold commands Run.template Run.statements
  rw [List.map_append, List.map_map]
  rfl

/-- Every statement of a template is reached by a run or is not. -/
theorem length_steps_add_length_unreached :
    (t.run runner fillers stopOnError state).steps.length +
      (t.run runner fillers stopOnError state).unreached.length = t.size := by
  have hlength : (t.run runner fillers stopOnError state).statements.length = t.size :=
    Run.length_statements_ofStatements _ _ _ _ _
  rw [← hlength, Run.statements, List.length_append, List.length_map]

/-- There are statements that a run did not reach only behind a failure that stopped it. -/
theorem failed_of_unreached_ne_nil (h : (t.run runner fillers stopOnError state).unreached ≠ []) :
    stopOnError = true ∧ ∃ before step,
      (t.run runner fillers stopOnError state).steps = before ++ [step] ∧
        step.statement.command.outcome.failed = true := by
  have hpos : 0 < (t.run runner fillers stopOnError state).unreached.length :=
    List.length_pos_iff.mpr h
  have hlt : (t.run runner fillers stopOnError state).steps.length < t.size := by
    rw [← length_steps_add_length_unreached]
    exact Nat.lt_add_of_pos_right hpos
  exact Run.failed_of_length_lt _ _ _ _ _ hlt

variable (hpending : ∀ s ∈ t.statements, s.command.outcome = .pending)

include hpending

/-- What a run of commands without outcomes did not reach has no outcome. -/
theorem outcome_of_unreached : ∀ s ∈ (t.run runner fillers stopOnError state).unreached,
    s.command.outcome = .pending :=
  fun s hs => hpending s (Run.unreached_subset s hs)

/-- After a run of commands without outcomes the commands that did not run are those that it did not
reach, behind all others. -/
theorem map_not_hasRun :
    (t.run runner fillers stopOnError state).template.commands.map (!·.outcome.hasRun) =
      List.replicate (t.run runner fillers stopOnError state).steps.length false ++
        List.replicate (t.run runner fillers stopOnError state).unreached.length true := by
  have hreached : ((t.run runner fillers stopOnError state).steps.map
      (·.statement.command)).map (!·.outcome.hasRun) =
        List.replicate (t.run runner fillers stopOnError state).steps.length false := by
    rw [List.eq_replicate_iff, List.length_map, List.length_map, List.forall_mem_map,
      List.forall_mem_map]
    refine ⟨rfl, fun step hstep => ?_⟩
    rw [hasRun_of_steps (List.append_nil _).symm step hstep, Bool.not_true]
  have hunreached : ((t.run runner fillers stopOnError state).unreached.map
      Statement.command).map (!·.outcome.hasRun) =
        List.replicate (t.run runner fillers stopOnError state).unreached.length true := by
    rw [List.eq_replicate_iff, List.length_map, List.length_map, List.forall_mem_map,
      List.forall_mem_map]
    refine ⟨rfl, fun s hs => ?_⟩
    rw [outcome_of_unreached hpending s hs]
    rfl
  rw [commands_run, List.map_append, hreached, hunreached]

/-- After a run of commands without outcomes those that did not run are as many as those that it did
not reach. -/
theorem countP_not_hasRun :
    (t.run runner fillers stopOnError state).template.commands.countP (!·.outcome.hasRun) =
      (t.run runner fillers stopOnError state).unreached.length := by
  have hcount (commands : List Command) : commands.countP (!·.outcome.hasRun) =
      (commands.map (!·.outcome.hasRun)).countP id := by
    rw [List.countP_map, Function.id_comp]
  rw [hcount, map_not_hasRun hpending, List.countP_append, List.countP_replicate,
    List.countP_replicate]
  exact Nat.zero_add _

end Run

end Template

/-! ## Marks -/

namespace Command

/-- The details of a command begin with a mark and the text of the command. -/
def IsMarked (mark : String) (c : Command) : Prop :=
  ∃ rest, c.details = "    " ++ mark ++ "\t" ++ c.text ++ rest

variable {c : Command}

/-- The details of a command begin with its mark. -/
theorem isMarked_details : c.IsMarked (if c.outcome.failed then "KO" else "OK") := by
  unfold IsMarked details
  exact ⟨_, String.append_assoc.trans String.append_assoc⟩

/-- A command has one mark of a length. -/
theorem IsMarked.eq {mark mark' : String} (h : c.IsMarked mark) (h' : c.IsMarked mark')
    (hlength : mark.length = mark'.length) : mark = mark' := by
  obtain ⟨rest, hrest⟩ := h
  obtain ⟨rest', hrest'⟩ := h'
  -- Both marks stand behind the same indentation, and one is as long as the other.
  have hsame := congrArg String.toList (hrest.symm.trans hrest')
  simp only [String.toList_append, List.append_assoc, List.append_cancel_left_eq] at hsame
  exact String.toList_inj.mp (List.append_inj_left hsame hlength)

/-- A command is marked by whether it failed. -/
theorem isMarked_iff {mark : String} (hlength : mark.length = 2) :
    c.IsMarked mark ↔ mark = if c.outcome.failed then "KO" else "OK" := by
  constructor
  · intro hmark
    apply hmark.eq isMarked_details
    rw [hlength]
    split <;> rfl
  · rintro rfl
    exact isMarked_details

/-- A command is marked as a success if it has no error. -/
theorem isMarked_ok_iff : c.IsMarked "OK" ↔ c.outcome.failed = false := by
  rw [isMarked_iff rfl]
  cases c.outcome.failed <;> decide

/-- A command is marked as a failure if it has an error. -/
theorem isMarked_ko_iff : c.IsMarked "KO" ↔ c.outcome.failed = true := by
  rw [isMarked_iff rfl]
  cases c.outcome.failed <;> decide

/-- A command is marked as a success if it succeeded or did not run. -/
theorem isMarked_ok_iff_succeeded :
    c.IsMarked "OK" ↔ c.outcome.succeeded = true ∨ c.outcome.hasRun = false := by
  rw [isMarked_ok_iff]
  cases hran : c.outcome.hasRun with
  | true => simp [Outcome.succeeded_of_hasRun hran]
  | false => simp [Outcome.not_succeeded_of_not_hasRun hran]

end Command

namespace Execution

/-- The line on an execution that stands before the details of its commands. -/
def headline (policy : Policy) (instant : Instant) (e : Execution) : String :=
  "ID: " ++ e.id ++ "\tDate: " ++ instant.stamp ++ labelled "Author" e.author ++
    labelled "Locale" e.locale ++ labelled "Profile" e.profile ++ e.remark policy ++ "\n"

/-- An execution in full is a line on the execution before the details of each command. -/
theorem details_of_creation {e : Execution} {instant : Instant} (h : e.creation = .ok instant)
    (policy : Policy) : e.details policy =
      .ofText (e.headline policy instant ++
        String.join (e.template.commands.map Command.details)) := by
  unfold details headline
  rw [h]

end Execution

namespace Template

/-- After a run of commands without outcomes what is no failure is counted and shown as a success.
The tally has the commands with an error as failures and all others as successes: those that ran
without error and those that the run did not reach, of which there are some only behind a failure
that stopped the run. A report in full shows every command and marks the same ones as successes:
those that succeeded and those that did not run, which are the ones that the run did not reach. -/
theorem counted_unless_failed {t : Template}
    (hpending : ∀ s ∈ t.statements, s.command.outcome = .pending) (fillers : Fillers)
    (runner : Runner σ) (stopOnError : Bool) (state : σ) :
    let r := t.run runner fillers stopOnError state
    let commands := r.template.commands
    let tally := r.template.tally
    tally.failed = commands.countP (·.outcome.error.isSome) ∧
      tally.succeeded = commands.countP (·.outcome.succeeded) + r.unreached.length ∧
      tally.total = r.steps.length + r.unreached.length ∧ tally.total = t.size ∧
      (r.unreached ≠ [] → stopOnError = true ∧ ∃ before step, r.steps = before ++ [step] ∧
        step.statement.command.outcome.failed = true) ∧
      (∀ (policy : Policy) (e : Execution) (instant : Instant), e.template = r.template →
        e.creation = .ok instant → e.details policy =
          .ofText (e.headline policy instant ++ String.join (commands.map Command.details))) ∧
      (∀ c ∈ commands,
        (c.IsMarked "OK" ↔ c.outcome.succeeded = true ∨ c.outcome.hasRun = false) ∧
          (c.IsMarked "KO" ↔ ¬c.IsMarked "OK")) ∧
      (∀ step ∈ r.steps, step.statement.command.outcome.hasRun = true) ∧
      ∀ s ∈ r.unreached, s.command.outcome.hasRun = false := by
  intro r commands tally
  have hsize : r.steps.length + r.unreached.length = t.size := length_steps_add_length_unreached
  have htotal : tally.total = t.size := by
    rw [total_tally]
    exact Run.length_statements_ofStatements _ _ _ _ _
  refine ⟨rfl, ?_, htotal.trans hsize.symm, htotal, failed_of_unreached_ne_nil, ?_, ?_,
    hasRun_of_steps (List.append_nil _).symm, ?_⟩
  -- What did not run is what was not reached, as no command had an outcome before.
  · rw [← countP_not_hasRun hpending]
    exact succeeded_tally _
  · intro policy e instant htemplate hcreation
    have hdetails := Execution.details_of_creation hcreation policy
    rwa [htemplate] at hdetails
  · intro c hc
    refine ⟨Command.isMarked_ok_iff_succeeded, ?_⟩
    rw [Command.isMarked_ko_iff, Command.isMarked_ok_iff, Bool.not_eq_false]
  · intro s hs
    rw [outcome_of_unreached hpending s hs]
    rfl

/-- A template that creates a network and starts a machine. -/
private def networkAndMachine : Template :=
  .ofCommands [.new "create" "vpc" (.ofList [("cidr", .literal (.text "10.0.0.0/16"))]),
    .new "start" "vm" (.ofList [("id", .literal (.text "i-1"))])]

/-- A run of it that stops as no network can be created. -/
private def stoppedRun : Run Nat :=
  networkAndMachine.run (Simulation.runner (.ofList [("create vpc", "quota")])) .empty true 0

/-- An execution after that run. -/
private def stoppedExecution : Execution :=
  ⟨"01ARZ3NDEKTSV4RRFFQ69G5FAV", "", "", "", "", .empty, stoppedRun.template⟩

/-- Where no network can be created the machine is not reached. It is the one command that the tally
has as a success, and the report in full marks it as one. -/
theorem counted_unless_failed_stopped :
    (∀ s ∈ networkAndMachine.statements, s.command.outcome = .pending) ∧
      stoppedRun.unreached.map (·.command.text) = ["start vm id=i-1"] ∧
      stoppedRun.template.tally = ⟨0 + 1, 1⟩ ∧
      stoppedExecution.details .standard =
        .ofText ("ID: 01ARZ3NDEKTSV4RRFFQ69G5FAV\tDate: Jul 30 23:54:10\n" ++
          "    KO\tcreate vpc cidr=10.0.0.0/16\n\t    quota\n" ++ "    OK\tstart vm id=i-1\n") := by
  have hpending : ∀ s ∈ networkAndMachine.statements, s.command.outcome = .pending := by decide
  obtain ⟨hfailed, hsucceeded, -, -, -, hdetails, -, -, -⟩ :=
    counted_unless_failed hpending .empty
      (Simulation.runner (.ofList [("create vpc", "quota")])) true 0
  refine ⟨hpending, by decide, congrArg₂ Tally.mk hsucceeded hfailed, ?_⟩
  rw [hdetails .standard stoppedExecution _ rfl rfl]
  decide

/-- A command that did not run counts as a success. Behind an early stop the tally has a success
where no command succeeded, and more commands than the run reached, and the command that was not
reached is marked as a success. -/
theorem unreached_counted_as_succeeded :
    (∀ s ∈ networkAndMachine.statements, s.command.outcome = .pending) ∧
      stoppedRun.template.tally.succeeded = 1 ∧
      stoppedRun.template.commands.countP (·.outcome.succeeded) = 0 ∧
      stoppedRun.template.tally.total = 2 ∧ stoppedRun.steps.length = 1 ∧
      ∃ c ∈ stoppedRun.template.commands, c.IsMarked "OK" ∧ c.outcome.succeeded = false := by
  refine ⟨by decide, rfl, rfl, rfl, rfl, .new "start" "vm"
    (.ofList [("id", .literal (.text "i-1"))]), by decide, ?_, rfl⟩
  rw [Command.isMarked_ok_iff]
  rfl

end Template

end Runbook
