import Runbook.Proofs.Policy
import Runbook.Proofs.Reversal.Reload
import Runbook.Proofs.Reversal.WellFormed

/-!
# Executions that can be reached

Executions are started from text or loaded from bytes, and then run, edited, stored and loaded
again, and turned into what undoes them, in any order. Every execution that is reached in this way
is well formed, so that it can be stored and loaded, and so can whatever becomes of it.

## Main definitions

* `Execution.Step`: what may become of an execution by one operation;
* `Execution.Reachable`: the executions that come about by operations.

## Main results

* `Execution.Step.isWellFormed`: an operation on a well-formed execution gives a well-formed one;
* `Execution.isWellFormed_of_reachable`: so every execution that is reached is well formed;
* `Execution.reached_executions_persist`: so its commands are read from their text, its record is
  loaded, and its reversals are read from their text.
-/

namespace Runbook

/-! ## Commands but for their outcomes -/

namespace Template

/-- The template with another outcome of the command at a place, if there is one. -/
def recordOutcome (t : Template) (index : Nat) (outcome : Outcome) : Template :=
  ⟨t.statements.modify index fun s => s.withOutcome outcome⟩

/-- Recording an outcome changes nothing in the commands but outcomes. -/
theorem map_pending_commands_recordOutcome (t : Template) (index : Nat) (outcome : Outcome) :
    (t.recordOutcome index outcome).commands.map (·.withOutcome .pending) =
      t.commands.map (·.withOutcome .pending) := by
  rw [commands, commands, recordOutcome, List.map_map, List.map_map]
  refine List.ext_getElem? fun i => ?_
  rw [List.getElem?_map, List.getElem?_map, List.getElem?_modify, Option.map_eq_map, Option.map_map]
  congr 1
  funext s
  rw [Function.comp_apply]
  split <;> rfl

/-- Commands that agree with well-formed ones but for their outcomes are well formed. -/
theorem isWellFormed_of_map_pending {t t' : Template}
    (hsame : t'.commands.map (·.withOutcome .pending) = t.commands.map (·.withOutcome .pending))
    (h : ∀ c ∈ t.commands, c.IsWellFormed) : ∀ c ∈ t'.commands, c.IsWellFormed := by
  have hpending : ∀ c ∈ t'.commands.map (·.withOutcome .pending), c.IsWellFormed := by
    rw [hsame, List.forall_mem_map]
    exact fun c hc => Command.isWellFormed_withOutcome.mpr (h c hc)
  rw [List.forall_mem_map] at hpending
  exact fun c hc => Command.isWellFormed_withOutcome.mp (hpending c hc)

end Template

/-! ## Operations -/

namespace Execution

/-- What may become of an execution by one operation. -/
inductive Step : Execution → Execution → Prop
  /-- The template is run by some runner with some fillers. -/
  | run {σ : Type} {e : Execution} (runner : Runner σ) (fillers : Fillers) (stopOnError : Bool)
      (state : σ) : Step e (e.withTemplate (e.template.run runner fillers stopOnError state).template)
  /-- The outcome of a command is replaced. -/
  | record {e : Execution} (index : Nat) (outcome : Outcome) :
      Step e (e.withTemplate (e.template.recordOutcome index outcome))
  /-- The fillers are replaced. -/
  | refill {e : Execution} (fillers : Fillers) :
      (∀ filler ∈ fillers.values, filler.depth ≤ Record.fillerNesting) → Step e { e with fillers }
  /-- The execution is stored and loaded. -/
  | reload {e r : Execution} : decode e.encode = .ok r → Step e r
  /-- The template is replaced by its reversal, in which holes stay. -/
  | reverse {e : Execution} {policy : Policy} {reversal : Template} : policy.IsWellFormed →
      e.template.reversed policy none = .ok reversal → Step e (e.withTemplate reversal)
  /-- The template is replaced by the reversal of the execution, in which holes are filled. -/
  | undo {e : Execution} {policy : Policy} {reversal : Template} : policy.IsWellFormed →
      e.reversed policy = .ok reversal → Step e (e.withTemplate reversal)

/-- The executions that come about by operations. -/
inductive Reachable : Execution → Prop
  /-- A template that was read is started under a valid identity, without fillers. -/
  | start {text : String} {identity : Identity} {e : Execution} :
      Template.ofText text = .ok e.template → Identity.parse e.id = .ok identity →
        e.fillers = .empty → Reachable e
  /-- An execution is loaded. -/
  | load {bytes : ByteArray} {e : Execution} : decode bytes = .ok e → Reachable e
  /-- An operation is applied. -/
  | step {e e' : Execution} : Reachable e → Step e e' → Reachable e'

/-- An operation on a well-formed execution gives a well-formed one. -/
theorem Step.isWellFormed {e e' : Execution} (h : Step e e') (he : e.IsWellFormed) :
    e'.IsWellFormed := by
  cases h with
  | run =>
    exact ⟨he.identity, Template.isWellFormed_of_map_pending Template.map_pending_commands_run
      he.commands, he.depth⟩
  | record index outcome =>
    exact ⟨he.identity, Template.isWellFormed_of_map_pending
      (e.template.map_pending_commands_recordOutcome index outcome) he.commands, he.depth⟩
  | refill fillers hdepth => exact ⟨he.identity, he.commands, hdepth⟩
  | reload hload => exact isWellFormed_of_decode hload
  | reverse hpolicy hreversed =>
    exact ⟨he.identity, fun c hc =>
      (Template.isWellFormed_of_reversed hpolicy he.commands hreversed c hc).1, he.depth⟩
  | undo hpolicy hreversed =>
    exact ⟨he.identity, fun c hc =>
      (Template.isWellFormed_of_reversed hpolicy he.commands hreversed c hc).1, he.depth⟩

/-- Every execution that is reached is well formed. -/
theorem isWellFormed_of_reachable {e : Execution} (h : Reachable e) : e.IsWellFormed := by
  induction h with
  | start htext hidentity hfillers =>
    refine ⟨⟨_, hidentity⟩, ?_, by rw [hfillers]; exact fun _ hf => absurd hf List.not_mem_nil⟩
    have hread := Template.forall_of_ofText (fun _ _ => Statement.isWellFormed_of_ofText) htext
    exact List.forall_mem_map.mpr fun s hs => (hread s hs).1.command
  | load hload => exact isWellFormed_of_decode hload
  | step _ hstep ih => exact hstep.isWellFormed ih

/-- Executions that are reached persist. The text of every command is read as a bare command; the
record is loaded as the execution after reloading if the double-precision numbers of the fillers are
read in range; and the text of every reversal, with holes filled or not, is read. -/
theorem reached_executions_persist {e : Execution} (h : Reachable e) :
    (∀ c ∈ e.template.commands, Statement.ofText c.text = .ok ⟨none, c.reread⟩) ∧
      ((∀ filler ∈ e.fillers.values, ∀ x ∈ filler.floats, x.ReadsInRange) →
        decode e.encode = .ok e.reloaded) ∧
      ∀ policy : Policy, policy.IsWellFormed → ∀ reversal,
        e.template.reversed policy none = .ok reversal ∨ e.reversed policy = .ok reversal →
          Template.ofText reversal.text = .ok reversal.reread := by
  have he := isWellFormed_of_reachable h
  refine ⟨fun c hc => Statement.ofText_text_command (he.commands c hc), fun hrange => ?_,
    fun policy hpolicy reversal hreversed => ?_⟩
  · exact decode_encode ⟨he.identity, he.commands, he.depth, hrange⟩
  · rcases hreversed with hreversed | hreversed
    · exact Template.ofText_text_of_reversed hpolicy he.commands hreversed
    · exact Template.ofText_text_of_reversed hpolicy he.commands hreversed

/-- A network and a machine in it, started without fillers. -/
private def shutdown : Execution where
  id := "01ARZ3NDEKTSV4RRFFQ69G5FAV"
  author := ""
  source := ""
  locale := ""
  profile := ""
  fillers := .empty
  template := ⟨[⟨some "net", .new "create" "vpc" .empty⟩,
    ⟨none, .new "stop" "vm" (.ofList [("id", .hole "vm"), ("cost", .literal (.text "1 €"))])⟩]⟩

/-- The execution filled with a list of lists and run, where the network comes to a list of lists as
well; afterwards the network is said to have failed. -/
private def shutdownRecorded : Execution :=
  let filled : Execution := { shutdown with fillers := .ofList [("vm", .list [.list []])] }
  let ran := filled.withTemplate (filled.template.run (σ := List (Except (List String) Json))
    answering filled.fillers true [.ok (.array [.array []]), .ok .null]).template
  ran.withTemplate (ran.template.recordOutcome 0 (.failure "quota"))

/-- What undoes the execution. -/
private def restart : Template :=
  .ofCommands [.new "start" "vm" (.ofList [("id", .hole "vm"), ("cost", .literal (.text "1 €"))])]

/-- Of an execution that was filled, run, edited and loaded again the commands are read, the record
is loaded, and the reversal is read, in which the hole is still one. -/
theorem reached_executions_persist_shutdown :
    Reachable shutdownRecorded.reloaded ∧
      (∀ c ∈ shutdownRecorded.reloaded.template.commands,
        Statement.ofText c.text = .ok ⟨none, c.reread⟩) ∧
      decode shutdownRecorded.reloaded.encode = .ok shutdownRecorded.reloaded.reloaded ∧
      shutdownRecorded.reloaded.reversed .standard = .ok restart ∧
      Template.ofText "start vm id=\x7bvm\x7d cost=\"1 €\"\n" = .ok restart := by
  have htext : Template.ofText shutdown.template.text = .ok shutdown.template := by decide +kernel
  have hstart : Reachable shutdown := .start htext rfl rfl
  have hfilled := Reachable.step hstart (.refill (.ofList [("vm", .list [.list []])]) (by decide))
  have hran := Reachable.step hfilled (.run (σ := List (Except (List String) Json)) answering
    (.ofList [("vm", .list [.list []])]) true [.ok (.array [.array []]), .ok .null])
  have hrecorded : Reachable shutdownRecorded := .step hran (.record 0 (.failure "quota"))
  have hwell := isWellFormed_of_reachable hrecorded
  have hload : decode shutdownRecorded.encode = .ok shutdownRecorded.reloaded :=
    decode_encode ⟨hwell.identity, hwell.commands, hwell.depth, by decide⟩
  have hreached := Reachable.step hrecorded (.reload hload)
  obtain ⟨hcommands, hrecord, hreversals⟩ := reached_executions_persist hreached
  have hreversed : shutdownRecorded.reloaded.reversed .standard = .ok restart := rfl
  have hread := hreversals .standard (fun _ _ _ => Policy.isActionWord_of_standard) restart
    (.inr hreversed)
  have hrestart : restart.text = "start vm id=\x7bvm\x7d cost=\"1 €\"\n" := by decide
  rw [hrestart, show restart.reread = restart by decide] at hread
  exact ⟨hreached, hcommands, hrecord (by decide), hreversed, hread⟩

end Execution

end Runbook
