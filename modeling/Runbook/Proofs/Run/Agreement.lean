import Mathlib.Data.List.Forall2
import Runbook.Proofs.Reversal.Reload

/-!
# What ran, what is recorded and what is undone

References and holes are resolved three times: in the scope of the run before a command is handed
to the runner, among the outcomes of the whole template for its record, and among its declarations
for its reversal. For a template that was read all three come to the literals that the runner was
handed.

## Main definitions

* `Call.command`: the command that a call stands for;
* `Step.UndoneBy`: what undoes a step, told from its call.

## Main results

* `Template.parameters_of_call`: records and reversals keep what a call was made with;
* `Execution.record_and_reversal_keep_calls`: the lines of a record and the commands of a reversal
  are told from the calls of the run.
-/

namespace Runbook

variable {σ : Type}

/-- The command that a call stands for, with the literals that it was made with. -/
def Call.command (call : Call) : Command :=
  .new call.action call.entity (call.arguments.map .literal)

/-- A command undoes a step by the inverse of its action; where the inverse keeps parameters, they
are what the call of the step was made with. -/
def Step.UndoneBy (policy : Policy) (step : Step) (undo : Command) : Prop :=
  ∃ call inverse, step.call = some call ∧
    policy.inverse? call.action call.entity = some inverse ∧
    undo.action = inverse.action ∧ undo.entity = call.entity ∧
    (inverse.carry = .parameters → undo.parameters = call.arguments.map .literal)

namespace Template

section Read

variable {t : Template} {fillers : Fillers} {runner : Runner σ} {stopOnError : Bool} {state : σ}

/-- Records and reversals of a scoped template keep, for a command that reached the runner, exactly
the keys and literals that the runner was handed, if fillers are flat. -/
theorem parameters_of_call (hscoped : t.IsScoped)
    (hflat : ∀ filler ∈ fillers.values, filler.isFlat = true) {before after : List Step}
    {step : Step}
    (hsplit : (t.run runner fillers stopOnError state).steps = before ++ step :: after)
    {call : Call} (hcall : step.call = some call) :
    step.statement.command.parameters.map
        ((t.run runner fillers stopOnError state).template.executed fillers) =
      call.arguments.map .literal ∧
    step.statement.command.parameters.traverse
        ((t.run runner fillers stopOnError state).template.frozen (some fillers)) =
      .ok (call.arguments.map .literal) := by
  obtain ⟨s, -, hstep⟩ := Run.exists_attempt hsplit
  rw [hstep] at hcall
  obtain ⟨-, -, harguments, -⟩ := Statement.arguments_of_call hcall
  have hscoped' : (t.run runner fillers stopOnError state).template.IsScoped :=
    isScoped_run hscoped
  -- The scope of the step was bound by earlier steps, whose outcomes are in the template.
  have hkept : ∀ v l, ((Scope.ofFillers fillers).behind before).resolve v = .ok l → _ :=
    fun v l => kept_of_resolve hscoped'.distinct hflat (statement_mem_of_steps hsplit)
  have hexecuted : s.command.parameters.map
      ((t.run runner fillers stopOnError state).template.executed fillers) =
        call.arguments.map .literal :=
    OrderedMap.map_eq_map_of_traverse harguments fun v _ l hl => (hkept v l hl).1
  have hparameters : step.statement.command.parameters = s.command.parameters := by
    rw [hstep]
    rfl
  rw [hparameters]
  refine ⟨hexecuted, ?_⟩
  rw [← hexecuted]
  apply OrderedMap.traverse_eq_ok_of_forall
  intro v hv
  obtain ⟨l, -, hl⟩ := OrderedMap.exists_of_traverse harguments v hv
  rw [(hkept v l hl).1, (hkept v l hl).2]

/-- A step of a run of a scoped template that succeeds is undone, where it is undone, as its call
tells. -/
theorem undoneBy_of_inverse (hscoped : t.IsScoped)
    (hflat : ∀ filler ∈ fillers.values, filler.isFlat = true) {policy : Policy} {step : Step}
    (hmem : step ∈ (t.run runner fillers stopOnError state).steps)
    (hsucceeded : step.statement.command.outcome.succeeded = true) {undo : Command}
    (h : (t.run runner fillers stopOnError state).template.inverse policy (some fillers)
      step.statement.command = .ok undo) : step.UndoneBy policy undo := by
  obtain ⟨before, after, hsplit⟩ := List.append_of_mem hmem
  obtain ⟨s, -, hstep⟩ := Run.exists_attempt hsplit
  rw [hstep] at hsucceeded
  obtain ⟨call, hcall⟩ := Statement.exists_call_of_succeeded hsucceeded
  obtain ⟨haction, hentity, -, -⟩ := Statement.arguments_of_call hcall
  rw [← hstep] at hcall
  obtain ⟨inverse, hinverse, parameters, hparameters, rfl⟩ := inverse_eq_ok_iff.mp h
  have hsame : step.statement.command.action = call.action ∧
      step.statement.command.entity = call.entity := by
    rw [hstep, haction, hentity]
    exact ⟨rfl, rfl⟩
  rw [hsame.1, hsame.2] at hinverse
  refine ⟨call, inverse, hcall, hinverse, rfl, hsame.2, fun hcarry => ?_⟩
  rw [hcarry, inverseParameters, (parameters_of_call hscoped hflat hsplit hcall).2] at hparameters
  exact (Except.ok.inj hparameters).symm

end Read

end Template

namespace Execution

/-- The line of a command in a record is the canonical text of the command with the values that
are recorded for its parameters. -/
theorem exists_entry_of_getElem? {e : Execution} {i : Nat} {c : Command}
    (h : e.template.commands[i]? = some c) :
    ∃ entry, (Record.ofExecution e).entries[i]? = some entry ∧
      entry.line = (Command.new c.action c.entity
        (c.parameters.map (e.template.executed e.fillers))).text := by
  refine ⟨.ofCommand e.template e.fillers c, ?_, rfl⟩
  rw [Record.ofExecution, List.getElem?_map, h]
  rfl

/-- What ran, what is recorded and what is undone agree. For an execution whose template was read
and ran once with flat fillers, the runner answered the calls of the steps and no others. The stored
bytes read back as one line for each command; for a command that reached the runner it is the
canonical text of what the runner was called with. A record that is read from these bytes has these
lines, and one is read if the numbers of the fillers are in range. If there is a reversal, its
commands undo the steps that succeeded, in reverse order, each with what the call of its step was
made with where the inverse keeps parameters. -/
theorem record_and_reversal_keep_calls {text : String} {e : Execution}
    (hread : Template.ofText text = .ok e.template)
    (hflat : ∀ filler ∈ e.fillers.values, filler.isFlat = true) (runner : Runner σ)
    (stopOnError : Bool) (state : σ) :
    let r := e.run runner stopOnError state
    let ran := e.ran runner stopOnError state
    r.state = runner.after state r.calls ∧
      (∃ entries, Record.entriesIn? ran.encode = some entries ∧
        entries.length = ran.template.commands.length ∧
        (∀ record, (Json.Document.ofBytes? ran.encode).bind Record.ofDocument? = some record →
          record.entries = entries) ∧
        ((∀ filler ∈ e.fillers.values, ∀ x ∈ filler.floats, x.ReadsInRange) →
          ∃ record, (Json.Document.ofBytes? ran.encode).bind Record.ofDocument? = some record) ∧
        ∀ before step after call, r.steps = before ++ step :: after → step.call = some call →
          call.action = step.statement.command.action ∧
            call.entity = step.statement.command.entity ∧
            step.statement.command.outcome =
              .ofAnswer (runner call (runner.after state (before.filterMap Step.call))).1 ∧
            ran.template.commands[before.length]? = some step.statement.command ∧
            ∃ entry, entries[before.length]? = some entry ∧ entry.line = call.command.text) ∧
      ran.template.statements.filter (·.command.outcome.succeeded) =
        (r.steps.filter (·.statement.command.outcome.succeeded)).map Step.statement ∧
      ∀ policy reversal, ran.reversed policy = .ok reversal →
        List.Forall₂ (Step.UndoneBy policy)
          (r.steps.reverse.filter (·.statement.command.outcome.succeeded)) reversal.commands := by
  intro r ran
  have hscoped := Template.isScoped_of_ofText hread
  have hpending : ∀ s ∈ e.template.statements, s.command.outcome = .pending := fun s hs =>
    (Template.forall_of_ofText (fun _ _ => Statement.isWellFormed_of_ofText) hread s hs).2
  have hfilter : ran.template.statements.filter (·.command.outcome.succeeded) =
      (r.steps.filter (·.statement.command.outcome.succeeded)).map Step.statement :=
    Run.filter_succeeded_statements hpending
  refine ⟨Run.state_ofStatements _ _ _, ⟨(Record.ofExecution ran).entries, ran.entriesIn?_encode,
    List.length_map _, fun record hrecord => ?_, fun hrange => ?_, ?_⟩, hfilter, ?_⟩
  · exact Option.some.inj
      ((Record.entriesIn?_of_ofDocument? hrecord).symm.trans ran.entriesIn?_encode)
  · have hfillers : Record.FillersAreReadable ran.fillers :=
      ⟨fun filler hfiller =>
        (Literal.depth_le_one_of_isFlat (hflat filler hfiller)).trans (by decide), hrange⟩
    exact ⟨_, ofDocument?_encode hfillers⟩
  · intro before step after call hsplit hcall
    have hcommand : ran.template.commands[before.length]? = some step.statement.command := by
      have hstatements : ran.template.statements =
          r.steps.map Step.statement ++ r.unreached := rfl
      rw [Template.commands, hstatements, hsplit]
      simp
    obtain ⟨hparameters, -⟩ := Template.parameters_of_call hscoped hflat hsplit hcall
    obtain ⟨entry, hentry, hline⟩ := exists_entry_of_getElem? hcommand
    obtain ⟨s, -, hstep⟩ := Run.exists_attempt hsplit
    obtain ⟨haction, hentity, -, houtcome⟩ :=
      Statement.arguments_of_call ((congrArg Step.call hstep).symm.trans hcall)
    rw [← hstep] at houtcome
    have hsame : step.statement.command.action = call.action ∧
        step.statement.command.entity = call.entity := by
      rw [hstep, haction, hentity]
      exact ⟨rfl, rfl⟩
    refine ⟨hsame.1.symm, hsame.2.symm, houtcome, hcommand, entry, hentry, hline.trans ?_⟩
    rw [hsame.1, hsame.2]
    exact congrArg (fun parameters => (Command.new _ _ parameters).text) hparameters
  · intro policy reversal hreversed
    obtain ⟨-, inverses, hinverses, rfl⟩ := Template.reversed_eq_ok_iff.mp hreversed
    have hsteps : ran.template.commands.reverse.filter (·.outcome.succeeded) =
        (r.steps.reverse.filter (·.statement.command.outcome.succeeded)).map
          (·.statement.command) := by
      rw [List.filter_reverse, List.filter_reverse, List.map_reverse, Template.commands,
        List.filter_map]
      refine congrArg List.reverse ?_
      exact (congrArg (List.map Statement.command) hfilter).trans List.map_map
    rw [hsteps, Template.inverses_eq_ok_iff, List.forall₂_map_left_iff] at hinverses
    rw [Template.commands_ofCommands]
    have hmem : ∀ step ∈ r.steps.reverse.filter (·.statement.command.outcome.succeeded),
        step ∈ r.steps ∧ step.statement.command.outcome.succeeded = true := by
      intro step hstep
      rwa [List.mem_filter, List.mem_reverse] at hstep
    refine ((List.forall₂_and_left _ _).mpr ⟨hmem, hinverses⟩).imp ?_
    rintro step undo ⟨⟨hstep, hsucceeded⟩, hinverse⟩
    exact Template.undoneBy_of_inverse hscoped hflat hstep hsucceeded hinverse

/-- A list of a number and a flag. -/
private def rate : Literal :=
  .list [.number (.float ⟨true, ⟨0x18000000000000, -52⟩⟩), .flag true]

/-- An execution of which, as it is answered below, the last command refers to one that failed. -/
private def gateway : Execution where
  id := "01ARZ3NDEKTSV4RRFFQ69G5FAV"
  author := ""
  source := ""
  locale := ""
  profile := ""
  fillers := .ofList [("rate", rate)]
  template :=
    ⟨[⟨some "net", .new "create" "vpc" .empty⟩,
      ⟨some "gate", .new "attach" "gate" (.ofList [("to", .reference "net"), ("cost", .hole "rate"),
        ("note", .literal (.text "# 1"))])⟩,
      ⟨none, .new "start" "vm" (.ofList [("on", .reference "gate")])⟩,
      ⟨some "disk", .new "create" "disk" .empty⟩,
      ⟨none, .new "start" "vm" (.ofList [("on", .reference "disk")])⟩]⟩

/-- What the commands of the execution come to. -/
private def gatewayAnswers : List (Except (List String) Json) :=
  [.ok (.string "vpc 1"), .ok (.array [.bool true]), .ok .null, .error ["quota", "full"]]

/-- The line of the gate shows what the runner was called with, and so does what detaches it. -/
theorem record_and_reversal_keep_calls_gateway :
    Template.ofText gateway.template.text = .ok gateway.template ∧
      (gateway.run answering false gatewayAnswers).calls.map Call.command =
        [.new "create" "vpc" .empty,
          .new "attach" "gate" (.ofList [("to", .literal (.text "vpc 1")),
            ("cost", .literal rate), ("note", .literal (.text "# 1"))]),
          .new "start" "vm" (.ofList [("on", .literal (.list [.flag true]))]),
          .new "create" "disk" .empty] ∧
      (∃ entries entry,
        Record.entriesIn? (gateway.ran answering false gatewayAnswers).encode = some entries ∧
        entries[1]? = some entry ∧
        entry.line = "attach gate to=\"vpc 1\" cost=[-1.5,true] note=\"# 1\"") ∧
      ∃ reversal, (gateway.ran answering false gatewayAnswers).reversed .standard = .ok reversal ∧
        reversal.text = "stop vm on=[true]\n" ++
          "detach gate to=\"vpc 1\" cost=[-1.5,true] note=\"# 1\"\ndelete vpc id=\"vpc 1\"\n" ∧
        List.Forall₂ (Step.UndoneBy .standard)
          ((gateway.run answering false gatewayAnswers).steps.take 3).reverse
          reversal.commands := by
  have hread : Template.ofText gateway.template.text = .ok gateway.template :=
    (Template.ofText_text (by decide) (by decide)).trans (congrArg Except.ok (by decide))
  obtain ⟨-, ⟨entries, hstored, -, -, -, hlines⟩, -, hundone⟩ :=
    record_and_reversal_keep_calls hread (by decide) answering false gatewayAnswers
  refine ⟨hread, by decide, ?_, _, rfl, by decide +kernel, hundone .standard _ rfl⟩
  obtain ⟨-, -, -, -, entry, hentry, hline⟩ := hlines
    ((gateway.run answering false gatewayAnswers).steps.take 1) _ _ _ rfl rfl
  exact ⟨entries, entry, hstored, hentry, hline.trans (by decide +kernel)⟩

end Execution

end Runbook
