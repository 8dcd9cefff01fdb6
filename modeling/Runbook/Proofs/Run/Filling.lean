import Runbook.Proofs.Reversal.Reload

/-!
# Filling holes

A hole that has a filler may as well be written as its filler. Runs, records and reversals each
treat holes in a way of their own, and none of them tells a hole from the literal in its place, if
no filler is a list of lists.

## Main definitions

* `Template.filled`, `Execution.filled`: a template and an execution with fillers written in place
  of the holes that have one.

## Main results

* `Run.ofStatements_filled`: a run of filled statements is the run of the statements, filled;
* `Record.ofExecution_filled`, `Execution.reversed_filled`: records and reversals stay the same;
* `Execution.filling_is_writing`: so a filled execution is run, recorded and reversed alike.
-/

namespace Runbook

variable {σ : Type}

/-! ## Filled templates -/

/-- The value with the filler in place of a hole that has one. -/
def Value.filled (fillers : Fillers) : Value → Value
  | .literal l => .literal l
  | .reference name => .reference name
  | .hole name =>
    match fillers.get? name with
    | some l => .literal l
    | none => .hole name

/-- The command with fillers in place of the holes that have one. -/
def Command.filled (fillers : Fillers) (c : Command) : Command :=
  { c with parameters := c.parameters.map (Value.filled fillers) }

/-- The statement with fillers in place of the holes that have one. -/
def Statement.filled (fillers : Fillers) (s : Statement) : Statement :=
  { s with command := s.command.filled fillers }

namespace Template

/-- The template with fillers in place of the holes that have one. -/
def filled (fillers : Fillers) (t : Template) : Template :=
  ⟨t.statements.map (Statement.filled fillers)⟩

@[simp]
theorem commands_filled (fillers : Fillers) (t : Template) :
    (t.filled fillers).commands = t.commands.map (Command.filled fillers) := by
  rw [commands, commands, filled, List.map_map, List.map_map]
  rfl

end Template

/-- The execution with its fillers in place of the holes that have one. -/
def Execution.filled (e : Execution) : Execution :=
  e.withTemplate (e.template.filled e.fillers)

/-! ## Runs -/

/-- A filled value is resolved as the value is. -/
theorem Scope.resolve_filled (scope : Scope) (v : Value) :
    scope.resolve (v.filled scope.fillers) = scope.resolve v := by
  cases v with
  | literal l => rfl
  | reference name => rfl
  | hole name =>
    rw [Value.filled]
    cases hfiller : scope.fillers.get? name with
    | some l => simp only [resolve, hfiller]
    | none => rfl

/-- A filled command is attempted as the command is. -/
theorem Command.attempt_filled (runner : Runner σ) (scope : Scope) (state : σ) (c : Command) :
    (c.filled scope.fillers).attempt runner scope state = c.attempt runner scope state := by
  have harguments : scope.arguments (c.filled scope.fillers) = scope.arguments c :=
    OrderedMap.traverse_map fun v _ => scope.resolve_filled v
  rw [attempt, attempt, harguments]
  rfl

/-- The step with fillers in place of the holes of its statement. -/
def Step.filled (fillers : Fillers) (step : Step) : Step :=
  { step with statement := step.statement.filled fillers }

namespace Run

/-- The run with fillers in place of the holes of its statements. -/
def filled (fillers : Fillers) (r : Run σ) : Run σ :=
  { r with
    steps := r.steps.map (Step.filled fillers)
    unreached := r.unreached.map (Statement.filled fillers) }

@[simp]
theorem calls_filled (fillers : Fillers) (r : Run σ) : (r.filled fillers).calls = r.calls :=
  List.filterMap_map

@[simp]
theorem template_filled (fillers : Fillers) (r : Run σ) :
    (r.filled fillers).template = r.template.filled fillers := by
  rw [template, template, Template.filled, statements, statements, List.map_append, List.map_map,
    filled, List.map_map]
  rfl

/-- A run of filled statements is the run of the statements, filled. -/
theorem ofStatements_filled (runner : Runner σ) (stopOnError : Bool) (scope : Scope) (state : σ)
    (statements : List Statement) :
    ofStatements runner stopOnError scope state (statements.map (Statement.filled scope.fillers)) =
      (ofStatements runner stopOnError scope state statements).filled scope.fillers := by
  -- The scope that a run goes on with has the same fillers, and the outcomes bound in it are the
  -- same as both runs attempt the same command.
  induction statements generalizing scope state with
  | nil => rfl
  | cons s rest ih =>
    have hattempt : (s.filled scope.fillers).command.attempt runner scope state =
        s.command.attempt runner scope state := s.command.attempt_filled runner scope state
    rw [List.map_cons, ofStatements, ofStatements, hattempt]
    split
    next => rfl
    next =>
      have hrest := ih (scope.afterStatement s.name (s.command.attempt runner scope state).outcome)
        (s.command.attempt runner scope state).state
      rw [Scope.fillers_afterStatement] at hrest
      exact congrArg (cons _) hrest

end Run

/-- A run of a filled template is the run of the template, filled. -/
theorem Template.run_filled (t : Template) (runner : Runner σ) (fillers : Fillers)
    (stopOnError : Bool) (state : σ) :
    (t.filled fillers).run runner fillers stopOnError state =
      (t.run runner fillers stopOnError state).filled fillers :=
  Run.ofStatements_filled runner stopOnError (.ofFillers fillers) state t.statements

/-! ## Records and reversals -/

namespace Template

variable (t : Template) (fillers : Fillers) (name : String)

@[simp]
theorem captured?_filled : (t.filled fillers).captured? name = t.captured? name := by
  rw [captured?, captured?, filled, ← List.map_reverse, List.findSome?_map]
  rfl

@[simp]
theorem declaration?_filled : (t.filled fillers).declaration? name =
    (t.declaration? name).map (Command.filled fillers) := by
  rw [declaration?, declaration?, filled, List.find?_map, Option.map_map, Option.map_map]
  rfl

end Template

section Flat

variable {fillers : Fillers} (hflat : ∀ filler ∈ fillers.values, filler.isFlat = true)

include hflat

namespace Template

/-- A filled value is recorded as the value is. -/
theorem executed_filled (t : Template) (v : Value) :
    (t.filled fillers).executed fillers (v.filled fillers) = t.executed fillers v := by
  cases v with
  | literal l => rfl
  | reference name => rw [Value.filled, executed, executed, captured?_filled]
  | hole name =>
    rw [Value.filled]
    cases hfiller : fillers.get? name with
    | none => rfl
    | some l =>
      exact (Fillers.fill_of_get? hfiller (hflat l (OrderedMap.mem_values_of_get? hfiller))).symm

/-- A filled value is frozen as the value is. -/
theorem frozen_filled (t : Template) (v : Value) :
    (t.filled fillers).frozen (some fillers) (v.filled fillers) = t.frozen (some fillers) v := by
  cases v with
  | literal l => rfl
  | reference name =>
    rw [Value.filled, frozen, frozen, declaration?_filled]
    cases t.declaration? name <;> rfl
  | hole name =>
    rw [Value.filled]
    cases hfiller : fillers.get? name with
    | none => rfl
    | some l =>
      have hl := hflat l (OrderedMap.mem_values_of_get? hfiller)
      exact congrArg Except.ok (Fillers.fill_of_get? hfiller hl).symm

/-- A filled command is undone as the command is. -/
theorem inverse_filled (t : Template) (policy : Policy) (c : Command) :
    (t.filled fillers).inverse policy (some fillers) (c.filled fillers) =
      t.inverse policy (some fillers) c := by
  have hparameters (carry : Carry) :
      (t.filled fillers).inverseParameters (some fillers) (c.filled fillers) carry =
        t.inverseParameters (some fillers) c carry := by
    cases carry with
    | result => rfl
    | parameters => exact OrderedMap.traverse_map fun v _ => frozen_filled hflat t v
  rw [inverse, inverse]
  simp only [hparameters]
  rfl

end Template

/-- The entry of a filled command is that of the command. -/
theorem Entry.ofCommand_filled (t : Template) (c : Command) :
    ofCommand (t.filled fillers) fillers (c.filled fillers) = ofCommand t fillers c := by
  have hparameters : (c.filled fillers).parameters.map ((t.filled fillers).executed fillers) =
      c.parameters.map (t.executed fillers) := by
    refine OrderedMap.ext ?_
    rw [Command.filled, OrderedMap.entries_map, OrderedMap.entries_map, OrderedMap.entries_map,
      List.map_map]
    exact List.map_congr_left fun entry _ =>
      congrArg (Prod.mk entry.1) (t.executed_filled hflat entry.2)
  rw [ofCommand, hparameters]
  rfl

end Flat

section Execution

variable {e : Execution} (hflat : ∀ filler ∈ e.fillers.values, filler.isFlat = true)

include hflat

/-- The record of a filled execution is that of the execution. -/
theorem Record.ofExecution_filled : ofExecution e.filled = ofExecution e := by
  have hentries : e.filled.template.commands.map
      (Entry.ofCommand e.filled.template e.filled.fillers) =
        e.template.commands.map (Entry.ofCommand e.template e.fillers) := by
    rw [Execution.filled, Execution.withTemplate, Template.commands_filled, List.map_map]
    exact List.map_congr_left fun c _ => Entry.ofCommand_filled hflat e.template c
  rw [ofExecution, hentries]
  rfl

/-- A filled execution is reversed as the execution is. -/
theorem Execution.reversed_filled (policy : Policy) :
    e.filled.reversed policy = e.reversed policy := by
  refine Template.reversed_congr (e.template.commands_filled e.fillers)
    (fun _ => ⟨rfl, rfl, rfl⟩) fun c _ _ => ?_
  exact e.template.inverse_filled hflat policy c

end Execution

namespace Execution

/-- Filling a hole is the same as writing its value. For every execution whose fillers are flat, a
run of the template with the fillers written in place of the holes that have one makes the same
calls and ends in the same state, and gives every command the same outcome. The filled execution
has the same record, and under every policy the same reversal or the same error, before the run and
after it. -/
theorem filling_is_writing {e : Execution}
    (hflat : ∀ filler ∈ e.fillers.values, filler.isFlat = true) (runner : Runner σ)
    (stopOnError : Bool) (state : σ) :
    let r := e.run runner stopOnError state
    let r' := e.filled.run runner stopOnError state
    r'.calls = r.calls ∧ r'.state = r.state ∧
      r'.template.commands.map Command.outcome = r.template.commands.map Command.outcome ∧
      r'.template = r.template.filled e.fillers ∧
      Record.ofExecution e.filled = Record.ofExecution e ∧
      Record.ofExecution (e.filled.ran runner stopOnError state) =
        Record.ofExecution (e.ran runner stopOnError state) ∧
      ∀ policy, e.filled.reversed policy = e.reversed policy ∧
        (e.filled.ran runner stopOnError state).reversed policy =
          (e.ran runner stopOnError state).reversed policy := by
  intro r r'
  have hrun : r' = r.filled e.fillers := e.template.run_filled runner e.fillers stopOnError state
  have htemplate : r'.template = r.template.filled e.fillers := by
    rw [hrun, Run.template_filled]
  have hran : e.filled.ran runner stopOnError state =
      (e.ran runner stopOnError state).filled :=
    congrArg e.withTemplate htemplate
  refine ⟨by rw [hrun, Run.calls_filled], by rw [hrun]; rfl, ?_, htemplate,
    Record.ofExecution_filled hflat, ?_, fun policy => ⟨reversed_filled hflat policy, ?_⟩⟩
  · rw [htemplate, Template.commands_filled, List.map_map]
    rfl
  · rw [hran]
    exact Record.ofExecution_filled (e := e.ran runner stopOnError state) hflat
  · rw [hran]
    exact reversed_filled (e := e.ran runner stopOnError state) hflat policy

/-- An execution with holes in a declaration and in the commands that refer to it, one of which has
no filler. -/
private def volume : Execution where
  id := "01ARZ3NDEKTSV4RRFFQ69G5FAV"
  author := ""
  source := ""
  locale := ""
  profile := ""
  fillers := .ofList [("zones", .list [.text "eu a", .flag true]), ("host", .text "h-1")]
  template :=
    ⟨[⟨some "disk", .new "create" "volume" (.ofList [("zones", .hole "zones")])⟩,
      ⟨none, .new "attach" "volume" (.ofList [("id", .reference "disk"), ("to", .hole "host")])⟩,
      ⟨none, .new "start" "vm" (.ofList [("on", .hole "host"), ("name", .hole "name")])⟩]⟩

/-- Written with its fillers the execution makes the same two calls, and is reversed alike after
it ran. -/
theorem filling_is_writing_volume :
    (∀ filler ∈ volume.fillers.values, filler.isFlat = true) ∧
      volume.filled.template.text = "disk = create volume zones=[\"eu a\",true]\n" ++
        "attach volume id=$disk to=h-1\nstart vm on=h-1 name=\x7bname\x7d\n" ∧
      (volume.filled.run answering false [.ok (.string "vol-1")]).calls =
        [⟨"create", "volume", .ofList [("zones", .list [.text "eu a", .flag true])]⟩,
          ⟨"attach", "volume", .ofList [("id", .text "vol-1"), ("to", .text "h-1")]⟩] ∧
      Record.ofExecution (volume.filled.ran answering false [.ok (.string "vol-1")]) =
        Record.ofExecution (volume.ran answering false [.ok (.string "vol-1")]) ∧
      ∃ reversal, (volume.filled.ran answering false [.ok (.string "vol-1")]).reversed .standard =
          .ok reversal ∧
        reversal.text = "detach volume id=vol-1 to=h-1\ndelete volume id=vol-1\n" := by
  have hflat : ∀ filler ∈ volume.fillers.values, filler.isFlat = true := by decide
  obtain ⟨hcalls, -, -, -, -, hrecord, hreversed⟩ :=
    filling_is_writing hflat answering false [.ok (.string "vol-1")]
  refine ⟨hflat, by decide, hcalls.trans rfl, hrecord, _, ((hreversed .standard).2).trans rfl, ?_⟩
  decide

end Execution

end Runbook
