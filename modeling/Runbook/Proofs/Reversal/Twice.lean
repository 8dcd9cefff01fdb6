import Runbook.Proofs.Record.Decoding
import Runbook.Proofs.Reversal.Inverses
import Runbook.Proofs.Run.EarlierOutcomes
import Runbook.Proofs.Run.Scoping

/-!
# Reversing twice

Where actions undo each other and keep their parameters, the reversal of the reversal of an
execution is the execution again, with every value as it was in the run. The order of the commands
is reversed twice. The values are frozen twice, but there is nothing left to be frozen the second
time: the reversal holds literals only, so that neither declarations nor fillers are needed.

## Main definitions

* `Policy.IsMutual`: the action on an entity is undone by one that it undoes in turn;
* `Policy.undo`: the command with the action that undoes it in place of its own;
* `Template.Recalls`: the literal that a value is replaced by in reversals;
* `Command.RestoresAs`: what a command is after its inverse was undone.

## Main results

* `Template.reversed_of_literals`: the reversal of commands that keep literals;
* `Execution.reversing_twice_restores`: the reversal of the reversal.
-/

namespace Runbook

/-- The action on the entity is undone by an action that it undoes in turn; both keep their
parameters. -/
def Policy.IsMutual (p : Policy) (action entity : String) : Prop :=
  ∃ undo, p.inverse? action entity = some ⟨undo, .parameters⟩ ∧
    p.inverse? undo entity = some ⟨action, .parameters⟩

/-- The command with the action that undoes it in place of its own, and without outcome. -/
def Policy.undo (p : Policy) (c : Command) : Command :=
  .new ((p.inverse? c.action c.entity).elim c.action Inverse.action) c.entity c.parameters

/-- The literal that a value of a template that ran is replaced by when it is reversed with some
fillers. -/
inductive Template.Recalls (t : Template) (fillers : Fillers) : Value → Literal → Prop
  /-- A literal stays as it is. -/
  | literal (l : Literal) : Recalls t fillers (.literal l) l
  /-- A reference is replaced by the result of the first declaration of its name. -/
  | reference {before after : List Statement} {s : Statement} {name : String} {l : Literal} :
      t.statements = before ++ s :: after → s.name = some name →
      (∀ earlier ∈ before, earlier.name ≠ some name) →
      s.command.outcome.result = some l.toJson → l.isFlat = true →
      Recalls t fillers (.reference name) l
  /-- A hole is replaced by its filler. -/
  | hole {name : String} {l : Literal} :
      fillers.get? name = some l → Recalls t fillers (.hole name) l

/-- What a command of a template that ran with some fillers is after it was undone, and what undid
it was undone as well. -/
structure Command.RestoresAs (t : Template) (fillers : Fillers) (c restored : Command) : Prop where
  /-- The action is the same again. -/
  action : restored.action = c.action
  /-- The entity is kept. -/
  entity : restored.entity = c.entity
  /-- The command has not run. -/
  outcome : restored.outcome = .pending
  /-- The keys are kept in order. -/
  keys : restored.parameters.keys = c.parameters.keys
  /-- Each value is the literal that it is replaced by. -/
  values : List.Forall₂ (fun v w => ∃ l, w = .literal l ∧ t.Recalls fillers v l)
    c.parameters.values restored.parameters.values

namespace Template

/-- What a value is frozen to is the literal that it is replaced by, if holes have flat fillers. -/
theorem recalls_of_frozen {t : Template} {fillers : Fillers} {v w : Value}
    (hhole : ∀ name, v = .hole name → ∃ l, fillers.get? name = some l ∧ l.isFlat = true)
    (h : t.frozen (some fillers) v = .ok w) : ∃ l, w = .literal l ∧ t.Recalls fillers v l := by
  cases v with
  | literal l =>
    cases h
    exact ⟨l, rfl, .literal l⟩
  | reference name =>
    rw [frozen] at h
    split at h
    next l hl =>
      cases h
      refine ⟨l, rfl, ?_⟩
      obtain ⟨c, hc, hresult⟩ := Option.bind_eq_some_iff.mp hl
      obtain ⟨s, hs, rfl⟩ := Option.map_eq_some_iff.mp hc
      obtain ⟨hname, before, after, hsplit, hbefore⟩ := List.find?_eq_some_iff_append.mp hs
      obtain ⟨json, hjson, hliteral⟩ := Option.bind_eq_some_iff.mp hresult
      obtain ⟨hflat, rfl⟩ := Literal.ofJson?_eq_some_iff.mp hliteral
      exact .reference hsplit (by simpa using hname) (by simpa using hbefore) hjson hflat
    next => cases h
  | hole name =>
    obtain ⟨l, hl, hflat⟩ := hhole name rfl
    have hfrozen : t.frozen (some fillers) (.hole name) = .ok (.literal l) :=
      congrArg Except.ok (Fillers.fill_of_get? hl hflat)
    rw [hfrozen] at h
    cases h
    exact ⟨l, rfl, .hole hl⟩

/-- Where names are declared once and the declarations succeeded, a reference is replaced by what
was captured for its name. -/
theorem Recalls.captured? {t : Template} {fillers : Fillers}
    (hnodup : (Statement.names t.statements).Nodup)
    (hsucceeded : ∀ c ∈ t.commands, c.outcome.succeeded = true) {name : String} {l : Literal}
    (h : t.Recalls fillers (.reference name) l) : t.captured? name = some l := by
  cases h with
  | @reference before after s _ _ hsplit hname _ hresult hflat =>
    have hs : s ∈ t.statements := by simp [hsplit]
    rw [(declaration?_of_mem hnodup hs hname).2, Outcome.captured?_eq_some_iff]
    refine ⟨?_, hflat⟩
    have herror : s.command.outcome.error = none := by
      have := hsucceeded s.command (List.mem_map_of_mem hs)
      simp only [Outcome.succeeded, Outcome.failed, Bool.and_eq_true] at this
      simpa using this.2
    calc s.command.outcome
        = ⟨s.command.outcome.result, s.command.outcome.error⟩ := rfl
      _ = .success l.toJson := by rw [hresult, herror]; rfl

end Template

/-! ## Mutual inverses -/

/-- What undoes a command does not depend on its outcome. -/
theorem Policy.undo_withOutcome (p : Policy) (c : Command) (outcome : Outcome) :
    p.undo (c.withOutcome outcome) = p.undo c := rfl

namespace Template

/-- A template all of whose commands succeeded is reversed to their inverses in reverse order. -/
theorem reversed_eq_ok_iff_of_succeeded {t : Template} {policy : Policy} {fillers : Option Fillers}
    (hsucceeded : ∀ c ∈ t.commands, c.outcome.succeeded = true) {reversal : Template} :
    t.reversed policy fillers = .ok reversal ↔
      t.isReversible policy = true ∧ ∃ inverses,
        List.Forall₂ (fun c inverse => t.inverse policy fillers c = .ok inverse)
          t.commands.reverse inverses ∧ reversal = ofCommands inverses := by
  have hfilter : (t.commands.reverse.filter fun c => c.outcome.succeeded) = t.commands.reverse :=
    List.filter_eq_self.mpr fun c hc => hsucceeded c (List.mem_reverse.mp hc)
  simp only [reversed_eq_ok_iff, hfilter, inverses_eq_ok_iff]

/-- Commands that succeeded with literals for values, and whose inverses keep parameters, are
reversed whatever the fillers are. -/
theorem reversed_of_literals {t : Template} {policy : Policy} (fillers : Option Fillers)
    (hsucceeded : ∀ c ∈ t.commands, c.outcome.succeeded = true)
    (hinverse : ∀ c ∈ t.commands, ∃ undo,
      policy.inverse? c.action c.entity = some ⟨undo, .parameters⟩)
    (hliteral : ∀ c ∈ t.commands, ∀ v ∈ c.parameters.values, ∃ l, v = .literal l) :
    t.reversed policy fillers = .ok (ofCommands (t.commands.reverse.map policy.undo)) := by
  refine (reversed_eq_ok_iff_of_succeeded hsucceeded).mpr ⟨?_, _, ?_, rfl⟩
  · exact isReversible_iff.mpr fun c hc => (hinverse c hc).imp' _ fun _ => id
  · rw [List.forall₂_map_right_iff, List.forall₂_same]
    intro c hc
    rw [List.mem_reverse] at hc
    obtain ⟨undo, hundo⟩ := hinverse c hc
    refine inverse_eq_ok_iff.mpr ⟨_, hundo, c.parameters, ?_, ?_⟩
    · have hfrozen : ∀ v ∈ c.parameters.values, t.frozen fillers v = .ok (id v) := by
        intro v hv
        obtain ⟨l, rfl⟩ := hliteral c hc v hv
        rfl
      exact (OrderedMap.traverse_eq_ok_of_forall hfrozen).trans
        (congrArg Except.ok c.parameters.map_id)
    · rw [Policy.undo, hundo]
      rfl

/-- The inverse of a command whose action is undone mutually is undone by the command again, with
literals for values. -/
theorem restoresAs_of_inverse {t : Template} {policy : Policy} {fillers : Fillers}
    {c inverse : Command} (hmutual : policy.IsMutual c.action c.entity)
    (hholes : ∀ name, .hole name ∈ c.parameters.values →
      ∃ l, fillers.get? name = some l ∧ l.isFlat = true)
    (h : t.inverse policy (some fillers) c = .ok inverse) :
    c.RestoresAs t fillers (policy.undo inverse) ∧
      policy.inverse? inverse.action inverse.entity = some ⟨c.action, .parameters⟩ := by
  obtain ⟨undo, hundo, hback⟩ := hmutual
  obtain ⟨_, hinverse, parameters, hparameters, rfl⟩ := inverse_eq_ok_iff.mp h
  cases hundo.symm.trans hinverse
  have hvalues : List.Forall₂
      (fun v w => v ∈ c.parameters.values ∧ t.frozen (some fillers) v = .ok w)
      c.parameters.values parameters.values :=
    (List.forall₂_and_left _ _).mpr ⟨fun _ => id, OrderedMap.forall₂_values_of_traverse hparameters⟩
  have haction : (policy.undo (.new undo c.entity parameters)).action = c.action :=
    congrArg (·.elim undo Inverse.action) hback
  refine ⟨⟨haction, rfl, rfl, OrderedMap.keys_of_traverse hparameters, ?_⟩, hback⟩
  refine hvalues.imp ?_
  rintro v w ⟨hv, hfrozen⟩
  exact recalls_of_frozen (fun name hname => hholes name (hname ▸ hv)) hfrozen

end Template

/-! ## Reversing an execution twice -/

namespace Execution

/-- The reversal of the reversal of an execution is the execution again. If all commands succeeded,
their actions are undone mutually and holes have flat fillers, then there are commands that every
run of the reversal in which all commands succeed is reversed to, with whatever results. They are
the commands of the execution in order and have not run, with its literals for literals, results
for references and fillers for holes. If names are declared once, these results are the captured
ones. -/
theorem reversing_twice_restores {e : Execution} {policy : Policy}
    (hcommands : ∀ c ∈ e.template.commands,
      c.outcome.succeeded = true ∧ policy.IsMutual c.action c.entity)
    (hholes : ∀ name, .hole name ∈ e.template.values →
      ∃ l, e.fillers.get? name = some l ∧ l.isFlat = true)
    {reversal : Template} (h : e.reversed policy = .ok reversal) :
    ∃ restored : List Command,
      (∀ ran : Template, ran.cleared = reversal →
        (∀ c ∈ ran.commands, c.outcome.succeeded = true) →
          ran.reversed policy none = .ok (.ofCommands restored)) ∧
      List.Forall₂ (fun c r => c.RestoresAs e.template e.fillers r)
        e.template.commands restored ∧
      ((Statement.names e.template.statements).Nodup → ∀ name l,
        e.template.Recalls e.fillers (.reference name) l → e.template.captured? name = some l) := by
  have hsucceeded : ∀ c ∈ e.template.commands, c.outcome.succeeded = true :=
    fun c hc => (hcommands c hc).1
  obtain ⟨-, inverses, hinverses, rfl⟩ :=
    (Template.reversed_eq_ok_iff_of_succeeded hsucceeded).mp h
  -- One by one, what undoes the commands is undone by the commands again.
  have hrestores : List.Forall₂ (fun c inverse =>
      c.RestoresAs e.template e.fillers (policy.undo inverse) ∧
        policy.inverse? inverse.action inverse.entity = some ⟨c.action, .parameters⟩)
      e.template.commands.reverse inverses := by
    refine ((List.forall₂_and_left _ _).mpr ⟨fun c => List.mem_reverse.mp, hinverses⟩).imp ?_
    rintro c inverse ⟨hc, hinverse⟩
    refine Template.restoresAs_of_inverse (hcommands c hc).2 (fun name hname => ?_) hinverse
    exact hholes name (List.mem_flatMap.mpr ⟨c, hc, hname⟩)
  refine ⟨(inverses.map policy.undo).reverse, fun ran hran hall => ?_, ?_,
    fun hnodup name l => Template.Recalls.captured? hnodup hsucceeded⟩
  · -- The commands that ran are the inverses but for outcomes, which do not matter.
    have hsame : inverses = ran.commands.map (·.withOutcome .pending) := by
      rw [← Template.commands_ofCommands inverses, ← hran]
      simp [Template.commands, Template.cleared, Statement.withOutcome]
    have hinverse {c : Command} (hc : c ∈ ran.commands) :
        ∃ original ∈ e.template.commands.reverse, original.RestoresAs e.template e.fillers
          (policy.undo (c.withOutcome .pending)) ∧
            policy.inverse? c.action c.entity = some ⟨original.action, .parameters⟩ :=
      exists_of_forall₂ hrestores (hsame ▸ List.mem_map_of_mem hc)
    have hliteral : ∀ c ∈ ran.commands, ∀ v ∈ c.parameters.values, ∃ l, v = .literal l := by
      intro c hc v hv
      obtain ⟨original, -, hrestored, -⟩ := hinverse hc
      obtain ⟨_, -, l, hl, -⟩ := exists_of_forall₂ hrestored.values hv
      exact ⟨l, hl⟩
    have hundone : ran.commands.reverse.map policy.undo = (inverses.map policy.undo).reverse := by
      simp [hsame, Function.comp_def, Policy.undo_withOutcome]
    rw [Template.reversed_of_literals none hall
      (fun c hc => (hinverse hc).imp' _ fun _ h => h.2.2) hliteral, hundone]
  · rw [← List.forall₂_reverse_iff, List.reverse_reverse, List.forall₂_map_right_iff]
    exact hrestores.imp fun _ _ => And.left

/-- Starting and stopping as usual, but volumes are released where other things are detached. -/
private def releasing : Policy :=
  Policy.standard
    |>.withSpecial "attach" "volume" ⟨"release", .parameters⟩
    |>.withSpecial "release" "volume" ⟨"attach", .parameters⟩

/-- A machine that was started and a volume that was attached to it. -/
private def withVolume : Execution where
  id := "01ARZ3NDEKTSV4RRFFQ69G5FAV"
  author := ""
  source := ""
  locale := ""
  profile := ""
  fillers := .ofList [("where", .text "sdb")]
  template :=
    ⟨[⟨some "vm", (Command.new "start" "vm" (.ofList [("id", .literal (.text "i-1"))])).withOutcome
        (.success (.string "vm 1"))⟩,
      ⟨none, (Command.new "attach" "volume" (.ofList [("to", .reference "vm"),
        ("as", .hole "where")])).withOutcome (.success (.array []))⟩]⟩

/-- What undoes the machine and the volume. -/
private def withoutVolume : Template :=
  .ofCommands [.new "release" "volume" (.ofList [("to", .literal (.text "vm 1")),
      ("as", .literal (.text "sdb"))]),
    .new "stop" "vm" (.ofList [("id", .literal (.text "i-1"))])]

/-- The volume is released from what the machine came to, and attached to it again. What stopping
the machine comes to in a simulation of the reversal does not matter. -/
theorem reversing_twice_restores_volume :
    withVolume.reversed releasing = .ok withoutVolume ∧
      ∃ restored : List Command,
        (withoutVolume.run (Simulation.runner .empty) .empty false 0).template.reversed releasing
            none = .ok (.ofCommands restored) ∧
        List.Forall₂ (fun c r => c.RestoresAs withVolume.template withVolume.fillers r)
          withVolume.template.commands restored ∧
        restored = [.new "start" "vm" (.ofList [("id", .literal (.text "i-1"))]),
          .new "attach" "volume" (.ofList [("to", .literal (.text "vm 1")),
            ("as", .literal (.text "sdb"))])] := by
  have hmutual : ∀ c ∈ withVolume.template.commands,
      c.outcome.succeeded = true ∧ releasing.IsMutual c.action c.entity := by
    simp only [Template.commands, withVolume, List.map_cons, List.map_nil, List.forall_mem_cons]
    exact ⟨⟨rfl, "stop", rfl, rfl⟩, ⟨rfl, "release", rfl, rfl⟩, by simp⟩
  have hholes : ∀ name, .hole name ∈ withVolume.template.values →
      ∃ l, withVolume.fillers.get? name = some l ∧ l.isFlat = true := by
    intro name hname
    have hvalues : withVolume.template.values =
        [.literal (.text "i-1"), .reference "vm", .hole "where"] := rfl
    have hwhere : name = "where" := by simpa [hvalues] using hname
    exact ⟨.text "sdb", hwhere ▸ rfl, rfl⟩
  have hreversed : withVolume.reversed releasing = .ok withoutVolume := rfl
  obtain ⟨restored, hrestored, hall, -⟩ := reversing_twice_restores hmutual hholes hreversed
  have htwice := hrestored (withoutVolume.run (Simulation.runner .empty) .empty false 0).template
    (Template.cleared_run ..) (by decide)
  refine ⟨hreversed, restored, htwice, hall, ?_⟩
  have hsame := Except.ok.inj (htwice.symm.trans rfl)
  rw [← Template.commands_ofCommands restored, hsame]
  rfl

end Execution

end Runbook
