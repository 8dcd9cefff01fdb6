import Runbook.Proofs.Record.Acceptance
import Runbook.Proofs.Statement.RoundTrip
import Runbook.Report

/-!
# Reloading an execution

What an execution is after it was stored and loaded. The record keeps the text of each command
with the values that its parameters had in the run, so declarations become bare commands and most
references and holes become literals; of the results it keeps texts that are not empty.

## Main definitions

* `Outcome.stored`: what a record keeps of an outcome;
* `Command.reloaded`, `Execution.reloaded`: a command and an execution after reloading;
* `Template.Freezes`: the value that a parameter has after reloading, without the functions that
  compute it.

## Main results

* `Execution.decode_recordText`: the text of the record of an execution is read as the execution
  after reloading;
* `Execution.reload_freezes_and_flattens`: what that execution is, where numbers read back.
-/

namespace Runbook

/-- What a record keeps of an outcome: the error, and of the results the texts that are not empty;
every other result of a command that succeeded becomes null. -/
def Outcome.stored (o : Outcome) : Outcome where
  result :=
    match o.resultText? with
    | some text => some (.string text)
    | none => if o.succeeded then some .null else none
  error := o.error

/-- A command of a template that ran with some fillers, after reloading. -/
def Command.reloaded (t : Template) (fillers : Fillers) (c : Command) : Command where
  action := c.action
  entity := c.entity
  parameters := c.parameters.map fun v => (t.executed fillers v).reread
  outcome := c.outcome.stored

/-- An execution after reloading. -/
def Execution.reloaded (e : Execution) : Execution where
  id := e.id
  author := e.author
  source := e.source
  locale := e.locale
  profile := e.profile
  fillers := e.fillers.map Literal.reread
  template := .ofCommands (e.template.commands.map (Command.reloaded e.template e.fillers))

theorem Execution.commands_reloaded (e : Execution) : e.reloaded.template.commands =
    e.template.commands.map (Command.reloaded e.template e.fillers) :=
  Template.commands_ofCommands _

/-! ## Frozen values -/

namespace Outcome

/-- There is no textual result if the result is empty or no text. -/
theorem resultText?_eq_none {o : Outcome}
    (h : ∀ text, o.result = some (.string text) → text = "") : o.resultText? = none := by
  rw [resultText?]
  split
  next text hresult => rw [h text hresult]; rfl
  next => rfl

/-- What is kept of an outcome without a textual result. -/
private theorem outcome_of_resultText?_eq_none {o : Outcome} (h : o.resultText? = none) :
    (if !o.hasRun || Outcome.hasRun ⟨none, o.error⟩ then ⟨none, o.error⟩ else success .null) =
      o.stored := by
  rw [stored, h]
  obtain ⟨result, error⟩ := o
  cases result <;> cases error <;> rfl

/-- The outcome of an entry is what the record keeps of the outcome. -/
theorem outcome_ofCommand (t : Template) (fillers : Fillers) (c : Command) :
    (Entry.ofCommand t fillers c).outcome = c.outcome.stored := by
  rw [Entry.outcome, Entry.ofCommand]
  dsimp only
  have herror : c.outcome.error.toList.head? = c.outcome.error := Option.head?_toList
  -- Of a result that is no text the record keeps only that there was one.
  cases htext : c.outcome.resultText? with
  | none =>
    rw [herror]
    exact outcome_of_resultText?_eq_none htext
  | some text =>
    rw [herror, stored, htext]
    simp [hasRun]

/-- A result that is captured is a flat literal. -/
theorem isFlat_of_captured? {o : Outcome} {l : Literal} (h : o.captured? = some l) :
    l.isFlat = true := by
  rw [captured?] at h
  split at h
  · cases h
  · obtain ⟨json, -, hjson⟩ := Option.bind_eq_some_iff.mp h
    exact Literal.isFlat_of_ofJson? hjson

end Outcome

namespace Template

/-- A captured result is one of a declaration of the name. -/
theorem exists_of_captured? {t : Template} {name : String} {l : Literal}
    (h : t.captured? name = some l) :
    ∃ s ∈ t.statements, s.name = some name ∧ s.command.outcome.captured? = some l := by
  obtain ⟨s, hs, hfound⟩ := List.exists_of_findSome?_eq_some h
  split at hfound
  next hname => exact ⟨s, List.mem_reverse.mp hs, hname, hfound⟩
  next => cases hfound

/-- What a well-formed value was in the run is well formed. -/
theorem isWellFormed_executed {t : Template} {fillers : Fillers} {v : Value}
    (h : v.IsWellFormed) : (t.executed fillers v).IsWellFormed := by
  cases v with
  | literal l => exact h
  | reference name =>
    rw [executed]
    split
    next l hcaptured =>
      -- What is captured is the literal of a result, and those are flat.
      obtain ⟨s, -, -, hs⟩ := exists_of_captured? hcaptured
      exact Outcome.isFlat_of_captured? hs
    next => exact h
  | hole name =>
    rw [executed, Fillers.fill]
    split
    next filler hfiller =>
      split
      next hflat => exact hflat
      next => exact h
    next => exact h

end Template

/-! ## Reading records -/

/-- The text of the entry of a well-formed command is read as that command after reloading. -/
theorem Entry.toCommand_ofCommand (t : Template) (fillers : Fillers) {c : Command}
    (h : c.IsWellFormed) :
    (Entry.ofCommand t fillers c).toCommand = .ok (c.reloaded t fillers) := by
  -- The line of the entry is the text of the command with its values in the run.
  have hwell :
      { c with parameters := c.parameters.map (t.executed fillers) : Command }.IsWellFormed :=
    { action := h.action
      entity := h.entity
      keys := by rw [OrderedMap.keys_map]; exact h.keys
      values := by
        rw [OrderedMap.values_map]
        intro value hvalue
        obtain ⟨v, hv, rfl⟩ := List.mem_map.mp hvalue
        exact Template.isWellFormed_executed (h.values v hv) }
  rw [Entry.toCommand, Outcome.outcome_ofCommand, Entry.ofCommand,
    Statement.ofText_text_command hwell]
  have hparameters : (c.parameters.map (t.executed fillers)).map Value.reread =
      c.parameters.map fun v => (t.executed fillers v).reread :=
    OrderedMap.ext (by simp)
  simp only [Except.map, Command.reread, hparameters]
  rfl

namespace Record

/-- Entries whose commands can be read are read in order. -/
theorem readEntries_map (t : Template) (fillers : Fillers) {commands : List Command}
    (h : ∀ c ∈ commands, c.IsWellFormed) (position : Nat) :
    readEntries position (commands.map (Entry.ofCommand t fillers)) =
      .ok (commands.map (Command.reloaded t fillers)) := by
  rw [readEntries_eq_ok_iff, List.forall₂_map_left_iff, List.forall₂_map_right_iff,
    List.forall₂_same]
  exact fun c hc => Entry.toCommand_ofCommand t fillers (h c hc)

end Record

namespace Execution

/-- What an execution needs to be read from its record: a valid identity, commands that can be
written, and fillers that can be read. -/
structure IsReloadable (e : Execution) : Prop where
  /-- The identity is valid. -/
  identity : ∃ identity, Identity.parse e.id = .ok identity
  /-- The commands can be written. -/
  commands : ∀ c ∈ e.template.commands, c.IsWellFormed
  /-- The fillers can be read. -/
  fillers : Record.FillersAreReadable e.fillers

/-- The text of the record of an execution, with spaces behind it, is read as the execution after
reloading. -/
theorem decode_recordText {layout : Json.Layout} (hlayout : layout.IsSpaced) {e : Execution}
    (h : e.IsReloadable) {suffix : String}
    (hsuffix : ∀ c ∈ suffix.toList, Json.isSpace (some c) = true) :
    decode (e.recordText layout ++ suffix).toUTF8 = .ok e.reloaded := by
  obtain ⟨identity, hidentity⟩ := h.identity
  have hfillers : Record.FillersAreReadable (Record.ofExecution e).fillers := h.fillers
  rw [decode, recordText, Record.ofBytes?_text hlayout hfillers hsuffix]
  have hid : Identity.parse (Record.ofExecution e).reread.id = .ok identity := hidentity
  have hentries : Record.readEntries 1 (Record.ofExecution e).reread.entries = .ok _ :=
    Record.readEntries_map e.template e.fillers h.commands 1
  simp only [Record.toExecution, hid, hentries]
  rfl

/-- The bytes that an execution is stored as are read as the execution after reloading. -/
theorem decode_encode {e : Execution} (h : e.IsReloadable) :
    decode e.encode = .ok e.reloaded := by
  have htext := decode_recordText Json.Layout.isSpaced_compact h isSpace_of_mem_empty
  rwa [String.append_empty] at htext

/-- So is the record that reports show. -/
theorem decode_record {e : Execution} (h : e.IsReloadable) :
    decode e.record.text.toUTF8 = .ok e.reloaded :=
  decode_recordText Json.Layout.isSpaced_indented h (List.forall_mem_singleton.mpr rfl)

end Execution

/-! ## The normal form -/

/-- The value that a parameter of a template has after the template ran and was reloaded. -/
inductive Template.Freezes (t : Template) (fillers : Fillers) : Value → Value → Prop
  /-- A literal stays as it is. -/
  | literal (l : Literal) : Freezes t fillers (.literal l) (.literal l)
  /-- A reference becomes the result of the last declaration of its name that has a literal one
  and did not fail. -/
  | captured {before after : List Statement} {s : Statement} {name : String} {l : Literal} :
      t.statements = before ++ s :: after → s.name = some name →
      s.command.outcome.captured? = some l →
      (∀ later ∈ after, later.name = some name → later.command.outcome.captured? = none) →
      Freezes t fillers (.reference name) (.literal l)
  /-- A reference stays if there is no such declaration. -/
  | uncaptured {name : String} :
      (∀ s ∈ t.statements, s.name = some name → s.command.outcome.captured? = none) →
      Freezes t fillers (.reference name) (.reference name)
  /-- A hole becomes its filler if that is flat. -/
  | filled {name : String} {filler : Literal} :
      fillers.get? name = some filler → filler.isFlat = true →
      Freezes t fillers (.hole name) (.literal filler)
  /-- A hole stays if it has no flat filler. -/
  | unfilled {name : String} :
      (∀ filler, fillers.get? name = some filler → filler.isFlat = false) →
      Freezes t fillers (.hole name) (.hole name)

/-- What a command of a template that ran with some fillers is after reloading. -/
structure Command.ReloadsAs (t : Template) (fillers : Fillers) (c kept : Command) : Prop where
  /-- The action is kept. -/
  action : kept.action = c.action
  /-- The entity is kept. -/
  entity : kept.entity = c.entity
  /-- The keys are kept in order, and the values are frozen. -/
  parameters : List.Forall₂ (fun p q => q.1 = p.1 ∧ t.Freezes fillers p.2 q.2)
    c.parameters.entries kept.parameters.entries
  /-- The error is kept. -/
  error : kept.outcome.error = c.outcome.error
  /-- A result that is a text is kept if the text is not empty. -/
  text : ∀ text, c.outcome.result = some (.string text) → text ≠ "" →
    kept.outcome.result = some (.string text)
  /-- Any other result of a command that succeeded becomes null. -/
  null : (∀ text, c.outcome.result = some (.string text) → text = "") →
    c.outcome.succeeded = true → kept.outcome.result = some .null
  /-- A command that failed or did not run has no other result. -/
  none : (∀ text, c.outcome.result = some (.string text) → text = "") →
    c.outcome.succeeded = false → kept.outcome.result = none

namespace Template

/-- The value that a record writes is the frozen one. -/
theorem freezes_executed (t : Template) (fillers : Fillers) (v : Value) :
    t.Freezes fillers v (t.executed fillers v) := by
  cases v with
  | literal l => exact .literal l
  | reference name =>
    rw [executed]
    cases hcaptured : t.captured? name with
    | none =>
      apply Freezes.uncaptured
      intro s hs hname
      have := List.findSome?_eq_none_iff.mp hcaptured s (List.mem_reverse.mpr hs)
      rwa [if_pos hname] at this
    | some l =>
      -- The search goes from the last statement to the first, so what it finds first is the last
      -- declaration with a result, and the statements it passed stand behind that one.
      obtain ⟨after, s, before, hstatements, hs, hlater⟩ := List.findSome?_eq_some_iff.mp hcaptured
      split at hs
      next hname =>
        have hsplit : t.statements = before.reverse ++ s :: after.reverse := by
          rw [← List.reverse_reverse t.statements, hstatements]
          simp
        apply Freezes.captured hsplit hname hs
        intro later hmem hlatername
        have := hlater later (List.mem_reverse.mp hmem)
        rwa [if_pos hlatername] at this
      next => cases hs
  | hole name =>
    rw [executed, Fillers.fill]
    split
    next filler hfiller =>
      split
      next hflat => exact .filled hfiller hflat
      next hflat =>
        apply Freezes.unfilled
        intro other hother
        rw [hfiller] at hother
        exact Option.some.inj hother ▸ Bool.not_eq_true _ ▸ hflat
    next hnone =>
      apply Freezes.unfilled
      intro other hother
      rw [hnone] at hother
      cases hother

/-- Numbers in frozen values come from the value itself, from captured results and from fillers. -/
theorem floats_executed {t : Template} {fillers : Fillers} {v : Value} {p : Binary64 → Prop}
    (hvalue : ∀ x ∈ v.floats, p x)
    (hcaptured : ∀ name l, t.captured? name = some l → ∀ x ∈ l.floats, p x)
    (hfillers : ∀ filler ∈ fillers.values, ∀ x ∈ filler.floats, p x) :
    ∀ x ∈ (t.executed fillers v).floats, p x := by
  cases v with
  | literal l => exact hvalue
  | reference name =>
    rw [executed]
    split
    next l hl => exact hcaptured name l hl
    next => exact hvalue
  | hole name =>
    rw [executed, Fillers.fill]
    split
    next filler hfiller =>
      split
      next => exact hfillers filler (OrderedMap.mem_values_of_get? hfiller)
      next => exact hvalue
    next => exact hvalue

end Template

namespace Command

/-- A command after reloading is its frozen form if all numbers written for it read back. -/
theorem reloadsAs_reloaded {t : Template} {fillers : Fillers} {c : Command}
    (h : ∀ v ∈ c.parameters.values, (t.executed fillers v).reread = t.executed fillers v) :
    c.ReloadsAs t fillers (c.reloaded t fillers) where
  action := rfl
  entity := rfl
  parameters := by
    rw [reloaded, OrderedMap.entries_map, List.forall₂_map_right_iff, List.forall₂_same]
    intro p hp
    rw [h p.2 (List.mem_map_of_mem hp)]
    exact ⟨rfl, t.freezes_executed fillers p.2⟩
  error := rfl
  text text hresult hne := by
    simp [reloaded, Outcome.stored, Outcome.resultText?, hresult, hne]
  null hempty hsucceeded := by
    rw [reloaded, Outcome.stored, Outcome.resultText?_eq_none hempty, if_pos hsucceeded]
  none hempty hsucceeded := by
    rw [reloaded, Outcome.stored, Outcome.resultText?_eq_none hempty, hsucceeded]
    rfl

end Command

namespace Execution

/-- Reloading an execution freezes and flattens it. If the identity is valid, the commands are
well formed, the fillers are nested no deeper than the reader goes, and the double-precision
numbers in parameters, captured results and fillers read back, then both the stored bytes and the
record that reports show are read as one execution. It agrees with the original but for its
statements; these are as many bare commands, each the frozen form of the original one. -/
theorem reload_freezes_and_flattens {e : Execution} {identity : Identity}
    (hidentity : Identity.parse e.id = .ok identity)
    (hcommands : ∀ c ∈ e.template.commands, c.IsWellFormed)
    (hdepth : ∀ filler ∈ e.fillers.values, filler.depth ≤ Record.fillerNesting)
    (hparameters : ∀ c ∈ e.template.commands, ∀ x ∈ c.floats, x.ReadsBack)
    (hcaptured : ∀ name l, e.template.captured? name = some l → ∀ x ∈ l.floats, x.ReadsBack)
    (hfillers : ∀ filler ∈ e.fillers.values, ∀ x ∈ filler.floats, x.ReadsBack) :
    ∃ r, decode e.encode = .ok r ∧ decode e.record.text.toUTF8 = .ok r ∧
      r.id = e.id ∧ r.author = e.author ∧ r.source = e.source ∧ r.locale = e.locale ∧
      r.profile = e.profile ∧ r.fillers = e.fillers ∧
      List.Forall₂ (fun s kept => kept.name = none ∧
        s.command.ReloadsAs e.template e.fillers kept.command)
          e.template.statements r.template.statements := by
  have hreloadable : e.IsReloadable :=
    ⟨⟨identity, hidentity⟩, hcommands, hdepth,
      fun filler hfiller x hx => (hfillers filler hfiller x hx).readsInRange⟩
  have hself : e.fillers.map Literal.reread = e.fillers :=
    (OrderedMap.map_congr fun filler hfiller =>
      filler.reread_eq_self (hfillers filler hfiller)).trans e.fillers.map_id
  refine ⟨e.reloaded, decode_encode hreloadable, decode_record hreloadable, rfl, rfl, rfl, rfl,
    rfl, hself, ?_⟩
  -- Both lists of statements are images of the original one, so they agree place by place.
  rw [reloaded, Template.ofCommands, Template.commands, List.map_map, List.map_map,
    List.forall₂_map_right_iff, List.forall₂_same]
  intro s hs
  have hmem : s.command ∈ e.template.commands := List.mem_map_of_mem hs
  refine ⟨rfl, Command.reloadsAs_reloaded fun v hv => Value.reread_eq_self ?_⟩
  refine Template.floats_executed (fun x hx => ?_) hcaptured hfillers
  exact hparameters _ hmem x (List.mem_flatMap.mpr ⟨v, hv, hx⟩)

/-- An execution with a declaration that failed and was tried again under its name, a nested
filler, results of several kinds and a command that did not run. -/
private def sampleExecution : Execution where
  id := "01ARZ3NDEKTSV4RRFFQ69G5FAV"
  author := ""
  source := "net = create vpc\n"
  locale := "eu \"west\""
  profile := "ops\n"
  fillers := .ofList
    [("deep", .list [.list [.text "a"]]),
      ("rate", .number (.float ⟨true, ⟨0x18000000000000, -52⟩⟩))]
  template :=
    ⟨[⟨some "net", (Command.new "create" "vpc" .empty).withOutcome (.failure "quota: \"full\"")⟩,
      ⟨some "net", (Command.new "create" "vpc" .empty).withOutcome (.success (.string "vpc-1"))⟩,
      ⟨none, (Command.new "create" "subnet" (.ofList [("vpc", .reference "net"),
        ("cost", .hole "rate"), ("tags", .hole "deep"), ("note", .literal (.text "# true"))])
          ).withOutcome (.success (.array []))⟩,
      ⟨none, Command.new "start" "vm" (.ofList [("id", .reference "later")])⟩]⟩

/-- The sample execution is read from both forms of its record. -/
theorem reload_sample : ∃ r, decode sampleExecution.encode = .ok r ∧
    decode sampleExecution.record.text.toUTF8 = .ok r ∧
      r.fillers = sampleExecution.fillers ∧ r.template.size = 4 := by
  have hcaptured : ∀ name l, sampleExecution.template.captured? name = some l →
      ∀ x ∈ l.floats, x.ReadsBack := by
    intro name l h
    have hexact : ∀ s ∈ sampleExecution.template.statements,
        ∀ l ∈ s.command.outcome.captured?, l.floats = [] := by decide
    obtain ⟨s, hs, -, hl⟩ := Template.exists_of_captured? h
    rw [hexact s hs l hl]
    exact fun _ hx => absurd hx List.not_mem_nil
  obtain ⟨r, hencode, hrecord, -, -, -, -, -, hfillers, hstatements⟩ :=
    reload_freezes_and_flattens (e := sampleExecution) rfl (by decide) (by decide) (by decide)
      hcaptured (by decide +kernel)
  exact ⟨r, hencode, hrecord, hfillers, hstatements.length_eq.symm⟩

end Execution

end Runbook
