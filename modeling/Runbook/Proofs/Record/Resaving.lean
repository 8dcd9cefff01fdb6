import Runbook.Proofs.Record.Reload
import Runbook.Proofs.Reversal.Reload
import Runbook.Proofs.Tally

/-!
# Storing a reloaded execution

A reloaded execution declares nothing and has lost all results that are no texts, so its record is
made in another way than that of the original one. It is the same record nevertheless: what was
frozen stays frozen, what could not be frozen cannot be frozen from fewer declarations, and each
outcome is kept as what was already kept of it.

## Main results

* `Template.executed_executed`: freezing a value a second time changes nothing;
* `Outcome.resultText?_stored`, `Outcome.hasRun_stored`: what a record keeps of an outcome is kept
  of what it kept;
* `Record.ofExecution_reloaded`: the record of the reloaded execution is that of the original one;
* `Execution.resaving_changes_nothing`: so its bytes are the same, and so is what is reported on it.
-/

namespace Runbook

/-! ## Outcomes and values -/

namespace Outcome

/-- A textual result is the result, and not empty. -/
theorem resultText?_eq_some_iff {o : Outcome} {text : String} :
    o.resultText? = some text ↔ o.result = some (.string text) ∧ text ≠ "" := by
  rw [resultText?]
  split
  next other hresult =>
    rw [hresult]
    split
    next hempty => simp [String.isEmpty_iff.mp hempty, eq_comm]
    next hempty =>
      simp only [Option.some.injEq, Json.string.injEq, iff_self_and]
      rintro rfl
      rwa [String.isEmpty_iff] at hempty
  next hother => exact ⟨fun h => absurd h (by simp), fun h => (hother text h.1).elim⟩

/-- A record keeps the textual result. -/
@[simp]
theorem resultText?_stored (o : Outcome) : o.stored.resultText? = o.resultText? := by
  cases htext : o.resultText? with
  | none =>
    rw [stored, htext]
    cases o.succeeded <;> rfl
  | some text =>
    have hne := (resultText?_eq_some_iff.mp htext).2
    exact resultText?_eq_some_iff.mpr ⟨by rw [stored, htext], hne⟩

/-- A record keeps whether the command ran. -/
@[simp]
theorem hasRun_stored (o : Outcome) : o.stored.hasRun = o.hasRun := by
  obtain ⟨result, error⟩ := o
  rw [stored]
  cases htext : resultText? ⟨result, error⟩ with
  | none => cases result <;> cases error <;> rfl
  | some text =>
    cases result with
    | none => cases htext
    | some json => rfl

end Outcome

namespace Template

/-- Nothing is captured from commands that declare nothing. -/
@[simp]
theorem captured?_ofCommands (commands : List Command) (name : String) :
    (ofCommands commands).captured? name = none := by
  rw [captured?, List.findSome?_eq_none_iff]
  intro s hs
  obtain ⟨c, -, rfl⟩ := List.mem_map.mp (List.mem_reverse.mp hs)
  simp

/-- What a value was in the run of a template is kept by commands that declare nothing. -/
theorem executed_executed (t : Template) (fillers : Fillers) (commands : List Command) (v : Value) :
    (ofCommands commands).executed fillers (t.executed fillers v) = t.executed fillers v := by
  cases v with
  | literal l => rfl
  | reference name =>
    cases hcaptured : t.captured? name with
    | some l => simp only [executed, hcaptured]
    | none => simp only [executed, hcaptured, captured?_ofCommands]
  | hole name =>
    have hexecuted : t.executed fillers (.hole name) = fillers.fill name := rfl
    rw [hexecuted]
    -- The fillers that leave it a hole leave it one again.
    rcases fillers.fill_eq name with hhole | ⟨l, hl⟩
    · rw [hhole]
      exact hhole
    · rw [hl]
      rfl

end Template

/-! ## Records -/

namespace Entry

/-- The entry of a reloaded command is the one it was loaded from. -/
theorem ofCommand_reloaded {t : Template} {fillers : Fillers} {c : Command}
    (h : ∀ v ∈ c.parameters.values, (t.executed fillers v).reread = t.executed fillers v)
    (commands : List Command) :
    ofCommand (.ofCommands commands) fillers (c.reloaded t fillers) = ofCommand t fillers c := by
  have hvalues : ∀ v ∈ c.parameters.values,
      (Template.ofCommands commands).executed fillers (t.executed fillers v).reread =
        t.executed fillers v := by
    intro v hv
    rw [h v hv, Template.executed_executed]
  have hparameters : (c.reloaded t fillers).parameters.map
        ((Template.ofCommands commands).executed fillers) =
      c.parameters.map (t.executed fillers) := by
    rw [← OrderedMap.map_congr hvalues]
    exact OrderedMap.ext (by simp [Command.reloaded])
  have hline : { c.reloaded t fillers with
        parameters := (c.reloaded t fillers).parameters.map
          ((Template.ofCommands commands).executed fillers) : Command }.text =
      { c with parameters := c.parameters.map (t.executed fillers) : Command }.text := by
    rw [hparameters]
    rfl
  have houtcome : (c.reloaded t fillers).outcome = c.outcome.stored := rfl
  rw [ofCommand, ofCommand, hline, houtcome, Outcome.resultText?_stored, Outcome.hasRun_stored]
  rfl

end Entry

/-- The record of a reloaded execution is that of the original one if the fillers and all values
that were written are read as themselves. -/
theorem Record.ofExecution_reloaded {e : Execution}
    (hfillers : e.fillers.map Literal.reread = e.fillers)
    (hvalues : ∀ c ∈ e.template.commands, ∀ v ∈ c.parameters.values,
      (e.template.executed e.fillers v).reread = e.template.executed e.fillers v) :
    ofExecution e.reloaded = ofExecution e := by
  have hentries : e.reloaded.template.commands.map
      (Entry.ofCommand e.reloaded.template e.reloaded.fillers) =
        e.template.commands.map (Entry.ofCommand e.template e.fillers) := by
    rw [Execution.commands_reloaded, List.map_map]
    apply List.map_congr_left
    intro c hc
    rw [Function.comp_apply, Execution.reloaded, hfillers]
    exact Entry.ofCommand_reloaded (hvalues c hc) _
  rw [ofExecution, hentries, Execution.reloaded, hfillers]
  rfl

/-! ## Reports -/

namespace Execution

variable (e : Execution)

/-- Reloading keeps the statistics. -/
theorem stats_reloaded : e.reloaded.template.stats = e.template.stats := by
  apply Template.stats_eq_of_map_kind
  rw [commands_reloaded, List.map_map]
  rfl

/-- Reloading keeps the tally. -/
theorem tally_reloaded : e.reloaded.template.tally = e.template.tally := by
  apply Template.tally_eq_of_map_error
  rw [commands_reloaded, List.map_map]
  rfl

/-- Reloading keeps what listings say that an execution consists of. -/
theorem contents_reloaded : e.reloaded.contents = e.contents := by
  rw [contents, contents, commands_reloaded]
  rcases e.template.commands with _ | ⟨c, _ | ⟨d, rest⟩⟩
  · rfl
  · rfl
  · simp only [List.map_cons, List.length_cons, List.length_map]

/-- Reloading keeps the line that listings show. -/
theorem summary_reloaded (policy : Policy) (now : Instant) :
    e.reloaded.summary policy now = e.summary policy now := by
  have hremark : e.reloaded.remark policy = e.remark policy := by
    rw [remark, remark, isReversible_reloaded]
  rw [summary, summary, tally_reloaded, contents_reloaded, hremark]
  rfl

/-- Storing a reloaded execution changes nothing. If the identity is valid, the commands are well
formed, the fillers are nested no deeper than the reader goes, and the double-precision numbers in
parameters, captured results and fillers read back, then the execution that is loaded is stored as
the same bytes, so that it is loaded once more from its own; and it has the statistics, the tally,
the instant and, under every policy and at every instant, the reversibility and the line in
listings of the original one. -/
theorem resaving_changes_nothing {e : Execution} {identity : Identity}
    (hidentity : Identity.parse e.id = .ok identity)
    (hcommands : ∀ c ∈ e.template.commands, c.IsWellFormed)
    (hdepth : ∀ filler ∈ e.fillers.values, filler.depth ≤ Record.fillerNesting)
    (hparameters : ∀ c ∈ e.template.commands, ∀ x ∈ c.floats, x.ReadsBack)
    (hcaptured : ∀ name l, e.template.captured? name = some l → ∀ x ∈ l.floats, x.ReadsBack)
    (hfillers : ∀ filler ∈ e.fillers.values, ∀ x ∈ filler.floats, x.ReadsBack) :
    ∃ r, decode e.encode = .ok r ∧ r.encode = e.encode ∧ decode r.encode = .ok r ∧
      r.template.stats = e.template.stats ∧ r.template.tally = e.template.tally ∧
      r.instant = e.instant ∧
      ∀ policy, r.template.isReversible policy = e.template.isReversible policy ∧
        ∀ now, r.summary policy now = e.summary policy now := by
  have hreloadable : e.IsReloadable :=
    ⟨⟨identity, hidentity⟩, hcommands, hdepth,
      fun filler hfiller x hx => (hfillers filler hfiller x hx).readsInRange⟩
  have hself : e.fillers.map Literal.reread = e.fillers :=
    (OrderedMap.map_congr fun filler hfiller =>
      filler.reread_eq_self (hfillers filler hfiller)).trans e.fillers.map_id
  have hvalues : ∀ c ∈ e.template.commands, ∀ v ∈ c.parameters.values,
      (e.template.executed e.fillers v).reread = e.template.executed e.fillers v := by
    intro c hc v hv
    refine Value.reread_eq_self (Template.floats_executed (fun x hx => ?_) hcaptured hfillers)
    exact hparameters c hc x (List.mem_flatMap.mpr ⟨v, hv, hx⟩)
  have hdecode := decode_encode hreloadable
  have hencode : e.reloaded.encode = e.encode := by
    rw [encode, encode, recordText, recordText, Record.ofExecution_reloaded hself hvalues]
  exact ⟨e.reloaded, hdecode, hencode, hencode ▸ hdecode, e.stats_reloaded, e.tally_reloaded, rfl,
    fun policy => ⟨e.isReversible_reloaded policy, e.summary_reloaded policy⟩⟩

/-- An execution in which a declaration is referred to by two commands, of which one could not be
run for want of a filler, and another has no captured result. -/
private def networkExecution : Execution where
  id := "01ARZ3NDEKTSV4RRFFQ69G5FAV"
  author := "ann"
  source := ""
  locale := "eu"
  profile := "ops"
  fillers := .ofList [("deep", .list [.list [.flag true]]),
    ("rate", .number (.float ⟨false, ⟨0x18000000000000, -52⟩⟩))]
  template :=
    ⟨[⟨some "net", (Command.new "create" "vpc" (.ofList [("cost", .hole "rate")])
        ).withOutcome (.success (.string "vpc-1"))⟩,
      ⟨some "acl", (Command.new "create" "acl" (.ofList [("of", .reference "net")])
        ).withOutcome (.success (.array [.array []]))⟩,
      ⟨none, (Command.new "attach" "acl" (.ofList [("to", .reference "net"), ("name", .hole "name")])
        ).withOutcome (.failure "missing input for hole \x7bname\x7d")⟩,
      ⟨none, Command.new "start" "acl" (.ofList [("id", .reference "acl"),
        ("tags", .hole "deep")])⟩]⟩

/-- The reloaded execution is stored as the original one and shown as it two days later. -/
theorem resaving_changes_nothing_network :
    ∃ r, decode networkExecution.encode = .ok r ∧ r.encode = networkExecution.encode ∧
      r.template.tally = ⟨3, 1⟩ ∧ r.summary .standard ⟨1470095650259⟩ =
        .ofText "01ARZ3NDEKTSV4RRFFQ69G5FAV KO - 4 commands (2 days ago) <ops:ann> [eu]" := by
  have hcaptured : ∀ name l, networkExecution.template.captured? name = some l →
      ∀ x ∈ l.floats, x.ReadsBack := by
    intro name l h
    have hexact : ∀ s ∈ networkExecution.template.statements,
        ∀ l ∈ s.command.outcome.captured?, l.floats = [] := by decide
    obtain ⟨s, hs, -, hl⟩ := Template.exists_of_captured? h
    rw [hexact s hs l hl]
    exact fun _ hx => absurd hx List.not_mem_nil
  obtain ⟨r, hdecode, hencode, -, -, htally, -, hreports⟩ :=
    resaving_changes_nothing (e := networkExecution) rfl (by decide) (by decide) (by decide)
      hcaptured (by decide +kernel)
  refine ⟨r, hdecode, hencode, htally, ?_⟩
  rw [(hreports .standard).2]
  decide +kernel

end Execution

end Runbook
