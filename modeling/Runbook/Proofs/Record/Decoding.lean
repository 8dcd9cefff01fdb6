import Runbook.Proofs.Record.Acceptance
import Runbook.Proofs.Statement.RoundTrip

/-!
# What is loaded

Bytes that are loaded as an execution were checked on the way: the identity is valid, each command
was read from its text and so can be written, and the fillers are nested no deeper than the reader
goes, as they went through it.

## Main definitions

* `Execution.IsWellFormed`: identity, commands and fillers are as the reader of records leaves them.

## Main results

* `Execution.isWellFormed_of_decode`: every execution that is loaded is well formed;
* `Command.isWellFormed_withOutcome`: outcomes do not matter to that.
-/

namespace Runbook

/-- The identity is valid, the commands can be written, and the fillers are nested no deeper than
the reader goes. -/
structure Execution.IsWellFormed (e : Execution) : Prop where
  /-- The identity is valid. -/
  identity : ∃ identity, Identity.parse e.id = .ok identity
  /-- The commands can be written. -/
  commands : ∀ c ∈ e.template.commands, c.IsWellFormed
  /-- The fillers are not nested too deep. -/
  depth : ∀ filler ∈ e.fillers.values, filler.depth ≤ Record.fillerNesting

/-- Whether a command is well formed does not depend on its outcome. -/
@[simp]
theorem Command.isWellFormed_withOutcome {c : Command} {outcome : Outcome} :
    (c.withOutcome outcome).IsWellFormed ↔ c.IsWellFormed :=
  ⟨fun h => ⟨h.action, h.entity, h.keys, h.values⟩,
    fun h => ⟨h.action, h.entity, h.keys, h.values⟩⟩

/-! ## Fillers -/

namespace Literal

mutual

/-- A literal that is read within a limit is nested no deeper. -/
theorem depth_le_of_value? : (d : Json.Document) → (limit : Nat) → {json : Json} →
    d.value? limit = some json → {l : Literal} → decode? json = some l → l.depth ≤ limit
  | .null, _, _, hvalue, _, h => by cases hvalue; cases h
  | .bool _, _, _, hvalue, _, h => by cases hvalue; cases h; exact Nat.zero_le _
  | .number _, _, _, hvalue, _, h => by
    obtain ⟨n, -, rfl⟩ := Option.map_eq_some_iff.mp hvalue
    cases h
    exact Nat.zero_le _
  | .string _, _, _, hvalue, _, h => by
    obtain ⟨text, -, rfl⟩ := Option.map_eq_some_iff.mp hvalue
    cases h
    exact Nat.zero_le _
  | .array _, 0, _, hvalue, _, _ => nomatch hvalue
  | .array items, limit + 1, _, hvalue, _, h => by
    obtain ⟨values, hvalues, rfl⟩ := Option.map_eq_some_iff.mp hvalue
    obtain ⟨literals, hliterals, rfl⟩ := Option.map_eq_some_iff.mp h
    exact Nat.succ_le_succ (itemsDepth_le_of_itemValues? items limit hvalues hliterals)
  | .object _, 0, _, hvalue, _, _ => nomatch hvalue
  | .object _, _ + 1, _, hvalue, _, h => by
    obtain ⟨values, -, rfl⟩ := Option.map_eq_some_iff.mp hvalue
    cases h

/-- Items that are read within a limit are nested no deeper. -/
theorem itemsDepth_le_of_itemValues? : (items : List Json.Document) → (limit : Nat) →
    {values : List Json} → Json.Document.itemValues? limit items = some values →
      {literals : List Literal} → decodeItems? values = some literals →
        itemsDepth literals ≤ limit
  | [], _, _, hvalues, _, h => by
    cases hvalues
    cases h
    exact Nat.zero_le _
  | item :: rest, limit, _, hvalues, _, h => by
    obtain ⟨value, hvalue, hvalues⟩ := Option.bind_eq_some_iff.mp hvalues
    obtain ⟨others, hothers, hcons⟩ := Option.bind_eq_some_iff.mp hvalues
    cases hcons
    obtain ⟨literal, hliteral, h⟩ := Option.bind_eq_some_iff.mp h
    obtain ⟨literals, hliterals, hcons⟩ := Option.bind_eq_some_iff.mp h
    cases hcons
    exact max_le (depth_le_of_value? item limit hvalue hliteral)
      (itemsDepth_le_of_itemValues? rest limit hothers hliterals)

end

end Literal

namespace Record

/-- Fillers that are read are nested no deeper than the reader goes. -/
theorem depth_le_of_fillers? {d : Json.Document} {fillers : Fillers}
    (h : fillers? d = some fillers) : ∀ filler ∈ fillers.values, filler.depth ≤ fillerNesting := by
  obtain ⟨members, -, h⟩ := Option.bind_eq_some_iff.mp h
  obtain ⟨entries, hentries, h⟩ := Option.bind_eq_some_iff.mp h
  cases h
  intro filler hfiller
  obtain ⟨entry, hentry, rfl⟩ := OrderedMap.mem_of_mem_values_ofList hfiller
  obtain ⟨member, -, hmember⟩ := exists_of_forall₂ (forall₂_of_mapM hentries) hentry
  obtain ⟨value, hvalue, hmember⟩ := Option.bind_eq_some_iff.mp hmember
  obtain ⟨literal, hliteral, hmember⟩ := Option.bind_eq_some_iff.mp hmember
  cases hmember
  exact Literal.depth_le_of_value? member.2 fillerNesting hvalue hliteral

/-- So are the fillers of a record that is read. -/
theorem depth_le_of_ofDocument? {d : Json.Document} {r : Record} (h : ofDocument? d = some r) :
    ∀ filler ∈ r.fillers.values, filler.depth ≤ fillerNesting := by
  obtain ⟨fields, -, h⟩ := Option.bind_eq_some_iff.mp h
  split at h
  next id author source locale profile fillers entries =>
    simp only [Option.bind_eq_bind, Option.bind_eq_some_iff] at h
    obtain ⟨_, -, _, -, _, -, _, -, _, -, read, hread, _, -, hr⟩ := h
    cases hr
    cases fillers with
    | none =>
      cases hread
      exact fun _ hfiller => absurd hfiller List.not_mem_nil
    | some document => exact depth_le_of_fillers? hread
  next => cases h

/-! ## Commands -/

/-- A command that is read from an entry can be written. -/
theorem isWellFormed_of_toCommand {entry : Entry} {c : Command} (h : entry.toCommand = .ok c) :
    c.IsWellFormed := by
  rw [Entry.toCommand] at h
  cases hread : Statement.ofText entry.line with
  | error e => rw [hread] at h; cases h
  | ok s =>
    rw [hread] at h
    cases h
    exact Command.isWellFormed_withOutcome.mpr (Statement.isWellFormed_of_ofText hread).1.command

/-- So can all commands that are read from entries. -/
theorem isWellFormed_of_readEntries {entries : List Entry} {position : Nat}
    {commands : List Command} (h : readEntries position entries = .ok commands) :
    ∀ c ∈ commands, c.IsWellFormed := by
  intro c hc
  obtain ⟨entry, -, hentry⟩ := exists_of_forall₂ (readEntries_eq_ok_iff.mp h) hc
  exact isWellFormed_of_toCommand hentry

end Record

/-- Every execution that is loaded is well formed. -/
theorem Execution.isWellFormed_of_decode {bytes : ByteArray} {e : Execution}
    (h : decode bytes = .ok e) : e.IsWellFormed := by
  rw [decode] at h
  split at h
  · cases h
  rename_i record hrecord
  obtain ⟨document, -, hrecord⟩ := Option.bind_eq_some_iff.mp hrecord
  rw [Record.toExecution] at h
  split at h
  · cases h
  rename_i identity hidentity
  split at h
  · cases h
  rename_i commands hcommands
  cases h
  refine ⟨⟨identity, hidentity⟩, ?_, Record.depth_le_of_ofDocument? hrecord⟩
  rw [Template.commands_ofCommands]
  exact Record.isWellFormed_of_readEntries hcommands

end Runbook
