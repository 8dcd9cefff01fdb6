import Runbook.Proofs.Json.Literal
import Runbook.Record

/-!
# Reading the text of a record

The text of a record in any layout that sets parts apart by spaces is read as that record, with
the numbers of its fillers read anew. A field that is left out has the value that a missing field
stands for.

## Main definitions

* `Record.entriesIn?`: the entries in bytes, whatever the other fields are.

## Main results

* `Entry.ofDocument?_toJson`: the document of an entry is read as that entry;
* `Record.ofDocument?_toJson`: the document of a record is read as that record, with what its
  fillers are read as;
* `Record.ofBytes?_text`: the bytes of its text hold that record, with the numbers of the fillers
  read anew;
* `Record.entriesIn?_text`: they hold its entries, whatever the fillers are.
-/

namespace Runbook

/-- A partial function that has a value at every item of a list has images of all of them. -/
theorem mapM_eq_some_map {α β : Type} {f : α → Option β} {g : α → β} {items : List α}
    (h : ∀ item ∈ items, f item = some (g item)) : items.mapM f = some (items.map g) := by
  induction items with
  | nil => rfl
  | cons item rest ih =>
    have hrest := ih fun other hother => h other (List.mem_cons_of_mem item hother)
    rw [List.mapM_cons, h item List.mem_cons_self, hrest]
    rfl

namespace Json.Document

theorem ofItems_eq_map (items : List Json) : ofItems items = items.map ofJson := by
  induction items with
  | nil => rfl
  | cons item rest ih => rw [ofItems, ih, List.map_cons]

/-- The names of the members that a value has can be read. -/
theorem named?_ofMembers (members : List (String × Json)) :
    named? (ofMembers members) = some (members.map fun member => (member.1, ofJson member.2)) := by
  induction members with
  | nil => rfl
  | cons member rest ih =>
    rw [ofMembers, named?, ih]
    rfl

/-- The fields of the document of an object are those among its members. -/
theorem fields?_ofJson_object (names : List String) (members : List (String × Json)) :
    (ofJson (.object members)).fields? names =
      names.mapM (member? (members.map fun member => (member.1, ofJson member.2))) := by
  rw [ofJson, fields?, named?_ofMembers]
  rfl

theorem fieldOr_some {α : Type} (default : α) (read : Document → Option α) (d : Document) :
    fieldOr default read (some d) = read d := rfl

end Json.Document

open Json (Document)

namespace Entry

theorem texts?_ofJson (texts : List String) :
    texts? (.ofJson (.array (texts.map .string))) = some texts := by
  have hmap : (texts.map Json.string).map Document.ofJson =
      texts.map fun text => .string (some text) := by
    simp [Document.ofJson]
  rw [Document.ofJson, Document.ofItems_eq_map, hmap, texts?, Document.items?]
  simp only [Option.bind_eq_bind, Option.bind_some, List.mapM_map]
  exact (mapM_eq_some_map fun _ _ => rfl).trans (congrArg some (List.map_id texts))

/-- The fields in the document of an entry; empty lists and an unset mark are left out. -/
theorem fields?_toJson (e : Entry) :
    (Document.ofJson e.toJson).fields? fieldNames = some
      [some (.string (some e.line)),
        if e.errors.isEmpty then none else some (.ofJson (.array (e.errors.map .string))),
        if e.results.isEmpty then none else some (.ofJson (.array (e.results.map .string))),
        if e.pending then some (.bool true) else none] := by
  -- Which members there are is decided by three tests; for each way the look-ups compute.
  rw [toJson, Document.fields?_ofJson_object]
  cases e.errors <;> cases e.results <;> cases e.pending <;> rfl

/-- A list of texts is read whether or not it is left out when empty. -/
private theorem fieldOr_texts? (texts : List String) :
    Document.fieldOr [] texts?
      (if texts.isEmpty then none else some (.ofJson (.array (texts.map .string)))) =
        some texts := by
  cases texts with
  | nil => rfl
  | cons text rest => exact texts?_ofJson (text :: rest)

/-- The document of an entry is read as that entry. -/
theorem ofDocument?_toJson (e : Entry) : ofDocument? (.ofJson e.toJson) = some e := by
  have hpending : Document.fieldOr false Document.bool?
      (if e.pending then some (.bool true) else none) = some e.pending := by
    cases e.pending <;> rfl
  rw [ofDocument?, fields?_toJson]
  simp only [Option.bind_eq_bind, Option.bind_some, fieldOr_texts?, hpending]
  rfl

end Entry

namespace Record

/-- The record with the numbers of its fillers read anew. -/
def reread (r : Record) : Record :=
  { r with fillers := r.fillers.map Literal.reread }

/-- The fillers can be read inside a record: their lists are not nested too deep, and their
double-precision numbers are written in range. -/
structure FillersAreReadable (fillers : Fillers) : Prop where
  /-- The nesting is within the limit of the reader. -/
  depth : ∀ filler ∈ fillers.values, filler.depth ≤ fillerNesting
  /-- The numbers are in range. -/
  inRange : ∀ filler ∈ fillers.values, ∀ x ∈ filler.floats, x.ReadsInRange

instance (fillers : Fillers) : Decidable (FillersAreReadable fillers) :=
  decidable_of_iff
    ((∀ filler ∈ fillers.values, filler.depth ≤ fillerNesting) ∧
      ∀ filler ∈ fillers.values, ∀ x ∈ filler.floats, x.ReadsInRange)
    ⟨fun ⟨h₁, h₂⟩ => ⟨h₁, h₂⟩, fun h => ⟨h.depth, h.inRange⟩⟩

/-- The document of fillers is read as those fillers, with their numbers read anew. -/
theorem fillers?_toJson {fillers : Fillers} (h : FillersAreReadable fillers) :
    fillers? (.ofJson (.object (fillers.map Literal.toJson).entries)) =
      some (fillers.map Literal.reread) := by
  have hfiller : ∀ entry ∈ fillers.entries,
      filler? (entry.1, .ofJson entry.2.toJson) = some (entry.1, entry.2.reread) := by
    intro entry hentry
    have hmem : entry.2 ∈ fillers.values := List.mem_map_of_mem hentry
    rw [filler?, Literal.value?_toJson entry.2 (h.inRange _ hmem) fillerNesting (h.depth _ hmem)]
    simp only [Option.bind_eq_bind, Option.bind_some, Literal.decode?_toJson]
    rfl
  rw [fillers?, Document.ofJson, Document.members?, Document.named?_ofMembers]
  simp only [Option.bind_eq_bind, Option.bind_some, OrderedMap.entries_map, List.map_map,
    List.mapM_map, Function.comp_def]
  rw [mapM_eq_some_map hfiller]
  exact congrArg some (fillers.map Literal.reread).ofList_entries

theorem entries?_toJson (entries : List Entry) :
    entries? (.ofJson (.array (entries.map Entry.toJson))) = some entries := by
  rw [entries?, Document.ofJson, Document.ofItems_eq_map, Document.items?]
  simp only [Option.bind_eq_bind, Option.bind_some, List.map_map, List.mapM_map]
  exact (mapM_eq_some_map fun entry _ => entry.ofDocument?_toJson).trans
    (congrArg some (List.map_id entries))

/-- The fields in the document of a record; an empty author and an empty profile are left out. -/
theorem fields?_toJson (r : Record) :
    (Document.ofJson r.toJson).fields? fieldNames = some
      [some (.string (some r.id)),
        if r.author.isEmpty then none else some (.string (some r.author)),
        some (.string (some r.source)), some (.string (some r.locale)),
        if r.profile.isEmpty then none else some (.string (some r.profile)),
        some (.ofJson (.object (r.fillers.map Literal.toJson).entries)),
        some (.ofJson (.array (r.entries.map Entry.toJson)))] := by
  rw [toJson, Document.fields?_ofJson_object, optionalField, optionalField]
  cases r.author.isEmpty <;> cases r.profile.isEmpty <;> rfl

/-- A text is read whether or not it is left out when empty. -/
private theorem fieldOr_text? (text : String) :
    Document.fieldOr "" Document.text?
      (if text.isEmpty then none else some (.string (some text))) = some text := by
  split
  next hempty => rw [String.isEmpty_iff.mp hempty]; rfl
  next => rfl

/-- The document of a record is read as that record with what its fillers are read as, if they can
be read. -/
theorem ofDocument?_toJson (r : Record) :
    ofDocument? (.ofJson r.toJson) =
      (fillers? (.ofJson (.object (r.fillers.map Literal.toJson).entries))).map fun fillers =>
        { r with fillers } := by
  rw [ofDocument?, fields?_toJson]
  simp only [Option.bind_eq_bind, Option.bind_some, fieldOr_text?, Document.fieldOr_some,
    Document.text?, entries?_toJson]
  cases fillers? (.ofJson (.object (r.fillers.map Literal.toJson).entries)) <;> rfl

/-- The bytes of the text of a record, with spaces behind it, hold that record, with the numbers of
the fillers read anew. -/
theorem ofBytes?_text {layout : Json.Layout} (hlayout : layout.IsSpaced) {r : Record}
    (h : FillersAreReadable r.fillers) {suffix : String}
    (hsuffix : ∀ c ∈ suffix.toList, Json.isSpace (some c) = true) :
    (Json.Document.ofBytes? (r.toJson.text layout ++ suffix).toUTF8).bind ofDocument? =
      some r.reread := by
  rw [Json.Document.ofBytes?_text hlayout r.toJson hsuffix, Option.bind_some, ofDocument?_toJson,
    fillers?_toJson h]
  rfl

/-- The entries in bytes. The other fields, as fillers that cannot be read, do not matter. -/
def entriesIn? (bytes : ByteArray) : Option (List Entry) := do
  match ← (← Json.Document.ofBytes? bytes).fields? fieldNames with
  | [_, _, _, _, _, _, entries] => Json.Document.fieldOr [] entries? entries
  | _ => none

/-- A record that is read from bytes has the entries in them. -/
theorem entriesIn?_of_ofDocument? {bytes : ByteArray} {r : Record}
    (h : (Json.Document.ofBytes? bytes).bind ofDocument? = some r) :
    entriesIn? bytes = some r.entries := by
  obtain ⟨d, hdocument, hrecord⟩ := Option.bind_eq_some_iff.mp h
  obtain ⟨fields, hfields, hrecord⟩ := Option.bind_eq_some_iff.mp hrecord
  simp only [entriesIn?, hdocument, hfields, Option.bind_eq_bind, Option.bind_some]
  split at hrecord
  next id author source locale profile fillers entries =>
    simp only [Option.bind_eq_bind, Option.bind_eq_some_iff] at hrecord
    obtain ⟨_, -, _, -, _, -, _, -, _, -, _, -, read, hread, hr⟩ := hrecord
    cases hr
    exact hread
  next => cases hrecord

/-- Whatever the fillers are, the bytes hold the entries of the record. -/
theorem entriesIn?_text {layout : Json.Layout} (hlayout : layout.IsSpaced) (r : Record)
    {suffix : String} (hsuffix : ∀ c ∈ suffix.toList, Json.isSpace (some c) = true) :
    entriesIn? (r.toJson.text layout ++ suffix).toUTF8 = some r.entries := by
  rw [entriesIn?, Json.Document.ofBytes?_text hlayout r.toJson hsuffix]
  simp only [Option.bind_eq_bind, Option.bind_some, fields?_toJson, Document.fieldOr_some,
    entries?_toJson]

end Record

/-! ## Stored executions -/

namespace Execution

theorem isSpace_of_mem_empty : ∀ c ∈ "".toList, Json.isSpace (some c) = true := by
  simp

/-- The bytes that an execution is stored as hold the entries of its record. -/
theorem entriesIn?_encode (e : Execution) :
    Record.entriesIn? e.encode = some (Record.ofExecution e).entries := by
  have htext := Record.entriesIn?_text Json.Layout.isSpaced_compact (.ofExecution e)
    isSpace_of_mem_empty
  rwa [String.append_empty] at htext

/-- They hold its record if the fillers can be read. -/
theorem ofDocument?_encode {e : Execution} (h : Record.FillersAreReadable e.fillers) :
    (Json.Document.ofBytes? e.encode).bind Record.ofDocument? =
      some (Record.ofExecution e).reread := by
  have hfillers : Record.FillersAreReadable (Record.ofExecution e).fillers := h
  have htext := Record.ofBytes?_text Json.Layout.isSpaced_compact hfillers isSpace_of_mem_empty
  rwa [String.append_empty] at htext

end Execution

end Runbook
