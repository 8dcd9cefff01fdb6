import Runbook.Log
import Runbook.Proofs.Record.Decoding
import Runbook.Proofs.Store.Contents

/-!
# Listings of any records

A listing goes over the records of a store one by one. Whatever bytes a record consists of, either
they are read as an execution, which then is shown to its end, or the reason why they are not is
shown in its place. So each record is shown as if there were no other.

## Main definitions

* `Log.listed`: the query that lists the last executions in a form;
* `Log.IsWhole`: what a listing shows of a record if nothing is left out;
* `Log.ShowsEachAlone`: a listing shows each of the last records as if it were alone.

## Main results

* `Execution.exists_shown`: an execution with a valid identity is shown to its end;
* `Log.isWhole_shown`: so a listing leaves nothing out of a record;
* `Log.listing_shows_each_alone`: stores in memory and in directories are listed record by record.
-/

namespace Runbook

/-- The instant of the creation is that of the identity. -/
theorem Execution.creation_of_parse {e : Execution} {identity : Identity}
    (h : Identity.parse e.id = .ok identity) : e.creation = .ok identity.instant := by
  unfold creation instant
  rw [h]
  rfl

/-- An execution with a valid identity is shown in each form without an error. -/
theorem Execution.exists_shown {e : Execution}
    (h : ∃ identity, Identity.parse e.id = .ok identity) (policy : Policy) (now : Instant)
    (format : Format) : ∃ text, e.shown policy now format = .ofText text := by
  obtain ⟨identity, hidentity⟩ := h
  -- The instant of the creation is all that could be missing.
  have hcreation : e.creation = .ok identity.instant := Execution.creation_of_parse hidentity
  cases format with
  | full =>
    unfold Execution.shown Execution.details
    rw [hcreation]
    exact ⟨_, rfl⟩
  | short =>
    unfold Execution.shown Execution.summary
    rw [hcreation]
    exact ⟨_, rfl⟩
  | identity => exact ⟨e.id, rfl⟩
  | json => exact ⟨_, rfl⟩

namespace Log

/-- The query that lists the last executions in a form. -/
def listed (format : Format) (limit : Nat) : Query :=
  ⟨format, limit, none, false, none⟩

/-- The text is all that there is to show of a record: the execution that it stands for, or why it
stands for none. -/
inductive IsWhole (wording : Wording) (now : Instant) (format : Format)
    (record : String × ByteArray) : String → Prop
  /-- The execution is shown to its end. -/
  | execution {e : Execution} {text : String} :
      Execution.decode record.2 = .ok e → e.shown .standard now format = .ofText text →
      IsWhole wording now format record (text ++ "\n")
  /-- The bytes are no execution. -/
  | corrupt {error : DecodeError} :
      Execution.decode record.2 = .error error →
      IsWhole wording now format record
        ("Template '" ++ record.1 ++ "' in error: " ++ error.message wording ++ "\n")

/-- The listing of the last records of a store shows each of them, in order of key, as the same
query shows it in a store where it is alone. Nothing is left out and nothing is changed. -/
def ShowsEachAlone {σ : Type} [Store σ] (wording : Wording) (now : Instant) (format : Format)
    (limit : Nat) (store : σ) (alone : String × ByteArray → σ) : Prop :=
  ∃ records skipped kept, Store.records store = .ok records ∧
    (records.map Prod.fst).Pairwise (· < ·) ∧ records = skipped ++ kept ∧
    kept.length = (if limit = 0 then records.length else min limit records.length) ∧
    Log.query wording now (listed format limit) store =
      (.ofText (String.join (kept.map fun record =>
        (Log.query wording now (listed format limit) (alone record)).1.text)), store) ∧
    ∀ record ∈ kept, ∃ text, IsWhole wording now format record text ∧
      Log.query wording now (listed format limit) (alone record) = (.ofText text, alone record)

/-! ## The last records -/

section LastOf

variable {α β : Type} (limit : Nat) (l : List α)

/-- The last records are at the end. -/
theorem lastOf_suffix : lastOf limit l <:+ l := by
  unfold lastOf
  split
  · exact List.suffix_rfl
  · exact List.drop_suffix _ _

theorem length_lastOf :
    (lastOf limit l).length = if limit = 0 then l.length else min limit l.length := by
  unfold lastOf
  split
  · rfl
  · rw [List.length_drop]
    omega

theorem lastOf_map (f : α → β) : lastOf limit (l.map f) = (lastOf limit l).map f := by
  unfold lastOf
  split
  · rfl
  · rw [List.length_map, List.map_drop]

/-- One record is always among the last ones. -/
theorem lastOf_singleton (a : α) : lastOf limit [a] = [a] := by
  unfold lastOf
  split
  · rfl
  · have hall : [a].length - limit = 0 := by simp; omega
    rw [hall, List.drop_zero]

end LastOf

/-! ## Listings -/

variable (wording : Wording)

/-- An execution is shown in its form. -/
theorem shown_of_decode {record : String × ByteArray} {e : Execution}
    (h : Execution.decode record.2 = .ok e) (now : Instant) (format : Format) :
    shown wording now format (loaded record) = (e.shown .standard now format).text ++ "\n" := by
  rw [shown, loaded, h]

/-- Bytes that are no execution are shown with the reason. -/
theorem shown_of_decode_error {record : String × ByteArray} {error : DecodeError}
    (h : Execution.decode record.2 = .error error) (now : Instant) (format : Format) :
    shown wording now format (loaded record) =
      "Template '" ++ record.1 ++ "' in error: " ++ error.message wording ++ "\n" := by
  rw [shown, loaded, h]

/-- A listing leaves nothing out of a record. -/
theorem isWhole_shown (now : Instant) (format : Format) (record : String × ByteArray) :
    IsWhole wording now format record (shown wording now format (loaded record)) := by
  cases hdecode : Execution.decode record.2 with
  | ok e =>
    -- Only what has a valid identity is read as an execution.
    obtain ⟨text, htext⟩ :=
      Execution.exists_shown (Execution.isWellFormed_of_decode hdecode).identity .standard now
        format
    rw [shown_of_decode wording hdecode, htext]
    exact .execution hdecode htext
  | error error =>
    rw [shown_of_decode_error wording hdecode]
    exact .corrupt hdecode

section Store

variable {σ : Type} [Store σ] {store : σ}

/-- A listing consists of what is shown of each of the last records. -/
theorem query_listed {records : List (String × ByteArray)}
    (h : Store.records store = .ok records) (now : Instant) (format : Format) (limit : Nat) :
    Log.query wording now (listed format limit) store =
      (.ofText (String.join ((lastOf limit records).map fun record =>
        shown wording now format (loaded record))), store) := by
  have hloaded : loadAll store = .ok (records.map loaded) := by rw [loadAll, h]
  simp only [Log.query, listed, Bool.false_eq_true, if_false, hloaded, listing, lastOf_map,
    List.map_map, Function.comp_def]

/-- A record that is alone is all of the listing. -/
theorem query_listed_singleton {record : String × ByteArray}
    (h : Store.records store = .ok [record]) (now : Instant) (format : Format) (limit : Nat) :
    Log.query wording now (listed format limit) store =
      (.ofText (shown wording now format (loaded record)), store) := by
  rw [query_listed wording h, lastOf_singleton, List.map_singleton, String.join_cons,
    String.join_nil, String.append_empty]

/-- A store whose records are those of a map is listed record by record. -/
theorem showsEachAlone_of_holds [MappedStore σ] {m : SortedMap ByteArray}
    (h : MappedStore.Holds store m) {alone : String × ByteArray → σ}
    (halone : ∀ record ∈ m.entries, MappedStore.Holds (alone record) (.ofList [record]))
    (now : Instant) (format : Format) (limit : Nat) :
    ShowsEachAlone wording now format limit store alone := by
  obtain ⟨skipped, hsplit⟩ := lastOf_suffix limit m.entries
  -- The last records are records of the map, each of which can be alone in a store.
  have hsingle : ∀ record ∈ lastOf limit m.entries,
      Log.query wording now (listed format limit) (alone record) =
        (.ofText (shown wording now format (loaded record)), alone record) := by
    intro record hrecord
    have hmem := (lastOf_suffix limit m.entries).mem hrecord
    exact query_listed_singleton wording (MappedStore.records (halone record hmem)) now format limit
  refine ⟨m.entries, skipped, lastOf limit m.entries, MappedStore.records h, m.ascending,
    hsplit.symm, length_lastOf limit m.entries, ?_, fun record hrecord => ?_⟩
  · rw [query_listed wording (MappedStore.records h)]
    congr 3
    apply List.map_congr_left
    intro record hrecord
    rw [hsingle record hrecord]
    rfl
  · exact ⟨_, isWhole_shown wording now format record, hsingle record hrecord⟩

end Store

/-- A record never affects the others in a listing. A store in memory may hold any bytes under any
keys, and a directory any bytes under keys that it takes. Then every listing goes through without
error and leaves the store as it was. It consists of what the same query shows of each of the last
records in order of key, where each is alone in a store: the execution to its end, or why the bytes
are none. -/
theorem listing_shows_each_alone (now : Instant) (format : Format) (limit : Nat) :
    (∀ store : Memory,
      ShowsEachAlone wording now format limit store fun record => ⟨.ofList [record]⟩) ∧
    ∀ (store : Directory) (m : SortedMap ByteArray), store.Holds m →
      ShowsEachAlone wording now format limit store fun record =>
        Directory.absent.place (Directory.fileName record.1) (.file record.2) := by
  constructor
  · intro store
    have hstore : MappedStore.Holds store store.entries := rfl
    exact showsEachAlone_of_holds wording hstore (fun record _ => rfl) now format limit
  · intro store m h
    have hstore : MappedStore.Holds store m := h
    refine showsEachAlone_of_holds wording hstore (fun record hrecord => ?_) now format limit
    have htakes := h.takes record.1 record.2 (SortedMap.get?_eq_some_iff.mpr hrecord)
    exact (Directory.holds_empty (d := .absent) rfl).place htakes record.2

/-- A record without fields, bytes that are no record, a record, and a record whose identity is
none. -/
private def mixed : List (String × ByteArray) :=
  [("01", "\x7b\x7d".toUTF8),
    ("01A", "oops".toUTF8),
    ("01B", ("\x7b\"id\":\"01ARZ3NDEKTSV4RRFFQ69G5FAV\"," ++
      "\"commands\":[\x7b\"line\":\"stop vm id=i-1\"\x7d]\x7d").toUTF8),
    ("01C", "[\"here\"]".toUTF8)]

/-- A directory with these records. -/
private def mixedDirectory : Directory :=
  mixed.foldl (fun d record => d.place (Directory.fileName record.1) (.file record.2)) .absent

/-- What is said of a text that does not begin as a value of JSON does. -/
private def unexpected : Wording := fun _ => "expected value at line 1 column 1"

/-- The record between two corrupt ones is listed, and so are the reasons why these are no
executions. -/
theorem listing_shows_each_alone_mixed :
    mixedDirectory.Holds (.ofList mixed) ∧
    ShowsEachAlone unexpected ⟨0⟩ .short 3 mixedDirectory (fun record =>
      Directory.absent.place (Directory.fileName record.1) (.file record.2)) ∧
    (Log.query unexpected ⟨0⟩ (listed .short 3) mixedDirectory).1 =
      .ofText ("Template '01A' in error: cannot decode template execution: " ++
        "expected value at line 1 column 1\n" ++
        "01ARZ3NDEKTSV4RRFFQ69G5FAV OK - stop vm (0 seconds ago)\n" ++
        "Template '01C' in error: cannot decode template execution: " ++
        "invalid execution id 'here': invalid length\n") := by
  have htakes : ∀ record ∈ mixed, Directory.Takes record.1 := by decide
  have hholds : mixedDirectory.Holds (.ofList mixed) := by
    have hempty := Directory.holds_empty (d := .absent) rfl
    simp only [mixed, List.forall_mem_cons] at htakes
    obtain ⟨hfirst, hsecond, hthird, hfourth, -⟩ := htakes
    exact (((hempty.place hfirst _).place hsecond _).place hthird _).place hfourth _
  exact ⟨hholds, (listing_shows_each_alone unexpected ⟨0⟩ .short 3).2 _ _ hholds,
    by decide +kernel⟩

end Log

end Runbook
