import Runbook.Log
import Runbook.Proofs.Identity.Order
import Runbook.Proofs.Record.Decoding

/-!
# The log in order of time

Listings go over records in order of key, and the key of a record is the identity of its execution,
whose upper bits tell when that was created. So a log lists what was created earlier first, as far
as the texts of identities sort as their numbers. Those that are written for identities do. A record
may hold another text, in letters of the other case or with bits that are lost in reading, and is
then listed where its text belongs and not its time.

## Main results

* `Execution.exists_instant_of_decode`: an execution that is loaded was created at some instant;
* `Log.lists_by_creation`: identities in order have instants in order;
* `Log.misspelled_out_of_order`: that is not so for letters in both cases and for lost bits.
-/

namespace Runbook

/-- An execution that is loaded was created at the instant of the identity that its text stands
for. -/
theorem Execution.exists_instant_of_decode {bytes : ByteArray} {e : Execution}
    (h : decode bytes = .ok e) :
    ∃ identity, Identity.parse e.id = .ok identity ∧ e.instant = .ok identity.instant := by
  obtain ⟨identity, hidentity⟩ := (isWellFormed_of_decode h).identity
  refine ⟨identity, hidentity, ?_⟩
  rw [instant, hidentity]
  rfl

namespace Log

/-- The first execution was not created later than the second one. -/
def IsNotLater (e e' : Execution) : Prop :=
  ∃ t t', e.instant = .ok t ∧ e'.instant = .ok t' ∧ t.millis ≤ t'.millis

/-- Executions that are loaded are in order of time if their identities are in order, are written in
letters of one case and lose no bits. -/
theorem isNotLater_of_lt {bytes bytes' : ByteArray} {e e' : Execution}
    (h : Execution.decode bytes = .ok e) (h' : Execution.decode bytes' = .ok e')
    (hrange : Identity.IsInRange e.id) (hrange' : Identity.IsInRange e'.id)
    (halike : Identity.AreAlike e.id e'.id) (hlt : e.id < e'.id) : IsNotLater e e' := by
  obtain ⟨i, hi, hinstant⟩ := Execution.exists_instant_of_decode h
  obtain ⟨j, hj, hinstant'⟩ := Execution.exists_instant_of_decode h'
  have hvalue : i.value < j.value := Identity.value_lt_of_lt hi hj hrange hrange' halike hlt
  exact ⟨_, _, hinstant, hinstant', Identity.millis_le_of_le (Nat.le_of_lt hvalue)⟩

/-- Where each record is that of an execution under its identity, as it is written, the log is
loaded in order of time. -/
theorem pairwise_loaded {σ : Type} [Store σ] [MappedStore σ] {store : σ} {m : SortedMap ByteArray}
    (h : MappedStore.Holds store m)
    (hrecords : ∀ record ∈ m.entries, ∃ (i : Identity) (e : Execution),
      Execution.decode record.2 = .ok e ∧ e.id = i.text ∧ record.1 = i.text) :
    ∃ loaded, loadAll store = .ok loaded ∧ loaded.Pairwise fun l l' =>
      ∃ e e', l.execution = .ok e ∧ l'.execution = .ok e' ∧ IsNotLater e e' := by
  refine ⟨m.entries.map loaded, by rw [loadAll, MappedStore.records h], ?_⟩
  rw [List.pairwise_map]
  refine (List.pairwise_map.mp m.ascending).imp_of_mem fun {r r'} hr hr' hlt => ?_
  obtain ⟨i, e, he, hid, hkey⟩ := hrecords r hr
  obtain ⟨j, e', he', hid', hkey'⟩ := hrecords r' hr'
  rw [hkey, hkey'] at hlt
  refine ⟨e, e', he, he', isNotLater_of_lt he he' ?_ ?_ ?_ ?_⟩
  · rw [hid]
    exact i.isInRange_text
  · rw [hid']
    exact j.isInRange_text
  · rw [hid, hid']
    exact i.areAlike_text j
  · rwa [hid, hid']

/-- Listing in order of key is listing in order of time, for the texts that are written for
identities. Of any two executions that are loaded, the one whose identity sorts first was not
created later, if both identities are written in letters of one case and lose no bits in reading.
The text of an identity, which is read as that identity, is in capitals and loses nothing, and it is
the only such text; so a log is loaded in order of time if its records are under such texts. -/
theorem lists_by_creation {σ : Type} [Store σ] [MappedStore σ] :
    (∀ {bytes bytes' : ByteArray} {e e' : Execution}, Execution.decode bytes = .ok e →
      Execution.decode bytes' = .ok e' → Identity.IsInRange e.id → Identity.IsInRange e'.id →
        Identity.AreAlike e.id e'.id → e.id < e'.id → IsNotLater e e') ∧
    (∀ {text : String} {i : Identity}, Identity.parse text = .ok i →
      (text = i.text ↔ (∀ c ∈ text.toList, c.isLower = false) ∧ Identity.IsInRange text)) ∧
    (∀ i : Identity, Identity.parse i.text = .ok i) ∧
    ∀ {store : σ} {m : SortedMap ByteArray}, MappedStore.Holds store m →
      (∀ record ∈ m.entries, ∃ (i : Identity) (e : Execution),
        Execution.decode record.2 = .ok e ∧ e.id = i.text ∧ record.1 = i.text) →
      ∃ loaded, loadAll store = .ok loaded ∧ loaded.Pairwise fun l l' =>
        ∃ e e', l.execution = .ok e ∧ l'.execution = .ok e' ∧ IsNotLater e e' :=
  ⟨isNotLater_of_lt, Identity.eq_text_iff, Identity.parse_text, pairwise_loaded⟩

/-- A record of an execution that consists of its identity. -/
private def recordOf (id : String) : ByteArray :=
  ("\x7b\"id\":\"" ++ id ++ "\"\x7d").toUTF8

/-- The execution that such a record stands for. -/
private def namedBy (id : String) : Execution :=
  ⟨id, "", "", "", "", .empty, .ofCommands []⟩

/-- Two records in capitals, the later one put first. -/
private def chronicle : List (String × ByteArray) :=
  [("01BX5ZZKBKACTAV9WEVGEMMVRZ", recordOf "01BX5ZZKBKACTAV9WEVGEMMVRZ"),
    ("01ARZ3NDEKTSV4RRFFQ69G5FAV", recordOf "01ARZ3NDEKTSV4RRFFQ69G5FAV")]

/-- Of two executions with identities in small letters the one that sorts first is the earlier
one. A log that holds both in capitals is loaded in order of time, whichever was put first. -/
theorem lists_by_creation_small_letters :
    Execution.decode (recordOf "01arz3ndektsv4rrffq69g5fav") =
        .ok (namedBy "01arz3ndektsv4rrffq69g5fav") ∧
      Execution.decode (recordOf "01bx5zzkbkactav9wevgemmvrz") =
        .ok (namedBy "01bx5zzkbkactav9wevgemmvrz") ∧
      IsNotLater (namedBy "01arz3ndektsv4rrffq69g5fav") (namedBy "01bx5zzkbkactav9wevgemmvrz") ∧
      ∃ loaded, loadAll (⟨.ofList chronicle⟩ : Memory) = .ok loaded ∧
        loaded.map Loaded.key = ["01ARZ3NDEKTSV4RRFFQ69G5FAV", "01BX5ZZKBKACTAV9WEVGEMMVRZ"] ∧
        loaded.Pairwise fun l l' =>
          ∃ e e', l.execution = .ok e ∧ l'.execution = .ok e' ∧ IsNotLater e e' := by
  have hearly : Execution.decode (recordOf "01arz3ndektsv4rrffq69g5fav") =
      .ok (namedBy "01arz3ndektsv4rrffq69g5fav") := by decide +kernel
  have hlate : Execution.decode (recordOf "01bx5zzkbkactav9wevgemmvrz") =
      .ok (namedBy "01bx5zzkbkactav9wevgemmvrz") := by decide +kernel
  obtain ⟨hordered, hwritten, -, hloaded⟩ := lists_by_creation (σ := Memory)
  -- Texts in capitals that lose no bits are those of identities.
  have hrecord {id : String} (hdecode : Execution.decode (recordOf id) = .ok (namedBy id))
      (hparse : ∃ i, Identity.parse id = .ok i) (hcapitals : id.toList.all (!·.isLower))
      (hrange : Identity.IsInRange id) : ∃ (i : Identity) (e : Execution),
        Execution.decode (recordOf id) = .ok e ∧ e.id = i.text ∧ id = i.text := by
    obtain ⟨i, hi⟩ := hparse
    have htext : id = i.text := (hwritten hi).mpr ⟨by simpa using hcapitals, hrange⟩
    exact ⟨i, namedBy id, hdecode, htext, htext⟩
  have hentries : (SortedMap.ofList chronicle).entries = chronicle.reverse := rfl
  have hholds : MappedStore.Holds (⟨.ofList chronicle⟩ : Memory) (.ofList chronicle) := rfl
  obtain ⟨loaded, hall, hpairwise⟩ := hloaded hholds (by
    rw [hentries]
    exact List.forall_mem_cons.mpr
      ⟨hrecord (by decide +kernel) ⟨_, rfl⟩ (by decide) (by decide),
        List.forall_mem_singleton.mpr
          (hrecord (by decide +kernel) ⟨_, rfl⟩ (by decide) (by decide))⟩)
  have hkeys : (SortedMap.ofList chronicle).entries.map Log.loaded = loaded := Except.ok.inj hall
  refine ⟨hearly, hlate, ?_, loaded, hall, by rw [← hkeys, hentries]; rfl, hpairwise⟩
  exact hordered hearly hlate (by decide) (by decide) (by decide) (by decide)

/-- The records of the two identities are loaded, the first one sorts before the second one, and the
instant of the first one is later. -/
private def AreOutOfOrder (id id' : String) : Prop :=
  ∃ e e' t t', Execution.decode (recordOf id) = .ok e ∧ Execution.decode (recordOf id') = .ok e' ∧
    e.id = id ∧ e'.id = id' ∧ id < id' ∧ e.instant = .ok t ∧ e'.instant = .ok t' ∧
    t'.millis < t.millis

/-- An identity in small letters sorts behind one in capitals that was created later, and one that
is out of range has lost its upper bits and is read as the earliest of all. -/
theorem misspelled_out_of_order :
    AreOutOfOrder "01BX5ZZKBKACTAV9WEVGEMMVRZ" "01arz3ndektsv4rrffq69g5fav" ∧
      AreOutOfOrder "7ZZZZZZZZZZZZZZZZZZZZZZZZZ" "80000000000000000000000000" :=
  ⟨⟨namedBy _, namedBy _, ⟨1508808576371⟩, ⟨1469922850259⟩, by decide +kernel, by decide +kernel,
      rfl, rfl, by decide, by decide +kernel, by decide +kernel, by decide⟩,
    ⟨namedBy _, namedBy _, ⟨281474976710655⟩, ⟨0⟩, by decide +kernel, by decide +kernel,
      rfl, rfl, by decide, by decide +kernel, by decide +kernel, by decide⟩⟩

end Log

end Runbook
