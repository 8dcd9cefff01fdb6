import Mathlib.Data.List.Induction
import Runbook.Log
import Runbook.Proofs.Identity
import Runbook.Proofs.Record.Reload

/-!
# The log over time

A program saves executions, loads them, and asks queries that list or delete them. Whatever it did
with a log that was empty, the log holds what was saved last under each identity that was not
deleted since, and nothing else.

## Main definitions

* `Query.Removes`: the query asks for the record of an identity to be deleted;
* `Log.Operation`: what a program does with its log;
* `Log.kept`: the executions that operations keep;
* `Log.Keeps`: the execution that was saved last under an identity and not deleted since;
* `Log.IsConsistent`: what a log answers if it holds what the operations keep.

## Main results

* `Log.get?_kept`: an execution is kept if it was saved last and not deleted since;
* `Log.holds_query`: a query does to a store what it does to a map;
* `Log.holds_performAll`: so do operations;
* `Log.stays_consistent`: logs in memory and in directories stay consistent.
-/

namespace Runbook

/-! ## Queries that delete -/

namespace Query

variable {α β : Type} (q : Query)

/-- The query asks for the record of an identity to be deleted. -/
def Removes (id : String) : Prop :=
  q.only = none ∧ (q.deleteAll = true ∨ q.delete = some id)

/-- What a query leaves of a map. -/
def remaining (m : SortedMap α) : SortedMap α :=
  match q.only, q.deleteAll, q.delete with
  | some _, _, _ => m
  | none, true, _ => .empty
  | none, false, some id => m.erase id
  | none, false, none => m

theorem remaining_map (f : α → β) (m : SortedMap α) :
    q.remaining (m.map f) = (q.remaining m).map f := by
  rw [remaining, remaining]
  split
  · rfl
  · rfl
  · exact (m.map_erase f _).symm
  · rfl

/-- A query leaves what it does not ask to be deleted. -/
theorem get?_remaining {m : SortedMap α} {id : String} {value : α} :
    (q.remaining m).get? id = some value ↔ m.get? id = some value ∧ ¬q.Removes id := by
  rw [remaining, Removes]
  cases q.only with
  | some _ => simp
  | none =>
    cases q.deleteAll with
    | true => simp
    | false =>
      cases q.delete with
      | some other => simp [SortedMap.get?_erase, eq_comm (a := id), and_comm]
      | none => simp

end Query

namespace Log

/-- What a program does with its log. -/
inductive Operation where
  /-- An execution is saved. -/
  | save (e : Execution)
  /-- The execution of an identity is loaded. -/
  | load (id : String)
  /-- A query is answered as of an instant, in some words on bytes that are no record. -/
  | query (wording : Wording) (now : Instant) (q : Query)

namespace Operation

/-- The operation saves or deletes the record of an identity. -/
def Changes (id : String) : Operation → Prop
  | .save e => e.id = id
  | .load _ => False
  | .query _ _ q => q.Removes id

/-- The store after the operation. -/
def perform {σ : Type} [Store σ] (store : σ) : Operation → σ
  | .save e => (Log.save store e).2
  | .load _ => store
  | .query wording now q => (Log.query wording now q store).2

/-- The executions that are kept after the operation. -/
def keep (log : SortedMap Execution) : Operation → SortedMap Execution
  | .save e => log.insert e.id e
  | .load _ => log
  | .query _ _ q => q.remaining log

end Operation

/-- The store after operations. -/
def performAll {σ : Type} [Store σ] (store : σ) (operations : List Operation) : σ :=
  operations.foldl Operation.perform store

/-- The executions that operations keep, by identity. -/
def kept (operations : List Operation) : SortedMap Execution :=
  operations.foldl Operation.keep .empty

/-- The execution was saved under the identity, which was neither saved again nor deleted since. -/
def Keeps (operations : List Operation) (id : String) (e : Execution) : Prop :=
  ∃ before after, operations = before ++ .save e :: after ∧ e.id = id ∧
    ∀ o ∈ after, ¬o.Changes id

/-- The query that lists the identities of all executions. -/
def identities : Query := ⟨.identity, 0, none, false, none⟩

/-- What a store answers whose records are the executions that operations keep. -/
structure IsConsistent {σ : Type} [Store σ] (takes : String → Prop) (operations : List Operation)
    (store : σ) (records : List (String × ByteArray)) : Prop where
  /-- These are the records. -/
  records_eq : Store.records store = .ok records
  /-- Each key is there once, in ascending order. -/
  ascending : (records.map Prod.fst).Pairwise (· < ·)
  /-- The keys are the identities under which executions are kept. -/
  mem_keys_iff : ∀ id, id ∈ records.map Prod.fst ↔ ∃ e, Keeps operations id e
  /-- Each record is read as the execution that is kept under its key, which is the identity. -/
  decode_record : ∀ record ∈ records, ∃ e, Keeps operations record.1 e ∧
    Execution.decode record.2 = .ok e.reloaded ∧ e.reloaded.id = record.1
  /-- The keys are listed as the identities. -/
  listing : ∀ wording now, Log.query wording now identities store =
    (.ofText (String.join (records.map fun record => record.1 ++ "\n")), store)
  /-- What is kept is loaded. -/
  load : ∀ id e, Keeps operations id e → Log.load store id = .ok e.reloaded
  /-- Nothing else is loaded, and it is unknown if the store could take it. -/
  load_other : ∀ id, (¬∃ e, Keeps operations id e) →
    ∃ error, Log.load store id = .error error ∧ (takes id → error = .unknown id)
  /-- An execution that can be reloaded is saved. -/
  save : ∀ e : Execution, e.IsReloadable → (Log.save store e).1 = .ok ()
  /-- A query that fails changes nothing. -/
  query_failed : ∀ wording now q error, (Log.query wording now q store).1.error = some error →
    (Log.query wording now q store).2 = store

/-! ## What operations keep -/

/-- A last operation saves the execution that is kept, or keeps the one that was kept. -/
theorem keeps_concat {operations : List Operation} {o : Operation} {id : String} {e : Execution} :
    Keeps (operations ++ [o]) id e ↔
      (o = .save e ∧ e.id = id) ∨ (Keeps operations id e ∧ ¬o.Changes id) := by
  constructor
  · rintro ⟨before, after, hsplit, hid, hafter⟩
    rcases after.eq_nil_or_concat with rfl | ⟨after, last, rfl⟩
    · obtain ⟨-, hlast⟩ := List.append_inj' hsplit rfl
      exact .inl ⟨List.singleton_inj.mp hlast, hid⟩
    · rw [List.concat_eq_append, ← List.cons_append, ← List.append_assoc] at hsplit
      obtain ⟨hoperations, hlast⟩ := List.append_inj' hsplit rfl
      cases List.singleton_inj.mp hlast
      rw [List.concat_eq_append] at hafter
      refine .inr ⟨⟨before, after, hoperations, hid, fun o ho => ?_⟩, ?_⟩
      · exact hafter o (List.mem_append_left _ ho)
      · exact hafter o (List.mem_append_right _ List.mem_cons_self)
  · rintro (⟨rfl, hid⟩ | ⟨⟨before, after, rfl, hid, hafter⟩, ho⟩)
    · exact ⟨operations, [], rfl, hid, fun _ hnone => absurd hnone List.not_mem_nil⟩
    · refine ⟨before, after ++ [o], by simp, hid, ?_⟩
      rw [List.forall_mem_append, List.forall_mem_singleton]
      exact ⟨hafter, ho⟩

/-- The map after an operation holds the execution that it saves, and the others that it does not
delete. -/
theorem Operation.get?_keep {log : SortedMap Execution} {o : Operation} {id : String}
    {e : Execution} : (o.keep log).get? id = some e ↔
      (o = .save e ∧ e.id = id) ∨ (log.get? id = some e ∧ ¬o.Changes id) := by
  cases o with
  | save saved =>
    rw [keep, SortedMap.get?_insert, Changes, Operation.save.injEq]
    by_cases hid : id = saved.id
    · -- What is saved takes the place of what was kept under the identity.
      subst hid
      simp only [if_true, Option.some.injEq, not_true, and_false, or_false]
      exact ⟨fun h => ⟨h, h ▸ rfl⟩, And.left⟩
    · have hne (h : saved = e) : e.id ≠ id := fun h' => hid (h ▸ h'.symm)
      simp only [if_neg hid, Ne.symm hid, not_false_iff, and_true]
      exact ⟨.inr, fun h => h.resolve_left fun h => hne h.1 h.2⟩
  | load other => simp [keep, Changes]
  | query wording now q => simp [keep, Changes, q.get?_remaining]

/-- An execution is kept if it was saved last under its identity and not deleted since. -/
theorem get?_kept {operations : List Operation} {id : String} {e : Execution} :
    (kept operations).get? id = some e ↔ Keeps operations id e := by
  induction operations using List.reverseRecOn with
  | nil => simp [kept, Keeps]
  | append_singleton operations o ih =>
    rw [kept] at ih ⊢
    rw [List.foldl_append, List.foldl_cons, List.foldl_nil, Operation.get?_keep, ih, keeps_concat]

/-! ## One operation -/

section Step

variable {σ : Type} [Store σ] [MappedStore σ] {store : σ} {m : SortedMap ByteArray}

/-- A deletion removes the record under a key, or there is none and nothing changes. -/
theorem delete_cases (h : MappedStore.Holds store m) (key : String) :
    (∃ store', Store.delete store key = (.ok (), store') ∧
      MappedStore.Holds store' (m.erase key)) ∨
    (m.get? key = none ∧ ∃ error, Store.delete store key = (.error error, store)) := by
  cases hbytes : m.get? key with
  | some bytes => exact .inl (MappedStore.delete h hbytes)
  | none =>
    by_cases hkey : MappedStore.Takes σ key
    · exact .inr ⟨rfl, _, MappedStore.delete_of_none h hkey hbytes⟩
    · obtain ⟨error, -, hdelete⟩ := MappedStore.refuses store hkey
      exact .inr ⟨rfl, error, hdelete⟩

/-- What is loaded is read from the record under the identity. -/
theorem load_eq (h : MappedStore.Holds store m) {id : String} (hid : MappedStore.Takes σ id) :
    Log.load store id = (m.get? id).elim (.error (.unknown id))
      fun bytes => (Execution.decode bytes).mapError .decode := by
  rw [Log.load, MappedStore.get h hid]
  cases m.get? id <;> rfl

/-- A query does to a store what it does to a map, and one that fails changes nothing. -/
theorem holds_query (h : MappedStore.Holds store m) (wording : Wording) (now : Instant)
    (q : Query) :
    MappedStore.Holds (Log.query wording now q store).2 (q.remaining m) ∧
      ∀ error, (Log.query wording now q store).1.error = some error →
        (Log.query wording now q store).2 = store := by
  rw [Log.query, Query.remaining]
  cases q.only with
  | some id =>
    -- A single execution is shown or not; the store stays in both cases.
    cases hload : Log.load store id <;> simpa [hload] using h
  | none =>
    cases q.deleteAll with
    | true =>
      obtain ⟨store', hdelete, hempty⟩ := MappedStore.deleteAll h
      simpa [hdelete, Output.ofText] using hempty
    | false =>
      cases q.delete with
      | some id =>
        rcases delete_cases h id with ⟨store', hdelete, herase⟩ | ⟨hnone, error, hdelete⟩
        · simpa [hdelete, Output.ofText] using herase
        · simpa [hdelete, SortedMap.erase_of_get?_eq_none hnone] using h
      | none => cases hall : Log.loadAll store <;> simpa [hall] using h

/-- So does any operation, if the store takes what is saved. -/
theorem holds_perform {log : SortedMap Execution}
    (h : MappedStore.Holds store (log.map Execution.encode)) {o : Operation}
    (hsaved : ∀ e, o = .save e → MappedStore.Takes σ e.id) :
    MappedStore.Holds (o.perform store) ((o.keep log).map Execution.encode) := by
  cases o with
  | save e =>
    obtain ⟨store', hput, hstore⟩ := MappedStore.put e.encode h (hsaved e rfl)
    rw [Operation.perform, Log.save, hput, Operation.keep, SortedMap.map_insert]
    exact hstore
  | load id => exact h
  | query wording now q =>
    rw [Operation.keep, ← Query.remaining_map]
    exact (holds_query h wording now q).1

/-- So do operations one after the other. -/
theorem holds_performAll {operations : List Operation} {log : SortedMap Execution}
    (h : MappedStore.Holds store (log.map Execution.encode))
    (hsaved : ∀ e, .save e ∈ operations → MappedStore.Takes σ e.id) :
    MappedStore.Holds (performAll store operations)
      ((operations.foldl Operation.keep log).map Execution.encode) := by
  induction operations generalizing store log with
  | nil => exact h
  | cons o rest ih =>
    refine ih (holds_perform h fun e he => ?_) fun e he => ?_
    · exact hsaved e (he ▸ List.mem_cons_self)
    · exact hsaved e (List.mem_cons_of_mem _ he)

end Step

/-! ## The log after operations -/

/-- What is kept was saved. -/
theorem mem_of_keeps {operations : List Operation} {id : String} {e : Execution}
    (h : Keeps operations id e) : .save e ∈ operations ∧ e.id = id := by
  obtain ⟨before, after, rfl, hid, -⟩ := h
  exact ⟨by simp, hid⟩

/-- The listing of identities has one line for each record, if each is read as an execution whose
identity is its key. -/
theorem query_identities {σ : Type} [Store σ] {store : σ} {records : List (String × ByteArray)}
    (hrecords : Store.records store = .ok records)
    (hdecode : ∀ record ∈ records, ∃ e, Execution.decode record.2 = .ok e ∧ e.id = record.1)
    (wording : Wording) (now : Instant) : Log.query wording now identities store =
      (.ofText (String.join (records.map fun record => record.1 ++ "\n")), store) := by
  have hshown : ∀ record ∈ records,
      (shown wording now .identity ∘ loaded) record = record.1 ++ "\n" := by
    intro record hrecord
    obtain ⟨e, he, hid⟩ := hdecode record hrecord
    simp only [Function.comp_apply, shown, loaded, he, Execution.shown, Output.ofText, hid]
  have hloaded : loadAll store = .ok (records.map loaded) := by rw [loadAll, hrecords]
  simp only [Log.query, identities, Bool.false_eq_true, if_false, hloaded, lastOf, if_true, listing,
    List.map_map, List.map_congr_left hshown]

/-- A store that holds what operations keep answers as they tell. -/
theorem isConsistent_of_holds {σ : Type} [Store σ] [MappedStore σ] {store : σ}
    {operations : List Operation} (hsaved : ∀ e, .save e ∈ operations → e.IsReloadable)
    (htakes : ∀ e : Execution, e.IsReloadable → MappedStore.Takes σ e.id)
    (h : MappedStore.Holds store ((kept operations).map Execution.encode)) :
    IsConsistent (MappedStore.Takes σ) operations store
      ((kept operations).map Execution.encode).entries := by
  have hget {id : String} {bytes : ByteArray} :
      ((kept operations).map Execution.encode).get? id = some bytes ↔
        ∃ e, Keeps operations id e ∧ e.encode = bytes := by
    rw [SortedMap.get?_map, Option.map_eq_some_iff]
    simp only [get?_kept]
  have hreloadable {id : String} {e : Execution} (he : Keeps operations id e) : e.IsReloadable :=
    hsaved e (mem_of_keeps he).1
  generalize (kept operations).map Execution.encode = records at h hget
  have hdecode : ∀ record ∈ records.entries, ∃ e, Keeps operations record.1 e ∧
      Execution.decode record.2 = .ok e.reloaded ∧ e.reloaded.id = record.1 := by
    intro record hrecord
    obtain ⟨e, he, hbytes⟩ := hget.mp (SortedMap.get?_eq_some_iff.mpr hrecord)
    exact ⟨e, he, hbytes ▸ Execution.decode_encode (hreloadable he), (mem_of_keeps he).2⟩
  exact {
    records_eq := MappedStore.records h
    ascending := records.ascending
    mem_keys_iff := fun id => by
      refine SortedMap.mem_keys_iff.trans ⟨?_, ?_⟩
      · rintro ⟨bytes, hbytes⟩
        obtain ⟨e, he, -⟩ := hget.mp hbytes
        exact ⟨e, he⟩
      · rintro ⟨e, he⟩
        exact ⟨e.encode, hget.mpr ⟨e, he, rfl⟩⟩
    decode_record := hdecode
    listing := query_identities (MappedStore.records h) fun record hrecord => by
      obtain ⟨e, -, he⟩ := hdecode record hrecord
      exact ⟨e.reloaded, he⟩
    load := fun id e he => by
      have hid : MappedStore.Takes σ id := (mem_of_keeps he).2 ▸ htakes e (hreloadable he)
      rw [load_eq h hid, hget.mpr ⟨e, he, rfl⟩, Option.elim_some,
        Execution.decode_encode (hreloadable he)]
      rfl
    load_other := fun id hnone => by
      by_cases hid : MappedStore.Takes σ id
      · have hempty : records.get? id = none := by
          refine Option.eq_none_iff_forall_ne_some.mpr fun bytes hbytes => ?_
          obtain ⟨e, he, -⟩ := hget.mp hbytes
          exact hnone ⟨e, he⟩
        refine ⟨.unknown id, ?_, fun _ => rfl⟩
        rw [load_eq h hid, hempty, Option.elim_none]
      · obtain ⟨error, hfailed, -⟩ := MappedStore.refuses store hid
        exact ⟨.ofRequest id error, by rw [Log.load, hfailed], fun h => absurd h hid⟩
    save := fun e he => by
      obtain ⟨store', hput, -⟩ := MappedStore.put e.encode h (htakes e he)
      rw [Log.save, hput]
      rfl
    query_failed := fun wording now q => (holds_query h wording now q).2 }

/-- The log stays consistent. From a log without records, in memory or in a directory in which
nothing is named as a record, a program saves executions that can be reloaded, loads executions, and
asks queries, in any order. Then the keys are the identities that were saved and not deleted
since, and each record is read as the reload of what was saved last under its key. The identities
are listed in ascending order, and what is listed is loaded. Any other key is unknown: in memory
without exception, in a directory if it makes the name of a file. A query that fails changes
nothing. -/
theorem stays_consistent {operations : List Operation}
    (hsaved : ∀ e, .save e ∈ operations → e.IsReloadable) :
    (∃ records, IsConsistent (fun _ => True) operations (performAll Memory.empty operations)
      records) ∧
    ∀ d : Directory, d.recordItems = [] →
      ∃ records, IsConsistent Directory.Takes operations (performAll d operations) records := by
  constructor
  · have hholds : MappedStore.Holds Memory.empty
        ((SortedMap.empty : SortedMap Execution).map Execution.encode) := rfl
    exact ⟨_, isConsistent_of_holds hsaved (fun _ _ => trivial)
      (holds_performAll hholds fun _ _ => trivial)⟩
  · intro d hd
    have htakes (e : Execution) (he : e.IsReloadable) : Directory.Takes e.id := by
      obtain ⟨identity, hidentity⟩ := he.identity
      exact Identity.takes_of_parse hidentity
    have hholds : MappedStore.Holds d
        ((SortedMap.empty : SortedMap Execution).map Execution.encode) :=
      Directory.holds_empty hd
    exact ⟨_, isConsistent_of_holds hsaved htakes
      (holds_performAll hholds fun e he => htakes e (hsaved e he))⟩

/-- A machine that was stopped. -/
private def stoppedMachine : Template :=
  .ofCommands [(Command.new "stop" "vm" (.ofList [("id", .literal (.text "i-1"))])).withOutcome
    (.success (.string "i-1"))]

/-- The machine was stopped under an identity at the wish of an author. -/
private def stopped (id author : String) : Execution :=
  ⟨id, author, "stop vm id=i-1", "", "", .empty, stoppedMachine⟩

private theorem isReloadable_stopped {id : String} {identity : Identity}
    (h : Identity.parse id = .ok identity) (author : String) :
    (stopped id author).IsReloadable where
  identity := ⟨identity, h⟩
  commands := (by decide : ∀ c ∈ stoppedMachine.commands, c.IsWellFormed)
  fillers := (by decide : Record.FillersAreReadable .empty)

/-- An identity in capitals. -/
private def capitals : String := "01ARZ3NDEKTSV4RRFFQ69G5FAV"

/-- The same identity in small letters, which is another key. -/
private def smallLetters : String := "01arz3ndektsv4rrffq69g5fav"

/-- Executions are saved under both keys, one of them again, and the other one is deleted. -/
private def savedTwice : List Operation :=
  [.save (stopped capitals "ann"), .save (stopped smallLetters "ann"),
    .save (stopped capitals "bob"),
    .query (fun _ => "expected value") ⟨0⟩ ⟨.full, 1, none, false, some smallLetters⟩,
    .load smallLetters]

/-- What was saved last is loaded, and what was deleted is unknown. -/
theorem stays_consistent_saved_twice :
    (∀ e, .save e ∈ savedTwice → e.IsReloadable) ∧
      Log.load (performAll Memory.empty savedTwice) capitals =
        .ok (stopped capitals "bob").reloaded ∧
      Log.load (performAll Directory.absent savedTwice) capitals =
        .ok (stopped capitals "bob").reloaded ∧
      Log.load (performAll Directory.absent savedTwice) smallLetters =
        .error (.unknown smallLetters) := by
  have hreloadable : ∀ e, .save e ∈ savedTwice → e.IsReloadable := by
    intro e he
    simp only [savedTwice, List.mem_cons, Operation.save.injEq, reduceCtorEq, List.not_mem_nil,
      or_false] at he
    rcases he with rfl | rfl | rfl
    · exact isReloadable_stopped rfl _
    · exact isReloadable_stopped rfl _
    · exact isReloadable_stopped rfl _
  obtain ⟨⟨_, hmemory⟩, hdirectory⟩ := stays_consistent hreloadable
  obtain ⟨_, hdirectory⟩ := hdirectory .absent rfl
  have hkept : Keeps savedTwice capitals (stopped capitals "bob") := by
    refine ⟨savedTwice.take 2, savedTwice.drop 3, rfl, rfl, ?_⟩
    simp [savedTwice, Operation.Changes, Query.Removes, capitals, smallLetters]
  have hdeleted : ¬∃ e, Keeps savedTwice smallLetters e := by
    rintro ⟨e, he⟩
    have hfound := get?_kept.mpr he
    simp [kept, savedTwice, Operation.keep, Query.remaining, SortedMap.get?_erase] at hfound
  obtain ⟨error, herror, hunknown⟩ := hdirectory.load_other smallLetters hdeleted
  refine ⟨hreloadable, hmemory.load _ _ hkept, hdirectory.load _ _ hkept, ?_⟩
  rw [herror, hunknown (by decide)]

/-- A key of one letter, over and over. -/
private def repeated (n : Nat) : String := String.ofList (List.replicate n 'a')

private theorem utf8ByteSize_repeated (n : Nat) : (repeated n).utf8ByteSize = n := by
  induction n with
  | zero => rfl
  | succ n ih =>
    rw [repeated] at ih ⊢
    rw [List.replicate_succ, String.ofList_cons, String.utf8ByteSize_append, ih]
    exact Nat.add_comm 1 n

private theorem isKey_repeated (n : Nat) : Directory.isKey (repeated (n + 1)) = true := by
  have hne : (repeated (n + 1)).isEmpty = false := by
    rw [String.isEmpty, utf8ByteSize_repeated]
    rfl
  rw [Directory.isKey, hne, repeated, String.toList_ofList, List.all_replicate]
  simp

private theorem fits_repeated (n : Nat) :
    Directory.fits (Directory.fileName (repeated n)) = decide (n + 5 ≤ 255) := by
  rw [Directory.fits, Directory.fileName, String.ofList_append, String.ofList_toList,
    String.utf8ByteSize_append, utf8ByteSize_repeated]
  rfl

/-- A directory does not look for a file whose name is too long. So a key that no execution was
saved under is not unknown there, once the directory exists. -/
theorem long_key_refused :
    (∀ e, .save e ∈ [Operation.save (stopped capitals "ann")] → e.IsReloadable) ∧
      Directory.isKey (repeated 251) = true ∧
      (¬∃ e, Keeps [.save (stopped capitals "ann")] (repeated 251) e) ∧
      Log.load (performAll Directory.absent [.save (stopped capitals "ann")]) (repeated 251) =
        .error (.access (repeated 251) (.file .nameTooLong)) := by
  have hkey : Directory.isKey (repeated 251) = true := isKey_repeated 250
  have hlong : Directory.fits (Directory.fileName (repeated 251)) = false := fits_repeated 251
  refine ⟨fun e he => ?_, hkey, ?_, ?_⟩
  · cases List.mem_singleton.mp he
    exact isReloadable_stopped rfl _
  · rintro ⟨e, he⟩
    obtain ⟨hsaved, hid⟩ := mem_of_keeps he
    cases List.mem_singleton.mp hsaved
    have hsize := utf8ByteSize_repeated 251
    rw [← hid] at hsize
    cases hsize
  · -- The directory exists once the execution is saved.
    have hget : Store.get (performAll Directory.absent [.save (stopped capitals "ann")])
        (repeated 251) = .error (.file .nameTooLong) := by
      show Directory.get (Directory.absent.place (Directory.fileName capitals)
        (.file (stopped capitals "ann").encode)) (repeated 251) = _
      simp only [Directory.get, Directory.place, hkey, hlong, Bool.not_true, Bool.false_eq_true,
        if_false]
    rw [Log.load, hget]
    rfl

end Log

end Runbook
