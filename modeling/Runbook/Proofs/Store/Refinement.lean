import Runbook.Proofs.Store.Contents

/-!
# Directories in place of memory

A program that talks to a store sees answers only. A store in a directory gives the answers that a
store in memory gives, request after request, as long as every file can be read and written. A
request under a key that cannot name a record is refused, and the directory stays as it was.

## Main definitions

* `Store.Request`, `Store.Answer`: what a program asks of a store, and what it is answered;
* `Store.after`, `Store.answers`: the store after some requests, and the answers to them.

## Main results

* `Store.Request.perform_eq_of_holds`: stores that hold the same records answer alike and hold the
  same records afterwards;
* `Directory.perform_cases`: what a directory does in place of a store in memory;
* `Directory.answers_as_memory`: a directory answers as a store in memory.
-/

namespace Runbook

/-! ## Requests and answers -/

namespace Store

/-- What a program asks of a store. -/
inductive Request where
  /-- Bytes are put under a key. -/
  | put (key : String) (bytes : ByteArray)
  /-- The bytes under a key are asked for. -/
  | get (key : String)
  /-- The record under a key is removed. -/
  | delete (key : String)
  /-- All records are removed. -/
  | deleteAll
  /-- All records are asked for. -/
  | records

/-- What a program is answered. -/
inductive Answer where
  /-- The request is refused. -/
  | refused (error : StoreError)
  /-- The request is met. -/
  | done
  /-- The bytes under the key. -/
  | found (bytes : ByteArray)
  /-- The number of records that were removed. -/
  | removed (count : Nat)
  /-- All keys with their bytes. -/
  | listed (records : List (String × ByteArray))

namespace Answer

/-- The answer that tells a result. -/
def ofResult {α : Type} (f : α → Answer) : Except StoreError α → Answer
  | .ok a => f a
  | .error error => .refused error

/-- A file could not be read or written. -/
def IsFault (a : Answer) : Prop :=
  ∃ fault, a = .refused (.file fault)

end Answer

variable {σ τ : Type} [Store σ] [Store τ]

namespace Request

/-- The key that a request is made under. -/
def key? : Request → Option String
  | .put key _ | .get key | .delete key => some key
  | .deleteAll | .records => none

/-- Whether a request is made under a key that can name a record, or under none. -/
def hasKey (r : Request) : Bool :=
  r.key?.all Directory.isKey

theorem hasKey_eq_isKey {r : Request} {key : String} (h : r.key? = some key) :
    r.hasKey = Directory.isKey key := by
  rw [hasKey, h]
  rfl

/-- The answer to a request, and the store after it. -/
def perform (store : σ) : Request → Answer × σ
  | .put key bytes => (Store.put store key bytes).map (.ofResult fun _ => .done) id
  | .get key => (.ofResult .found (Store.get store key), store)
  | .delete key => (Store.delete store key).map (.ofResult fun _ => .done) id
  | .deleteAll => (Store.deleteAll store).map (.ofResult .removed) id
  | .records => (.ofResult .listed (Store.records store), store)

/-- Stores that hold the same records answer alike, and hold the same records afterwards, if both
take the key. -/
theorem perform_eq_of_holds [MappedStore σ] [MappedStore τ] {store : σ} {other : τ}
    {m : SortedMap ByteArray} (h : MappedStore.Holds store m) (h' : MappedStore.Holds other m)
    {r : Request}
    (hkey : ∀ key, r.key? = some key → MappedStore.Takes σ key ∧ MappedStore.Takes τ key) :
    (r.perform store).1 = (r.perform other).1 ∧
      ∃ m', MappedStore.Holds (r.perform store).2 m' ∧ MappedStore.Holds (r.perform other).2 m' := by
  cases r with
  | put key bytes =>
    obtain ⟨after, hput, hafter⟩ := MappedStore.put bytes h (hkey key rfl).1
    obtain ⟨after', hput', hafter'⟩ := MappedStore.put bytes h' (hkey key rfl).2
    rw [perform, perform, hput, hput']
    exact ⟨rfl, _, hafter, hafter'⟩
  | get key =>
    rw [perform, perform, MappedStore.get h (hkey key rfl).1, MappedStore.get h' (hkey key rfl).2]
    exact ⟨rfl, m, h, h'⟩
  | delete key =>
    cases hbytes : m.get? key with
    | none =>
      rw [perform, perform, MappedStore.delete_of_none h (hkey key rfl).1 hbytes,
        MappedStore.delete_of_none h' (hkey key rfl).2 hbytes]
      exact ⟨rfl, m, h, h'⟩
    | some bytes =>
      obtain ⟨after, hdelete, hafter⟩ := MappedStore.delete h hbytes
      obtain ⟨after', hdelete', hafter'⟩ := MappedStore.delete h' hbytes
      rw [perform, perform, hdelete, hdelete']
      exact ⟨rfl, _, hafter, hafter'⟩
  | deleteAll =>
    obtain ⟨after, hdelete, hafter⟩ := MappedStore.deleteAll h
    obtain ⟨after', hdelete', hafter'⟩ := MappedStore.deleteAll h'
    rw [perform, perform, hdelete, hdelete']
    exact ⟨rfl, _, hafter, hafter'⟩
  | records =>
    rw [perform, perform, MappedStore.records h, MappedStore.records h']
    exact ⟨rfl, m, h, h'⟩

end Request

/-- The store after some requests. -/
def after (store : σ) (requests : List Request) : σ :=
  requests.foldl (fun store r => (r.perform store).2) store

/-- The answers to some requests, made one after another. -/
def answers (store : σ) : List Request → List Answer
  | [] => []
  | r :: rest => (r.perform store).1 :: answers (r.perform store).2 rest

@[simp]
theorem after_nil (store : σ) : after store [] = store := rfl

@[simp]
theorem after_cons (store : σ) (r : Request) (rest : List Request) :
    after store (r :: rest) = after (r.perform store).2 rest := rfl

/-- Later requests are answered by the store after the earlier ones. -/
theorem answers_append (store : σ) (earlier later : List Request) :
    answers store (earlier ++ later) =
      answers store earlier ++ answers (after store earlier) later := by
  induction earlier generalizing store with
  | nil => rfl
  | cons r rest ih => rw [List.cons_append, answers, answers, ih, after_cons, List.cons_append]

end Store

/-! ## One request -/

open Store

/-- In memory there are no files that could be at fault. -/
theorem Memory.not_isFault_perform (m : Memory) (r : Request) : ¬(r.perform m).1.IsFault := by
  rintro ⟨fault, hfault⟩
  cases r with
  | put key bytes => cases hfault
  | get key =>
    change Answer.ofResult .found (m.get key) = _ at hfault
    unfold Memory.get at hfault
    cases hbytes : m.entries.get? key <;> simp [hbytes, Answer.ofResult] at hfault
  | delete key =>
    change Answer.ofResult _ (m.delete key).1 = _ at hfault
    unfold Memory.delete at hfault
    cases hbytes : m.entries.get? key <;> simp [hbytes, Answer.ofResult] at hfault
  | deleteAll => cases hfault
  | records => cases hfault

namespace Directory

variable {d : Directory} {m : Memory} {r : Request} {key : String}

/-- Under a key that cannot name a record a request is refused, and nothing changes. -/
theorem perform_of_not_isKey (hr : r.key? = some key) (hkey : isKey key = false) :
    r.perform d = (.refused (.invalidKey key), d) := by
  have hget : d.get key = .error (.invalidKey key) := by rw [Directory.get, hkey]; rfl
  cases r with
  | put other bytes =>
    cases hr
    change Prod.map _ id (d.put key bytes) = _
    rw [Directory.put, hkey]
    rfl
  | get other =>
    cases hr
    change (Answer.ofResult Answer.found (d.get key), d) = _
    rw [hget]
    rfl
  | delete other =>
    cases hr
    change Prod.map _ id (d.delete key) = _
    rw [Directory.delete, hget]
    rfl
  | deleteAll => cases hr
  | records => cases hr

/-- Under a key whose file would have too long a name, either this is the answer, or there is no
directory yet and the answer is that there is no record, as in memory. -/
theorem perform_of_not_fits (h : d.Holds m.entries) (hr : r.key? = some key)
    (hkey : isKey key = true) (hlong : fits (fileName key) = false) :
    (r.perform d).1 = .refused (.file .nameTooLong) ∨
      ((r.perform d).1 = (r.perform m).1 ∧ (r.perform d).2.Holds (r.perform m).2.entries) := by
  -- There can be no record under such a key.
  have hnone : m.entries.get? key = none := by
    by_contra hfound
    obtain ⟨bytes, hbytes⟩ := Option.ne_none_iff_exists'.mp hfound
    have hfits := (h.takes key bytes hbytes).2
    rw [hlong] at hfits
    cases hfits
  -- Without a directory the name of the file is not looked at.
  have hget : d.get key = .error (.file .nameTooLong) ∨ d.get key = .error (.notFound key) := by
    rw [Directory.get, hkey]
    cases d.items with
    | none => exact .inr rfl
    | some items =>
      left
      simp [hlong]
  cases r with
  | put other bytes =>
    cases hr
    left
    change (Prod.map _ id (d.put key bytes)).1 = _
    rw [Directory.put, hkey, hlong]
    rfl
  | get other =>
    cases hr
    change Answer.ofResult _ (d.get key) = _ ∨ Answer.ofResult _ (d.get key) = _ ∧ _
    rcases hget with hget | hget
    · left
      rw [hget]
      rfl
    · right
      change _ = Answer.ofResult _ (m.get key) ∧ _
      rw [hget, Memory.get, hnone]
      exact ⟨rfl, h⟩
  | delete other =>
    cases hr
    change (Prod.map _ id (d.delete key)).1 = _ ∨
      (Prod.map _ id (d.delete key)).1 = (Prod.map _ id (m.delete key)).1 ∧
        Holds (Prod.map _ id (d.delete key)).2 (Prod.map _ id (m.delete key)).2.entries
    rw [Directory.delete, Memory.delete, hnone]
    rcases hget with hget | hget
    · left
      rw [hget]
      rfl
    · right
      rw [hget]
      exact ⟨rfl, h⟩
  | deleteAll => cases hr
  | records => cases hr

/-- What a directory does in place of a store in memory with the same records: it refuses a key
that cannot name a record, it is at fault if the name of the file is too long, or it answers as
the store in memory does and holds the same records afterwards. -/
theorem perform_cases (h : d.Holds m.entries) (r : Request) :
    (∃ key, r.key? = some key ∧ isKey key = false ∧
      r.perform d = (.refused (.invalidKey key), d)) ∨
    (∃ key, r.key? = some key ∧ isKey key = true ∧ fits (fileName key) = false ∧
      (r.perform d).1.IsFault) ∨
    (r.hasKey = true ∧ (r.perform d).1 = (r.perform m).1 ∧
      (r.perform d).2.Holds (r.perform m).2.entries) := by
  by_cases hkeys : ∀ key, r.key? = some key → Takes key
  · -- The directory takes the key, so both stores do what the request does to a map.
    have hdirectory : MappedStore.Holds d m.entries := h
    have hmemory : MappedStore.Holds m m.entries := rfl
    obtain ⟨hanswer, m', hd, hm⟩ :=
      Request.perform_eq_of_holds hdirectory hmemory fun key hkey => ⟨hkeys key hkey, trivial⟩
    have hentries : (r.perform m).2.entries = m' := hm
    refine .inr (.inr ⟨?_, hanswer, hentries ▸ hd⟩)
    rw [Request.hasKey, Option.all_eq_true]
    exact fun key hkey => (hkeys key hkey).1
  · push Not at hkeys
    obtain ⟨key, hr, htakes⟩ := hkeys
    cases hkey : isKey key with
    | false => exact .inl ⟨key, hr, hkey, perform_of_not_isKey hr hkey⟩
    | true =>
      have hlong : fits (fileName key) = false :=
        Bool.eq_false_iff.mpr fun hfits => htakes ⟨hkey, hfits⟩
      rcases perform_of_not_fits h hr hkey hlong with hfault | hsame
      · exact .inr (.inl ⟨key, hr, hkey, hlong, _, hfault⟩)
      · exact .inr (.inr ⟨(Request.hasKey_eq_isKey hr).trans hkey, hsame⟩)

/-! ## All requests -/

/-- Where no file is at fault a directory holds what a store in memory holds after the same
requests, but for those under keys that cannot name a record. -/
theorem holds_after {requests : List Request} (h : d.Holds m.entries)
    (hfault : ∀ a ∈ answers d requests, ¬a.IsFault) :
    (after d requests).Holds (after m (requests.filter Request.hasKey)).entries := by
  induction requests generalizing d m with
  | nil => exact h
  | cons r rest ih =>
    rw [answers, List.forall_mem_cons] at hfault
    rcases perform_cases h r with ⟨key, hr, hkey, hsame⟩ | ⟨key, -, -, -, hbad⟩ | ⟨hr, -, hnext⟩
    -- What is refused is not asked in memory either, and both stores stay as they were.
    · have hskipped : r.hasKey = false := (Request.hasKey_eq_isKey hr).trans hkey
      rw [after_cons, List.filter_cons_of_neg (by simp [hskipped]), hsame]
      rw [hsame] at hfault
      exact ih h hfault.2
    · exact absurd hbad hfault.1
    · rw [after_cons, List.filter_cons_of_pos hr, after_cons]
      exact ih hnext hfault.2

/-- Where no file is at fault, and all keys can name records, both stores give the same answers. -/
theorem answers_eq {requests : List Request} (h : d.Holds m.entries)
    (hkeys : ∀ r ∈ requests, r.hasKey = true) (hfault : ∀ a ∈ answers d requests, ¬a.IsFault) :
    answers d requests = answers m requests := by
  induction requests generalizing d m with
  | nil => rfl
  | cons r rest ih =>
    rw [List.forall_mem_cons] at hkeys
    rw [answers, List.forall_mem_cons] at hfault
    rcases perform_cases h r with ⟨key, hr, hkey, -⟩ | ⟨key, -, -, -, hbad⟩ | ⟨-, hsame, hnext⟩
    · cases (hkeys.1.symm.trans (Request.hasKey_eq_isKey hr)).trans hkey
    · exact absurd hbad hfault.1
    · rw [answers, answers, hsame, ih hnext hkeys.2 hfault.2]

/-- Where every file can have its name no file is at fault. -/
theorem not_isFault_of_fits {requests : List Request} (h : d.Holds m.entries)
    (hfits : ∀ r ∈ requests, ∀ key, r.key? = some key → isKey key = true →
      fits (fileName key) = true) :
    ∀ a ∈ answers d requests, ¬a.IsFault := by
  induction requests generalizing d m with
  | nil => exact fun _ hnone => absurd hnone List.not_mem_nil
  | cons r rest ih =>
    rw [List.forall_mem_cons] at hfits
    rw [answers, List.forall_mem_cons]
    rcases perform_cases h r with ⟨key, -, -, hsame⟩ | ⟨key, hr, hkey, hlong, -⟩ | ⟨-, hsame, hnext⟩
    · rw [hsame]
      refine ⟨?_, ih h hfits.2⟩
      rintro ⟨fault, hfault⟩
      cases hfault
    · rw [hfits.1 key hr hkey] at hlong
      cases hlong
    · rw [hsame]
      exact ⟨m.not_isFault_perform r, ih hnext hfits.2⟩

/-- A directory answers as a store in memory. Both are asked one request after another, from a
directory that does not exist and a store without records. As long as no file is at fault, which it
only is if its name is too long, both give the same answers if all keys can name records. Any other
key is refused and leaves the directory as it was: at every moment the directory lists, in ascending
order, the records of a store in memory that was not asked under such keys, and answers the next
request as this store does. -/
theorem answers_as_memory (requests : List Request) :
    ((∀ r ∈ requests, ∀ key, r.key? = some key → isKey key = true →
        fits (fileName key) = true) →
      ∀ a ∈ answers absent requests, ¬a.IsFault) ∧
    ((∀ a ∈ answers absent requests, ¬a.IsFault) →
      ((∀ r ∈ requests, r.hasKey = true) →
        answers absent requests = answers Memory.empty requests) ∧
      ∀ before r later, requests = before ++ r :: later →
        let d := after absent before
        let m := after Memory.empty (before.filter Request.hasKey)
        (∃ records, Store.records d = .ok records ∧ Store.records m = .ok records ∧
          (records.map Prod.fst).Pairwise (· < ·)) ∧
        (r.hasKey = true → (r.perform d).1 = (r.perform m).1) ∧
        ∀ key, r.key? = some key → isKey key = false →
          r.perform d = (.refused (.invalidKey key), d)) := by
  have hempty : absent.Holds Memory.empty.entries := holds_empty rfl
  refine ⟨not_isFault_of_fits hempty, fun hfault =>
    ⟨fun hkeys => answers_eq hempty hkeys hfault, ?_⟩⟩
  rintro before r later rfl
  rw [answers_append, List.forall_mem_append, answers, List.forall_mem_cons] at hfault
  obtain ⟨hbefore, hr, -⟩ := hfault
  -- Before the request both stores hold the same records.
  have hholds := holds_after hempty hbefore
  refine ⟨⟨_, MappedStore.records hholds, rfl, SortedMap.ascending _⟩, fun hkey => ?_,
    fun key => perform_of_not_isKey⟩
  rcases perform_cases hholds r with ⟨key, hr', hkey', -⟩ | ⟨key, -, -, -, hbad⟩ | ⟨-, hsame, -⟩
  · cases (hkey.symm.trans (Request.hasKey_eq_isKey hr')).trans hkey'
  · exact absurd hbad hr
  · exact hsame

/-- Records under a key, under one that it begins with, and under one in capitals, and a request
that would reach behind the directory. -/
private def crossing : List Request :=
  [.records, .put "ab" "1".toUTF8, .put "AB" "2".toUTF8, .put "a" "3".toUTF8,
    .put "../ab" "4".toUTF8, .get "ab", .delete "AB", .delete "AB", .records, .deleteAll]

/-- Each key has its own record, and the request that would reach behind the directory does not
count. -/
theorem answers_as_memory_crossing :
    (∀ r ∈ crossing, ∀ key, r.key? = some key → isKey key = true →
      fits (fileName key) = true) ∧
    (∀ r ∈ crossing.filter Request.hasKey, r.hasKey = true) ∧
    answers absent (crossing.filter Request.hasKey) =
      answers Memory.empty (crossing.filter Request.hasKey) ∧
    answers Memory.empty (crossing.filter Request.hasKey) =
      [.listed [], .done, .done, .done, .found "1".toUTF8, .done, .refused (.notFound "AB"),
        .listed [("a", "3".toUTF8), ("ab", "1".toUTF8)], .removed 2] ∧
    isKey "../ab" = false ∧
    (Request.put "../ab" "4".toUTF8).perform (after absent (crossing.take 4)) =
      (.refused (.invalidKey "../ab"), after absent (crossing.take 4)) := by
  have hfits : ∀ r ∈ crossing, ∀ key, r.key? = some key → isKey key = true →
      fits (fileName key) = true := by
    simp only [crossing, List.forall_mem_cons, Request.key?]
    decide
  have hkeys : ∀ r ∈ crossing.filter Request.hasKey, r.hasKey = true :=
    fun r hr => (List.mem_filter.mp hr).2
  have hkept := answers_as_memory (crossing.filter Request.hasKey)
  have hall := answers_as_memory crossing
  have hsame := (hkept.2 (hkept.1 fun r hr => hfits r (List.mem_filter.mp hr).1)).1 hkeys
  have hrefused := (hall.2 (hall.1 hfits)).2 (crossing.take 4) (.put "../ab" "4".toUTF8)
    (crossing.drop 5) rfl
  exact ⟨hfits, hkeys, hsame, rfl, rfl, hrefused.2.2 "../ab" rfl rfl⟩

end Directory

end Runbook
