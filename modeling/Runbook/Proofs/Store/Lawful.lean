import Runbook.Store.Directory
import Runbook.Store.Memory

/-!
# Stores that work as maps

Bytes that a store took are under their key, and no other record is touched by it. Both kinds of
stores are such maps.

## Main definitions

* `LawfulStore`: a store that works as a map.
-/

namespace Runbook

/-- A store that works as a map. -/
class LawfulStore (σ : Type) [Store σ] : Prop where
  /-- Bytes that the store took are under their key. -/
  get_put (store : σ) (key : String) (bytes : ByteArray) :
    (Store.put store key bytes).1 = .ok () →
      Store.get (Store.put store key bytes).2 key = .ok bytes
  /-- The records under other keys stay as they are. -/
  get_put_of_ne (store : σ) {key other : String} (bytes : ByteArray) : other ≠ key →
    (Store.get (Store.put store key bytes).2 other).toOption = (Store.get store other).toOption

namespace Memory

instance : LawfulStore Memory where
  get_put m key bytes _ := by
    show (Memory.put m key bytes).2.get key = .ok bytes
    rw [put, get, SortedMap.get?_insert, if_pos rfl]
  get_put_of_ne m key other bytes hne := by
    show ((Memory.put m key bytes).2.get other).toOption = (m.get other).toOption
    rw [put, get, SortedMap.get?_insert, if_neg hne, get]

end Memory

namespace Directory

/-- Keys with one file name are equal. -/
theorem fileName_injective : Function.Injective fileName := by
  intro key other h
  rw [fileName, fileName, String.ofList_inj, List.append_left_inj] at h
  exact String.toList_inj.mp h

/-- What can be found in a directory depends on what it holds, not on whether it exists. -/
theorem toOption_get (d : Directory) (key : String) :
    (d.get key).toOption =
      if isKey key && fits (fileName key) then
        (bytes? key (d.contents.get? (fileName key))).toOption
      else none := by
  obtain ⟨items⟩ := d
  rw [get]
  cases isKey key with
  | false => rfl
  | true =>
    -- Without the directory there is no file, so both sides find nothing.
    cases items with
    | none => cases fits (fileName key) <;> rfl
    | some items => cases fits (fileName key) <;> rfl

/-- A request to put bytes writes the file of the key, or fails and leaves all files alone. -/
theorem put_cases (d : Directory) (key : String) (bytes : ByteArray) :
    (isKey key = true ∧ fits (fileName key) = true ∧
      d.put key bytes = (.ok (), d.place (fileName key) (.file bytes))) ∨
    ∃ error d', d.put key bytes = (.error error, d') ∧ d'.contents = d.contents := by
  rw [put]
  cases hkey : isKey key with
  | false => exact .inr ⟨_, d, rfl, rfl⟩
  | true =>
    cases hfits : fits (fileName key) with
    | false => exact .inr ⟨_, ⟨some d.contents⟩, rfl, rfl⟩
    | true =>
      -- A file is replaced, but a folder of that name stays in the way.
      cases hold : d.contents.get? (fileName key) with
      | none => exact .inl ⟨rfl, rfl, rfl⟩
      | some item =>
        cases item with
        | file old => exact .inl ⟨rfl, rfl, rfl⟩
        | folder entries => exact .inr ⟨_, ⟨some d.contents⟩, rfl, rfl⟩

instance : LawfulStore Directory where
  get_put d key bytes hput := by
    change (d.put key bytes).1 = .ok () at hput
    show (d.put key bytes).2.get key = .ok bytes
    rcases d.put_cases key bytes with ⟨hkey, hfits, hplace⟩ | ⟨error, d', hfailed, -⟩
    · rw [hplace, place, get]
      simp [hkey, hfits, SortedMap.get?_insert, bytes?]
    · rw [hfailed] at hput
      cases hput
  get_put_of_ne d key other bytes hne := by
    show ((d.put key bytes).2.get other).toOption = (d.get other).toOption
    rw [toOption_get, toOption_get]
    rcases d.put_cases key bytes with ⟨-, -, hplace⟩ | ⟨error, d', hfailed, hcontents⟩
    · have hname : fileName other ≠ fileName key := fileName_injective.ne hne
      rw [hplace]
      simp only [place, contents, Option.getD_some, SortedMap.get?_insert, if_neg hname]
    · rw [hfailed, hcontents]

end Directory

end Runbook
