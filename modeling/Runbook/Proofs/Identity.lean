import Runbook.Identity
import Runbook.Proofs.Store.Contents

/-!
# Identities as keys

The text of an identity consists of letters and digits, and is short. So it is a key under which
stores take records, in memory as well as in a directory.

## Main results

* `Identity.isAlphanum_of_digit?`: only letters and digits have a value;
* `Identity.takes_of_parse`: identities are keys of records in a directory.
-/

namespace Runbook.Identity

/-- A character that has a value is a letter or a digit. -/
theorem isAlphanum_of_digit? {c : Char} {d : Nat} (h : digit? c = some d) :
    c.isAlphanum = true := by
  have halphabet : alphabet.all Char.isAlphanum = true := by decide
  by_cases hlower : 'a'.val ≤ c.val ∧ c.val ≤ 'z'.val
  · have hc : c.isLower = true :=
      Bool.and_eq_true_iff.mpr ⟨decide_eq_true hlower.1, decide_eq_true hlower.2⟩
    show (c.isUpper || c.isLower || c.isDigit) = true
    simp [hc]
  · -- Only small letters are read as others.
    have hself : c.toUpper = c := dif_neg hlower
    obtain ⟨hd, hc, -⟩ := List.findIdx?_eq_some_iff_getElem.mp h
    rw [hself, beq_iff_eq] at hc
    exact List.all_eq_true.mp halphabet c (hc ▸ List.getElem_mem hd)

/-- Characters that stand for a number are letters and digits. -/
theorem isAlphanum_of_read? {cs : List Char} {value number : Nat}
    (h : read? value cs = some number) : ∀ c ∈ cs, c.isAlphanum = true := by
  induction cs generalizing value with
  | nil => exact fun _ hc => absurd hc List.not_mem_nil
  | cons c rest ih =>
    rw [read?] at h
    split at h
    next d hd => exact List.forall_mem_cons.mpr ⟨isAlphanum_of_digit? hd, ih h⟩
    next => cases h

/-- A text that is read as an identity is a key under which a directory takes a record. -/
theorem takes_of_parse {text : String} {identity : Identity} (h : parse text = .ok identity) :
    Directory.Takes text := by
  rw [parse] at h
  split at h
  next => cases h
  next hlength =>
    split at h
    next number hread =>
      have hsize : text.utf8ByteSize = 26 := not_not.mp hlength
      constructor
      · have hne : text.isEmpty = false := by
          rw [Bool.eq_false_iff]
          intro hempty
          rw [String.isEmpty_iff.mp hempty] at hsize
          cases hsize
        rw [Directory.isKey, hne, Bool.not_false, Bool.true_and, List.all_eq_true]
        intro c hc
        rw [isAlphanum_of_read? hread c hc]
        rfl
      · rw [Directory.fits, Directory.fileName, String.ofList_append, String.ofList_toList,
          String.utf8ByteSize_append, hsize]
        decide
    next => cases h

end Runbook.Identity
