import Mathlib.Tactic.SplitIfs
import Runbook.SortedMap

/-!
# The order of texts and of their bytes

Texts are compared character by character in order of code point. Their encodings compare in the
same way byte by byte: a character with a greater code point has a greater first byte or, behind
equal bytes, a greater one that decides.

## Main definitions

* `Text.bytes`: the bytes that a text is encoded in.

## Main results

* `Text.bytes_lt_bytes`: texts in ascending order have bytes in ascending order.
-/

namespace Runbook.Text

/-- The bytes that a text is encoded in. -/
def bytes (text : String) : List UInt8 :=
  text.toUTF8.data.toList

/-- A text is encoded character by character. -/
theorem bytes_eq_flatMap (text : String) :
    bytes text = text.toList.flatMap String.utf8EncodeChar := by
  rw [bytes, String.toUTF8_eq_toByteArray, ← String.utf8Encode_toList, List.utf8Encode,
    List.toList_data_toByteArray]

/-- A character with a smaller code point has smaller bytes, whatever follows. -/
theorem encoded_lt_encoded {c d : Char} (h : c < d) (xs ys : List UInt8) :
    String.utf8EncodeChar c ++ xs < String.utf8EncodeChar d ++ ys := by
  have hlt : c.val.toNat < d.val.toNat := h
  have hbound : d.val.toNat < 0x110000 := by
    rcases d.valid with hlow | hhigh
    · exact Nat.lt_trans hlow (by decide)
    · exact hhigh.2
  unfold String.utf8EncodeChar
  dsimp only
  generalize c.val.toNat = m at hlt ⊢
  generalize d.val.toNat = n at hlt hbound ⊢
  -- Each character has one to four bytes. For each of the sixteen pairs of lengths the first bytes
  -- that differ are told by the digits of the code points to the base 64.
  split_ifs <;>
  simp (disch := omega) only [List.cons_append, List.nil_append, List.cons_lt_cons_iff,
    UInt8.lt_iff_toNat_lt, UInt8.toNat_ofNat', ← UInt8.toNat_inj, Nat.reducePow,
    Nat.mod_eq_of_lt] <;>
  omega

/-- Equal bytes in front do not matter to the order. -/
theorem append_lt_append {xs ys : List UInt8} (h : xs < ys) (front : List UInt8) :
    front ++ xs < front ++ ys := by
  induction front with
  | nil => exact h
  | cons b front ih => exact List.cons_lt_cons_iff.mpr (.inr ⟨rfl, ih⟩)

/-- A text that is less than another one has smaller bytes. -/
theorem bytes_lt_bytes {a b : String} (h : a < b) : bytes a < bytes b := by
  rw [bytes_eq_flatMap, bytes_eq_flatMap]
  have hchars : List.Lex (· < ·) a.toList b.toList := h
  generalize a.toList = as at hchars ⊢
  generalize b.toList = bs at hchars ⊢
  -- The first characters that differ decide, or one text ends first.
  induction hchars with
  | @nil d ds =>
    rw [List.flatMap_cons]
    cases hbytes : String.utf8EncodeChar d with
    | nil => exact absurd hbytes String.utf8EncodeChar_ne_nil
    | cons first rest => exact .nil
  | rel hlt => exact encoded_lt_encoded hlt _ _
  | cons _ ih => exact append_lt_append ih _

end Runbook.Text
