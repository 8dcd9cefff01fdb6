import Runbook.Literal.Text
import Runbook.Name
import Runbook.Proofs.Number.Spelling

/-!
# The characters of names and numbers

Names and numbers are written in ASCII without delimiters and without the characters that start
other tokens, so each of them is one word wherever it stands.

## Main definitions

* `isPlain`: the characters that neither end a word nor start another token.

## Main results

* `isPlain_of_isIdentifier`, `isPlain_of_isKey`, `isPlain_of_isActionWord`: names are plain;
* `isPlain_of_isSymbol`: so are numbers.
-/

namespace Runbook

/-- The characters that neither end a word nor start a token of another kind. -/
def isPlain (c : Char) : Bool :=
  !isDelimiter c && !Literal.isSigil c && c != '}'

theorem isDelimiter_of_isPlain {c : Char} (h : isPlain c = true) : isDelimiter c = false := by
  simp only [isPlain, Bool.and_eq_true, Bool.not_eq_true'] at h
  exact h.1.1

theorem isSigil_of_isPlain {c : Char} (h : isPlain c = true) : Literal.isSigil c = false := by
  simp only [isPlain, Bool.and_eq_true, Bool.not_eq_true'] at h
  exact h.1.2

theorem isBlank_of_isDelimiter {c : Char} (h : isDelimiter c = false) :
    Text.isBlank c = false := by
  simp only [isDelimiter, Bool.or_eq_false_iff] at h
  exact h.1.1.1.1

/-- A property of all ASCII characters is one of every character with a small code. -/
private theorem forall_ascii {p : Char → Prop} (h : ∀ n < 128, p (Char.ofNat n)) {c : Char}
    (hc : c.toNat < 128) : p c := by
  have := h c.toNat hc
  rwa [Char.ofNat_toNat] at this

private theorem toNat_lt_of_isAlphanum {c : Char} (h : c.isAlphanum = true) : c.toNat < 128 := by
  delta Char.isAlphanum Char.isAlpha Char.isUpper Char.isLower Char.isDigit at h
  simp only [Bool.or_eq_true, Bool.and_eq_true, decide_eq_true_eq, ge_iff_le,
    UInt32.le_iff_toNat_le] at h
  -- In terms of codes the three classes are three intervals, all below 128.
  change ((65 ≤ c.toNat ∧ c.toNat ≤ 90) ∨ (97 ≤ c.toNat ∧ c.toNat ≤ 122)) ∨
    (48 ≤ c.toNat ∧ c.toNat ≤ 57) at h
  omega

theorem isPlain_of_isAlphanum {c : Char} (h : c.isAlphanum = true) : isPlain c = true := by
  -- Alphanumeric characters are in ASCII, so all of them can be looked at.
  have hascii : ∀ n < 128, (Char.ofNat n).isAlphanum = true → isPlain (Char.ofNat n) = true := by
    decide +kernel
  exact forall_ascii (p := fun c => c.isAlphanum = true → isPlain c = true) hascii
    (toNat_lt_of_isAlphanum h) h

/-- The characters of numerals are plain. -/
theorem isPlain_of_isSymbol {c : Char} (h : Numeral.isSymbol c = true) : isPlain c = true := by
  simp only [Numeral.isSymbol, Bool.or_eq_true, beq_iff_eq] at h
  rcases h with ((((h | rfl) | rfl) | rfl) | rfl) | rfl
  · exact isPlain_of_isAlphanum (by simp [Char.isAlphanum, h])
  all_goals decide

namespace Name

/-- A name starts with a `first` character, and all its characters are as these or `next` ones. -/
private theorem forall_of_isMadeOf {first next : Char → Bool} {name : List Char}
    (h : isMadeOf first next name = true) (hfirst : ∀ c, first c = true → isPlain c = true)
    (hnext : ∀ c, next c = true → isPlain c = true) :
    name ≠ [] ∧ ∀ c ∈ name, isPlain c = true := by
  cases name with
  | nil => cases h
  | cons c cs =>
    rw [isMadeOf, Bool.and_eq_true, List.all_eq_true] at h
    refine ⟨List.cons_ne_nil c cs, ?_⟩
    intro d hd
    rcases List.mem_cons.mp hd with rfl | hd
    · exact hfirst d h.1
    · exact hnext d (h.2 d hd)

private theorem isPlain_of_isAlpha {c : Char} (h : c.isAlpha = true) : isPlain c = true :=
  isPlain_of_isAlphanum (by simp [Char.isAlphanum, h])

private theorem isPlain_of_isLower {c : Char} (h : c.isLower = true) : isPlain c = true := by
  refine isPlain_of_isAlphanum ?_
  show (c.isUpper || c.isLower || c.isDigit) = true
  simp [h]

theorem isPlain_of_isIdentifier {name : List Char} (h : isIdentifier name = true) :
    name ≠ [] ∧ ∀ c ∈ name, isPlain c = true := by
  refine forall_of_isMadeOf h (fun c hc => ?_) fun c hc => ?_
  · simp only [Bool.or_eq_true, beq_iff_eq] at hc
    rcases hc with hc | rfl
    · exact isPlain_of_isAlpha hc
    · decide
  · simp only [Bool.or_eq_true, beq_iff_eq] at hc
    rcases hc with (hc | rfl) | rfl
    · exact isPlain_of_isAlphanum hc
    all_goals decide

theorem isPlain_of_isKey {name : List Char} (h : isKey name = true) :
    name ≠ [] ∧ ∀ c ∈ name, isPlain c = true := by
  refine forall_of_isMadeOf h (fun c hc => ?_) fun c hc => ?_
  · simp only [Bool.or_eq_true, beq_iff_eq] at hc
    rcases hc with hc | rfl
    · exact isPlain_of_isAlpha hc
    · decide
  · simp only [Bool.or_eq_true, beq_iff_eq] at hc
    rcases hc with ((hc | rfl) | rfl) | rfl
    · exact isPlain_of_isAlphanum hc
    all_goals decide

theorem isPlain_of_isActionWord {name : List Char} (h : isActionWord name = true) :
    name ≠ [] ∧ ∀ c ∈ name, isPlain c = true := by
  refine forall_of_isMadeOf h (fun c hc => isPlain_of_isLower hc) fun c hc => ?_
  simp only [Bool.or_eq_true, beq_iff_eq] at hc
  rcases hc with ((hc | hc) | rfl) | rfl
  · exact isPlain_of_isLower hc
  · exact isPlain_of_isAlphanum (by simp [Char.isAlphanum, hc])
  all_goals decide

end Name

end Runbook
