import Mathlib.Data.List.Basic
import Mathlib.Data.List.TakeWhile
import Runbook.Number.Numeral

/-!
# The spelling of numbers

What the canonical text of a number looks like and what is read from it. Integers always read
back as themselves. A double-precision number need not: its shortest text may be read as a
neighbour, or be out of range.

## Main definitions

* `Binary64.ReadsBack`: the text of a double-precision number is read as that number;
* `Binary64.ReadsInRange`: it is read as some number.

## Main results

* `Number.isSymbol_of_mem_chars`: the text of a number consists of characters of numerals;
* `Number.ofChars?_integerChars`: the text of an integer is read as that integer.
-/

namespace Runbook

namespace Numeral

/-- The characters that numerals consist of. -/
def isSymbol (c : Char) : Bool :=
  c.isDigit || c == '-' || c == '+' || c == '.' || c == 'e' || c == 'E'

theorem isSymbol_of_isDigit {c : Char} (h : c.isDigit = true) : isSymbol c = true := by
  simp [isSymbol, h]

/-- Digits up to the end of a text are all read. -/
theorem digits_of_all {ds : List Char} (h : ∀ c ∈ ds, c.isDigit = true) :
    digits ds = (ds, []) := by
  have htake : ds.takeWhile Char.isDigit = ds := List.takeWhile_eq_self_iff.mpr h
  have hdrop : ds.dropWhile Char.isDigit = [] := List.dropWhile_eq_nil_iff.mpr h
  rw [digits, htake, hdrop]

/-- Digits without a leading zero are a numeral by themselves. -/
theorem unsigned?_digits (negative : Bool) {ds : List Char} (hne : ds ≠ [])
    (hdigit : ∀ c ∈ ds, c.isDigit = true) (hzero : ∀ others, ds = '0' :: others → others = []) :
    unsigned? negative ds = some ⟨negative, ds, [], none⟩ := by
  obtain ⟨first, others, rfl⟩ := List.exists_cons_of_ne_nil hne
  have hlead : ¬(first = '0' ∧ others ≠ []) := by
    rintro ⟨rfl, hothers⟩
    exact hothers (hzero others rfl)
  rw [unsigned?, digits_of_all hdigit]
  simp only [hlead, if_false]
  rfl

end Numeral

/-- A positive number is written without a leading zero. -/
private theorem head?_toDigits_ne_zero (n : Nat) (h : 0 < n) :
    (Nat.toDigits 10 n).head? ≠ some '0' := by
  -- The first digit of `n` is that of `n / 10` until only one digit is left.
  induction n using Nat.strongRecOn with
  | ind n ih =>
    rw [Nat.toDigits_eq_if (by decide)]
    split
    next hlt =>
      have hdigit : ∀ d < 10, 0 < d → Nat.digitChar d ≠ '0' := by decide
      simpa using hdigit n hlt h
    next hle =>
      have hdiv : 0 < n / 10 := by omega
      rw [List.head?_append_of_ne_nil _ Nat.toDigits_ne_nil]
      exact ih (n / 10) (by omega) hdiv

/-- The digits of a number start with zero only if that is all of them. -/
theorem eq_nil_of_toDigits_eq_cons {n : Nat} {others : List Char}
    (h : Nat.toDigits 10 n = '0' :: others) : others = [] := by
  rcases Nat.eq_zero_or_pos n with rfl | hpos
  · rw [Nat.toDigits_zero] at h
    exact (List.cons.inj h).2.symm
  · exact absurd (by rw [h]; rfl) (head?_toDigits_ne_zero n hpos)

theorem isDigit_of_mem_toDigits {n : Nat} {c : Char} (h : c ∈ Nat.toDigits 10 n) :
    c.isDigit = true :=
  Nat.isDigit_of_mem_toDigits (by decide) (by decide) h

/-- The numeral that the digits of a natural number make up. -/
theorem Numeral.unsigned?_toDigits (negative : Bool) (n : Nat) :
    unsigned? negative (Nat.toDigits 10 n) = some ⟨negative, Nat.toDigits 10 n, [], none⟩ :=
  unsigned?_digits negative Nat.toDigits_ne_nil (fun _ => isDigit_of_mem_toDigits)
    fun _ => eq_nil_of_toDigits_eq_cons

/-- A text that starts with a digit is read as an unsigned numeral. -/
theorem Numeral.ofChars?_of_isDigit {c : Char} (cs : List Char) (h : c.isDigit = true) :
    ofChars? (c :: cs) = unsigned? false (c :: cs) := by
  rw [ofChars?]
  rintro cs' heq
  rw [(List.cons.inj heq).1] at h
  exact absurd h (by decide)

namespace Number

/-- The text of an integer is read as that integer. -/
theorem ofChars?_integerChars (value : Int) (lower : -0x8000000000000000 ≤ value)
    (upper : value < 0x10000000000000000) :
    ofChars? (integerChars value) = some (.integer value lower upper) := by
  rw [integerChars, ofChars?]
  split
  next hneg =>
    have hrange : 0 < value.natAbs ∧ value.natAbs ≤ 0x8000000000000000 := by omega
    have hvalue : -(value.natAbs : Int) = value := by omega
    rw [Numeral.ofChars?, Numeral.unsigned?_toDigits, Option.bind_some, Numeral.number?]
    simp only [Numeral.isIntegral, List.isEmpty_nil, Option.isNone_none, Bool.and_self, if_true,
      Nat.ofDigitChars_ten_toDigits, dif_pos hrange, hvalue]
  next hpos =>
    have hrange : value.natAbs < 0x10000000000000000 := by omega
    have hvalue : (value.natAbs : Int) = value := by omega
    obtain ⟨c, cs, hcs⟩ := List.exists_cons_of_ne_nil
      (Nat.toDigits_ne_nil (n := value.natAbs) (b := 10))
    have hc : c.isDigit = true := isDigit_of_mem_toDigits (n := value.natAbs) (by rw [hcs]; simp)
    rw [hcs, Numeral.ofChars?_of_isDigit cs hc, ← hcs, Numeral.unsigned?_toDigits,
      Option.bind_some, Numeral.number?]
    simp only [Numeral.isIntegral, List.isEmpty_nil, Option.isNone_none, Bool.and_self, if_true,
      Bool.false_eq_true, if_false, Nat.ofDigitChars_ten_toDigits, dif_pos hrange, ofNat, hvalue]

end Number

/-! ## The characters of a number -/

section Symbols

open Numeral

private theorem isSymbol_of_mem_zeros {n : Nat} {c : Char} (h : c ∈ List.replicate n '0') :
    isSymbol c = true := by
  rw [(List.mem_replicate.mp h).2]
  decide

private theorem isSymbol_of_mem_toDigits {n : Nat} {c : Char} (h : c ∈ Nat.toDigits 10 n) :
    isSymbol c = true :=
  isSymbol_of_isDigit (isDigit_of_mem_toDigits h)

/-- The digits of the shortest decimal are digits. -/
private theorem isSymbol_of_mem_shortest {m : Magnitude} {c : Char}
    (h : c ∈ m.shortest.digits) : isSymbol c = true := by
  rw [Magnitude.shortest] at h
  split at h
  next digits power hfound =>
    obtain ⟨i, -, hi⟩ := List.exists_of_findSome?_eq_some hfound
    obtain ⟨n, -, hn⟩ := Option.map_eq_some_iff.mp hi
    have hdigits : Nat.toDigits 10 n = digits := congrArg Prod.fst hn
    -- Zeros at the end of the digits have been dropped, which takes nothing new in.
    have hmem : c ∈ digits := by
      have := List.mem_reverse.mp h
      exact List.mem_reverse.mp ((List.dropWhile_sublist _).mem this)
    exact isSymbol_of_mem_toDigits (hdigits ▸ hmem)
  next =>
    rw [List.mem_singleton.mp h]
    decide

private theorem isSymbol_of_mem_positional {s : Scientific}
    (hs : ∀ c ∈ s.digits, isSymbol c = true) {c : Char} (h : c ∈ s.positional) :
    isSymbol c = true := by
  have hpoint : isSymbol '.' = true := by decide
  have hzero : isSymbol '0' = true := by decide
  rw [Scientific.positional] at h
  simp only at h
  split at h
  · simp only [List.mem_append, List.mem_cons] at h
    rcases h with (rfl | rfl | h) | h
    exacts [hzero, hpoint, isSymbol_of_mem_zeros h, hs c h]
  · split at h
    · simp only [List.mem_append, List.mem_cons, List.not_mem_nil, or_false] at h
      rcases h with (h | h) | rfl | rfl
      exacts [hs c h, isSymbol_of_mem_zeros h, hpoint, hzero]
    · simp only [List.mem_append, List.mem_cons] at h
      rcases h with h | rfl | h
      exacts [hs c (List.mem_of_mem_take h), hpoint, hs c (List.mem_of_mem_drop h)]

private theorem isSymbol_of_mem_withPower {s : Scientific}
    (hs : ∀ c ∈ s.digits, isSymbol c = true) {c : Char} (h : c ∈ s.withPower) :
    isSymbol c = true := by
  rw [Scientific.withPower] at h
  simp only [List.mem_append, List.mem_cons] at h
  rcases h with h | rfl | rfl | h
  · split at h
    next => cases h
    next digit hdigits => exact hs c (hdigits ▸ h)
    next digit rest hrest hdigits =>
      rcases List.mem_cons.mp h with rfl | h
      · exact hs _ (by simp [hdigits])
      · rcases List.mem_cons.mp h with rfl | h
        · decide
        · exact hs c (by simp [hdigits, h])
  · decide
  · split <;> decide
  · exact isSymbol_of_mem_toDigits h

/-- The text of a double-precision number consists of characters of numerals. -/
theorem Binary64.isSymbol_of_mem_chars {x : Binary64} {c : Char} (h : c ∈ x.chars) :
    isSymbol c = true := by
  have hmagnitude : ∀ c ∈ (if x.magnitude.isZero then ['0', '.', '0']
      else x.magnitude.shortest.chars), isSymbol c = true := by
    intro c hc
    split at hc
    · simp only [List.mem_cons, List.not_mem_nil, or_false] at hc
      rcases hc with rfl | rfl | rfl <;> decide
    · rw [Scientific.chars] at hc
      split at hc
      · exact isSymbol_of_mem_positional (fun _ => isSymbol_of_mem_shortest) hc
      · exact isSymbol_of_mem_withPower (fun _ => isSymbol_of_mem_shortest) hc
  rw [Binary64.chars] at h
  split at h
  · rcases List.mem_cons.mp h with rfl | h
    · decide
    · exact hmagnitude c h
  · exact hmagnitude c h

/-- The text of a number consists of characters of numerals. -/
theorem Number.isSymbol_of_mem_chars {n : Number} {c : Char} (h : c ∈ n.chars) :
    isSymbol c = true := by
  cases n with
  | float x => exact x.isSymbol_of_mem_chars h
  | integer value lower upper =>
    rw [Number.chars, Number.integerChars] at h
    split at h
    · rcases List.mem_cons.mp h with rfl | h
      · decide
      · exact isSymbol_of_mem_toDigits h
    · exact isSymbol_of_mem_toDigits h

private theorem Scientific.chars_ne_nil (s : Scientific) : s.chars ≠ [] := by
  rw [Scientific.chars]
  split
  · rw [Scientific.positional]
    simp only
    split
    · simp
    · split <;> simp
  · rw [Scientific.withPower]
    simp

/-- A number is written with at least one character. -/
theorem Number.chars_ne_nil (n : Number) : n.chars ≠ [] := by
  cases n with
  | integer value lower upper =>
    rw [Number.chars, Number.integerChars]
    split <;> simp
  | float x =>
    rw [Number.chars, Binary64.chars]
    split
    · simp
    · split
      · simp
      · exact Scientific.chars_ne_nil _

end Symbols

/-! ## Reading back double-precision numbers -/

namespace Binary64

/-- The text of the number is read as the number. -/
def ReadsBack (x : Binary64) : Prop :=
  Number.ofChars? x.chars = some (.float x)

/-- The text of the number is read as a number, perhaps another one. -/
def ReadsInRange (x : Binary64) : Prop :=
  (Number.ofChars? x.chars).isSome = true

instance (x : Binary64) : Decidable x.ReadsBack :=
  inferInstanceAs (Decidable (_ = _))

instance (x : Binary64) : Decidable x.ReadsInRange :=
  inferInstanceAs (Decidable (_ = _))

theorem ReadsBack.readsInRange {x : Binary64} (h : x.ReadsBack) : x.ReadsInRange := by
  rw [ReadsInRange, show Number.ofChars? x.chars = some (.float x) from h]
  rfl

end Binary64

namespace Number

/-- The double-precision numbers among a number. -/
def floats : Number → List Binary64
  | .integer .. => []
  | .float x => [x]

/-- A number whose double-precision numbers read back is read from its text. -/
theorem ofChars?_chars {n : Number} (h : ∀ x ∈ n.floats, x.ReadsBack) :
    ofChars? n.chars = some n := by
  cases n with
  | integer value lower upper => exact ofChars?_integerChars value lower upper
  | float x => exact h x (List.mem_singleton.mpr rfl)

/-- A number whose double-precision numbers are read in range has a text of a number. -/
theorem isSome_ofChars?_chars {n : Number} (h : ∀ x ∈ n.floats, x.ReadsInRange) :
    (ofChars? n.chars).isSome = true := by
  cases n with
  | integer value lower upper =>
    rw [chars, ofChars?_integerChars value lower upper]
    rfl
  | float x => exact h x (List.mem_singleton.mpr rfl)

end Number

end Runbook
