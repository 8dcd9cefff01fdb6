import Runbook.Proofs.Number.Layout

/-!
# Decimals that are read exactly

A numeral whose significand and power of ten are small enough to be kept in double precision is read
as the number nearest to it, as there is only one rounding. Numbers that were read from numerals of
at most fifteen digits in a moderate range have shortest decimals that are written as such numerals.
So they read back.

## Main definitions

* `Numeral.significand`, `Numeral.power`, `Numeral.value`: what a numeral stands for exactly;
* `Numeral.IsExact`: a numeral that is read with one rounding;
* `Numeral.IsModerate`: a numeral of few digits that is neither very great nor very small;
* `Binary64.IsModerate`: a number that is read from one.

## Main results

* `Numeral.exists_float?_eq`: an exact numeral is rounded once;
* `Scientific.spellsExactly_chars`: a short decimal in a moderate range is written as an exact
  numeral;
* `Binary64.IsModerate.readsBack`: numbers that are read from moderate numerals read back.
-/

namespace Runbook

namespace Numeral

/-! ## Digits -/

/-- Each digit behind others takes them a place up. -/
theorem mul_pow_le_ofDigitChars (significand : ℕ) (digits : List Char) :
    significand * 10 ^ digits.length ≤ Nat.ofDigitChars 10 digits significand := by
  rw [Nat.ofDigitChars_eq_ofDigitChars_zero, mul_comm]
  exact Nat.le_add_right _ _

/-- Digits behind others make a number no smaller. -/
theorem le_ofDigitChars (significand : ℕ) (digits : List Char) :
    significand ≤ Nat.ofDigitChars 10 digits significand :=
  (Nat.le_mul_of_pos_right _ (by positivity)).trans (mul_pow_le_ofDigitChars significand digits)

/-- Digits behind others take them no further than a place up each. -/
theorem ofDigitChars_lt {ds : List Char} (hds : ∀ c ∈ ds, c.isDigit = true) (significand : ℕ) :
    Nat.ofDigitChars 10 ds significand < (significand + 1) * 10 ^ ds.length := by
  induction ds generalizing significand with
  | nil => simp
  | cons c cs ih =>
    rw [List.forall_mem_cons] at hds
    have hdigit : c.toNat - '0'.toNat ≤ 9 := by
      have hc := hds.1
      simp only [Char.isDigit, Bool.and_eq_true, decide_eq_true_eq, UInt32.le_iff_toNat_le] at hc
      exact Nat.sub_le_of_le_add hc.2
    rw [Nat.ofDigitChars_cons, List.length_cons]
    calc Nat.ofDigitChars 10 cs (10 * significand + (c.toNat - '0'.toNat))
        < (10 * significand + (c.toNat - '0'.toNat) + 1) * 10 ^ cs.length := ih hds.2 _
      _ ≤ (10 * significand + 9 + 1) * 10 ^ cs.length := by gcongr
      _ = (significand + 1) * 10 ^ (cs.length + 1) := by ring

/-- Digits stand for a number with no more digits. -/
theorem ofDigitChars_lt_pow {ds : List Char} (hds : ∀ c ∈ ds, c.isDigit = true) :
    Nat.ofDigitChars 10 ds 0 < 10 ^ ds.length := by
  have hlt := ofDigitChars_lt hds 0
  rwa [Nat.zero_add, Nat.one_mul] at hlt

/-! ## What a numeral stands for -/

/-- All digits of a numeral as a natural number. -/
def significand (n : Numeral) : ℕ :=
  Nat.ofDigitChars 10 (n.whole ++ n.fraction) 0

/-- The power of ten of the last digit of a numeral. -/
def power (n : Numeral) : ℤ :=
  exponentValue n.exponent - n.fraction.length

/-- The absolute value of the rational that a numeral spells. -/
def value (n : Numeral) : ℚ :=
  n.significand * 10 ^ n.power

/-- Reading the numeral rounds once: the significand and the power of ten are kept exactly. -/
structure IsExact (n : Numeral) : Prop where
  /-- The significand is kept: it has at most 53 binary digits, and a zero perhaps. -/
  significand : ∃ k e, 0 < k ∧ k < 2 ^ 53 ∧ e ≤ 1 ∧ n.significand = k * 2 ^ e
  /-- The power of ten is not too small. -/
  least : -Magnitude.exactPower ≤ n.power
  /-- The power of ten is not too great. -/
  greatest : n.power ≤ Magnitude.exactPower

/-- Digits that fit into the significand are all absorbed. -/
theorem absorb_eq {significand : ℕ} {digits : List Char}
    (h : Nat.ofDigitChars 10 digits significand < 2 ^ 64) :
    absorb significand digits = (Nat.ofDigitChars 10 digits significand, []) := by
  induction digits generalizing significand with
  | nil => rfl
  | cons c cs ih =>
    have hdigit : 10 * significand + (c.toNat - '0'.toNat) = significand * 10 + digitValue c := by
      rw [mul_comm, digitValue]
    rw [Nat.ofDigitChars_cons, hdigit] at h ⊢
    have hfits : significand * 10 + digitValue c < 0x10000000000000000 :=
      (le_ofDigitChars _ cs).trans_lt h
    rw [absorb, if_pos hfits, ih h]

/-- A numeral whose digits all fit into the significand is read as its significand, rounded, and
scaled by its power of ten. -/
theorem float?_eq {n : Numeral} (h : n.significand < 2 ^ 64) :
    n.float? = ((Magnitude.ofFraction n.significand 1).bind (·.scaled n.power)).map
      (Binary64.mk n.negative) := by
  have hdigits : Nat.ofDigitChars 10 n.fraction (Nat.ofDigitChars 10 n.whole 0) =
      n.significand := (Nat.ofDigitChars_append 0).symm
  have hwhole : Nat.ofDigitChars 10 n.whole 0 < 2 ^ 64 :=
    (le_ofDigitChars _ n.fraction).trans_lt (hdigits ▸ h)
  have hpower : ((0 : ℕ) : ℤ) - (n.fraction.length - (0 : ℕ)) + exponentValue n.exponent =
      n.power := by
    rw [power]
    push_cast
    ring
  rw [← hdigits] at h ⊢
  simp only [float?, absorb_eq hwhole, absorb_eq h, List.length_nil, hpower]
  cases Magnitude.ofFraction (Nat.ofDigitChars 10 n.fraction (Nat.ofDigitChars 10 n.whole 0)) 1 with
  | none => rfl
  | some start => cases hscaled : start.scaled n.power <;> simp [hscaled]

/-- A numeral of at most 53 binary digits and a small power of ten is exact. -/
theorem isExact_of_lt {n : Numeral} (hpos : 0 < n.significand) (hlt : n.significand < 2 ^ 53)
    (hleast : -Magnitude.exactPower ≤ n.power) (hgreatest : n.power ≤ Magnitude.exactPower) :
    n.IsExact :=
  ⟨⟨n.significand, 0, hpos, hlt, Nat.zero_le 1, (Nat.mul_one _).symm⟩, hleast, hgreatest⟩

/-- An exact numeral is read as the rational that it spells, rounded once. -/
theorem exists_float?_eq {n : Numeral} (h : n.IsExact) :
    ∃ num den : ℕ, 0 < num ∧ 0 < den ∧ (num : ℚ) / den = n.value ∧
      n.float? = (Magnitude.ofFraction num den).map (Binary64.mk n.negative) := by
  obtain ⟨k, e, hk, hlt, he, hsignificand⟩ := h.significand
  have hbound : n.significand < 2 ^ 64 := by
    have : 2 ^ e ≤ 2 ^ 1 := Nat.pow_le_pow_right (by decide) he
    rw [hsignificand]
    nlinarith
  have hstart : ((n.significand : ℕ) : ℚ) / (1 : ℕ) = k * 2 ^ (e : ℤ) := by
    rw [hsignificand, zpow_natCast]
    push_cast
    rw [div_one]
  obtain ⟨start, hstart', hpos, hvalue⟩ := Magnitude.exists_ofFraction_eq one_pos hk hlt
    (by rw [Magnitude.leastExponent]; omega) (by rw [Magnitude.greatestExponent]; omega) hstart
  obtain ⟨num, den, hnum, hden, hratio, hscaled⟩ :=
    Magnitude.exists_scaled_eq hpos h.least h.greatest
  refine ⟨num, den, hnum, hden, ?_, ?_⟩
  · rw [hratio, hvalue, value]
    push_cast
    rw [div_one]
  · rw [float?_eq hbound, hstart', Option.bind_some, hscaled]

end Numeral

namespace Scientific

open Numeral

/-- The first digit of a decimal is not zero, so there is no shorter one. -/
theorem IsProper.pow_le_ofDigitChars {s : Scientific} (hs : s.IsProper) :
    10 ^ (s.digits.length - 1) ≤ Nat.ofDigitChars 10 s.digits 0 := by
  obtain ⟨c, cs, hdigits, hc⟩ := hs.leading
  have hdigit := hs.digits c (by simp [hdigits])
  simp only [Char.isDigit, Bool.and_eq_true, decide_eq_true_eq, UInt32.le_iff_toNat_le] at hdigit
  have hne : c.val.toNat ≠ '0'.val.toNat := fun h => hc (Char.ext (UInt32.toNat_inj.mp h))
  have hfirst : 0 < c.toNat - '0'.toNat :=
    Nat.sub_pos_of_lt (lt_of_le_of_ne hdigit.1 (Ne.symm hne))
  rw [hdigits, Nat.ofDigitChars_cons, List.length_cons, Nat.add_sub_cancel]
  exact (Nat.le_mul_of_pos_left _ (by omega)).trans (mul_pow_le_ofDigitChars _ cs)

theorem IsProper.ofDigitChars_pos {s : Scientific} (hs : s.IsProper) :
    0 < Nat.ofDigitChars 10 s.digits 0 :=
  lt_of_lt_of_le (by positivity) hs.pow_le_ofDigitChars

/-- A decimal lies between its power of ten and the next one. -/
theorem IsProper.value_bounds {s : Scientific} (hs : s.IsProper) :
    (10 : ℚ) ^ s.exponent ≤ s.value ∧ s.value < 10 ^ (s.exponent + 1) := by
  have hlength : 0 < s.digits.length := by
    obtain ⟨c, cs, hdigits, -⟩ := hs.leading
    simp [hdigits]
  have hlower : ((10 ^ (s.digits.length - 1) : ℕ) : ℚ) ≤ Nat.ofDigitChars 10 s.digits 0 := by
    exact_mod_cast hs.pow_le_ofDigitChars
  have hupper : ((Nat.ofDigitChars 10 s.digits 0 : ℕ) : ℚ) < (10 ^ s.digits.length : ℕ) := by
    exact_mod_cast ofDigitChars_lt_pow hs.digits
  have hunit : (0 : ℚ) < 10 ^ (s.exponent + 1 - s.digits.length) := by positivity
  rw [value]
  constructor
  · calc (10 : ℚ) ^ s.exponent
        = (10 ^ (s.digits.length - 1) : ℕ) * 10 ^ (s.exponent + 1 - s.digits.length) := by
          push_cast
          rw [← zpow_natCast, ← zpow_add₀ (by norm_num)]
          congr 1
          omega
      _ ≤ Nat.ofDigitChars 10 s.digits 0 * 10 ^ (s.exponent + 1 - s.digits.length) := by gcongr
  · calc Nat.ofDigitChars 10 s.digits 0 * (10 : ℚ) ^ (s.exponent + 1 - s.digits.length)
        < (10 ^ s.digits.length : ℕ) * 10 ^ (s.exponent + 1 - s.digits.length) := by gcongr
      _ = 10 ^ (s.exponent + 1) := by
          push_cast
          rw [← zpow_natCast, ← zpow_add₀ (by norm_num)]
          congr 1
          ring

/-- A text spells an exact numeral that is no integer and stands for a rational. -/
def SpellsExactly (cs : List Char) (v : ℚ) : Prop :=
  ∀ negative, ∃ n : Numeral, unsigned? negative cs = some n ∧ n.negative = negative ∧
    n.isIntegral = false ∧ n.IsExact ∧ n.value = v

section Layouts

variable {s : Scientific} (hs : s.IsProper)

include hs

/-- A decimal that is a natural number is written with a zero behind the point, which is kept as a
binary digit. -/
theorem spellsExactly_whole (hnonneg : 0 ≤ s.exponent) (hgreatest : s.exponent ≤ 14)
    (hshort : s.digits.length ≤ s.exponent.toNat + 1) :
    SpellsExactly (s.digits ++ List.replicate (s.exponent.toNat + 1 - s.digits.length) '0' ++
      ['.', '0']) s.value := by
  intro negative
  generalize hcount : s.exponent.toNat + 1 - s.digits.length = count
  have hread := hs.unsigned?_whole negative count
  generalize hn : (⟨negative, s.digits ++ List.replicate count '0', ['0'], none⟩ : Numeral) = n
    at hread
  have hsignificand :
      n.significand = 5 * (10 ^ count * Nat.ofDigitChars 10 s.digits 0) * 2 ^ 1 := by
    rw [← hn, significand]
    simp only [Nat.ofDigitChars_append, Nat.ofDigitChars_replicate_zero, Nat.ofDigitChars_cons,
      Nat.ofDigitChars_nil, Nat.sub_self]
    ring
  have hpower : n.power = -1 := by rw [← hn]; rfl
  -- The number itself is below `10 ^ 15`, five times of which fits into 53 binary digits.
  have hlt : 10 ^ count * Nat.ofDigitChars 10 s.digits 0 < 10 ^ 15 := by
    have hdigits' := ofDigitChars_lt_pow hs.digits
    calc 10 ^ count * Nat.ofDigitChars 10 s.digits 0
        < 10 ^ count * 10 ^ s.digits.length := by gcongr
      _ = 10 ^ (count + s.digits.length) := (pow_add ..).symm
      _ ≤ 10 ^ 15 := Nat.pow_le_pow_right (by decide) (by omega)
  have hpos : 0 < 10 ^ count * Nat.ofDigitChars 10 s.digits 0 :=
    Nat.mul_pos (by positivity) hs.ofDigitChars_pos
  refine ⟨n, hread, by rw [← hn], by rw [← hn]; rfl, ⟨?_, ?_, ?_⟩, ?_⟩
  · exact ⟨_, 1, by omega, by omega, le_rfl, hsignificand⟩
  · rw [hpower, Magnitude.exactPower]
    omega
  · rw [hpower, Magnitude.exactPower]
    omega
  · have hexponent : s.exponent + 1 - s.digits.length = count := by omega
    rw [Numeral.value, hsignificand, hpower, Scientific.value, hexponent, zpow_natCast]
    push_cast
    ring

variable (hlength : s.digits.length ≤ 15)

include hlength

/-- The digits of a short decimal are kept. -/
theorem IsProper.ofDigitChars_lt_two_pow : Nat.ofDigitChars 10 s.digits 0 < 2 ^ 53 :=
  calc Nat.ofDigitChars 10 s.digits 0
      < 10 ^ s.digits.length := ofDigitChars_lt_pow hs.digits
    _ ≤ 10 ^ 15 := Nat.pow_le_pow_right (by decide) hlength
    _ < 2 ^ 53 := by decide

/-- A text that spells the digits of a short decimal with a small power of ten spells the decimal
exactly. -/
theorem spellsExactly_of_digits {cs : List Char}
    (hleast : -Magnitude.exactPower ≤ s.exponent + 1 - s.digits.length)
    (hgreatest : s.exponent + 1 - s.digits.length ≤ Magnitude.exactPower)
    (h : ∀ negative, ∃ n : Numeral, unsigned? negative cs = some n ∧ n.negative = negative ∧
      n.isIntegral = false ∧ n.significand = Nat.ofDigitChars 10 s.digits 0 ∧
      n.power = s.exponent + 1 - s.digits.length) : SpellsExactly cs s.value := by
  intro negative
  obtain ⟨n, hread, hnegative, hintegral, hsignificand, hpower⟩ := h negative
  refine ⟨n, hread, hnegative, hintegral, isExact_of_lt ?_ ?_ ?_ ?_, ?_⟩
  · rw [hsignificand]
    exact hs.ofDigitChars_pos
  · rw [hsignificand]
    exact hs.ofDigitChars_lt_two_pow hlength
  · rwa [hpower]
  · rwa [hpower]
  · rw [Numeral.value, hsignificand, hpower, Scientific.value]

/-- A decimal below one is written with zeros behind the point. -/
theorem spellsExactly_below (hleast : -5 ≤ s.exponent) (hneg : s.exponent < 0) :
    SpellsExactly ('0' :: '.' :: List.replicate ((-s.exponent).toNat - 1) '0' ++ s.digits)
      s.value := by
  refine spellsExactly_of_digits hs hlength (by rw [Magnitude.exactPower]; omega)
    (by rw [Magnitude.exactPower]; omega) fun negative => ?_
  have hne : List.replicate ((-s.exponent).toNat - 1) '0' ++ s.digits ≠ [] := by
    obtain ⟨c, cs, hdigits, -⟩ := hs.leading
    simp [hdigits]
  refine ⟨_, hs.unsigned?_below negative _, rfl, ?_, ?_, ?_⟩
  · rw [isIntegral, List.isEmpty_eq_false_iff.mpr hne]
    rfl
  · rw [significand]
    simp [Nat.ofDigitChars_append, Nat.ofDigitChars_replicate_zero, Nat.ofDigitChars_cons]
  · rw [power, exponentValue, List.length_append, List.length_replicate]
    push_cast
    omega

/-- A decimal above one with digits behind the point. -/
theorem spellsExactly_split (hnonneg : 0 ≤ s.exponent)
    (hlong : s.exponent.toNat + 1 < s.digits.length) :
    SpellsExactly (s.digits.take (s.exponent.toNat + 1) ++
      '.' :: s.digits.drop (s.exponent.toNat + 1)) s.value := by
  refine spellsExactly_of_digits hs hlength (by rw [Magnitude.exactPower]; omega)
    (by rw [Magnitude.exactPower]; omega) fun negative => ?_
  refine ⟨_, hs.unsigned?_split negative (Nat.succ_pos _) hlong, rfl, ?_, ?_, ?_⟩
  · rw [isIntegral, List.isEmpty_eq_false_iff.mpr (List.drop_eq_nil_iff.not.mpr (by omega))]
    rfl
  · rw [significand, List.take_append_drop]
  · rw [power, exponentValue, List.length_drop]
    omega

/-- A decimal with a power of ten. -/
theorem spellsExactly_withPower (hleast : -8 ≤ s.exponent) (hneg : s.exponent < 0) :
    SpellsExactly s.withPower s.value := by
  refine spellsExactly_of_digits hs hlength (by rw [Magnitude.exactPower]; omega)
    (by rw [Magnitude.exactPower]; omega) fun negative => ?_
  obtain ⟨c, cs, hdigits, hread⟩ := hs.unsigned?_withPower negative
  refine ⟨_, hread, rfl, ?_, ?_, ?_⟩
  · rw [isIntegral, Option.isNone_some, Bool.and_false]
  · rw [significand, hdigits, List.singleton_append]
  · have habs : (s.exponent.natAbs : ℤ) = -s.exponent := by omega
    rw [power, exponentValue, if_pos (decide_eq_true hneg), Nat.ofDigitChars_ten_toDigits, habs,
      hdigits, List.length_cons]
    push_cast
    omega

/-- A short decimal in a moderate range is written as an exact numeral. -/
theorem spellsExactly_chars (hleast : -8 ≤ s.exponent) (hgreatest : s.exponent ≤ 14) :
    SpellsExactly s.chars s.value := by
  rw [Scientific.chars]
  split
  next hlayout =>
    obtain ⟨hleast', -⟩ := hlayout
    rw [positional]
    split
    next hneg => exact spellsExactly_below hs hlength hleast' hneg
    next hnonneg =>
      simp only
      split
      next hshort =>
        exact spellsExactly_whole hs (Int.not_lt.mp hnonneg) hgreatest hshort
      next hlong =>
        exact spellsExactly_split hs hlength (Int.not_lt.mp hnonneg) (Nat.not_le.mp hlong)
  next hlayout =>
    -- There is no layout with a power of ten for a decimal above one that is not great.
    have hneg : s.exponent < 0 := by
      rw [layout] at hlayout
      simp only at hlayout
      omega
    exact spellsExactly_withPower hs hlength hleast hneg

end Layouts

end Scientific

/-! ## Numbers that read back -/

namespace Binary64

open Magnitude

theorem readsBack_zero (negative : Bool) : ReadsBack ⟨negative, .zero⟩ := by
  cases negative <;> decide +kernel

/-- A number with a decimal of at most fifteen digits in its interval reads back if it is neither
very great nor very small: the shortest decimal has no more digits, and reading it rounds once. -/
theorem readsBack_of_rounds {x : Binary64} (hnormal : x.magnitude.IsNormal)
    (hpos : 0 < x.magnitude.significand) {d : ℕ} (hd : d < 10 ^ 15) {power : ℤ}
    (h : x.magnitude.Rounds (d * 10 ^ power)) (hlower : (10 : ℚ) ^ (-7 : ℤ) ≤ d * 10 ^ power)
    (hupper : d * 10 ^ power < (10 : ℚ) ^ (14 : ℤ)) : x.ReadsBack := by
  obtain ⟨hproper, hlength, hrounds⟩ :=
    rounds_shortest hpos (by decide : 15 ≤ mostDigits) hd h
  -- The decimal is not far from the given one, so its power of ten is in the range too.
  obtain ⟨hleast, hgreatest⟩ := hproper.value_bounds
  have hleast' : (10 : ℚ) ^ (-8 : ℤ) < 10 ^ (x.magnitude.shortest.exponent + 1) := by
    have := hrounds.le_three_mul hpos h
    norm_num at hlower ⊢
    linarith
  have hgreatest' : (10 : ℚ) ^ x.magnitude.shortest.exponent < 10 ^ (15 : ℤ) := by
    have := h.le_three_mul hpos hrounds
    norm_num at hupper ⊢
    linarith
  rw [zpow_lt_zpow_iff_right₀ (by norm_num)] at hleast' hgreatest'
  obtain ⟨n, hread, hnegative, hintegral, hexact, hvalue⟩ :=
    Scientific.spellsExactly_chars hproper hlength (by omega) (by omega) x.negative
  obtain ⟨num, den, hnum, hden, hratio, hfloat⟩ := Numeral.exists_float?_eq hexact
  have hmagnitude : ofFraction num den = some x.magnitude :=
    ofFraction_eq_some hnum hden hpos hnormal (by rwa [hratio, hvalue])
  have hnumber : n.number? = some (.float x) := by
    rw [Numeral.number?]
    simp only [hintegral, Bool.false_eq_true, if_false]
    rw [hfloat, hmagnitude, hnegative]
    rfl
  have htext : Numeral.ofChars? x.chars = some n := by
    have hzero : ¬x.magnitude.isZero = true := by
      rw [isZero, beq_iff_eq]
      exact hpos.ne'
    rw [Binary64.chars, if_neg hzero]
    split
    next hsign =>
      rw [hsign] at hread
      exact hread
    next hsign =>
      rw [Bool.eq_false_iff.mpr hsign] at hread
      exact Numeral.ofChars?_of_unsigned? hread
  rw [ReadsBack, Number.ofChars?, htext, Option.bind_some, hnumber]

end Binary64

/-- A numeral has at most fifteen digits up to zeros in front, and is zero or neither very great nor
very small. -/
structure Numeral.IsModerate (n : Numeral) : Prop where
  /-- There are few digits. -/
  few : n.significand < 10 ^ 15
  /-- The value is zero or in the range. -/
  range : n.significand = 0 ∨ (10 : ℚ) ^ (-7 : ℤ) ≤ n.value ∧ n.value < (10 : ℚ) ^ (14 : ℤ)

/-- The power of ten of a moderate numeral is kept exactly. -/
theorem Numeral.IsModerate.isExact {n : Numeral} (h : n.IsModerate) (hpos : 0 < n.significand) :
    n.IsExact := by
  obtain ⟨hlower, hupper⟩ := h.range.resolve_left hpos.ne'
  have hunit : (0 : ℚ) < 10 ^ n.power := by positivity
  have hone : (1 : ℚ) ≤ n.significand := by exact_mod_cast hpos
  have hfew : (n.significand : ℚ) < 10 ^ (15 : ℤ) := by exact_mod_cast h.few
  have hleast : (10 : ℚ) ^ (-7 : ℤ) < 10 ^ (15 + n.power) := by
    rw [zpow_add₀ (by norm_num)]
    exact hlower.trans_lt (mul_lt_mul_of_pos_right hfew hunit)
  have hgreatest : (10 : ℚ) ^ n.power < 10 ^ (14 : ℤ) :=
    (le_mul_of_one_le_left hunit.le hone).trans_lt hupper
  rw [zpow_lt_zpow_iff_right₀ (by norm_num)] at hleast hgreatest
  exact isExact_of_lt hpos (h.few.trans (by decide)) (by rw [Magnitude.exactPower]; omega)
    (by rw [Magnitude.exactPower]; omega)

/-- A number is read from a moderate numeral. -/
def Binary64.IsModerate (x : Binary64) : Prop :=
  ∃ n : Numeral, n.IsModerate ∧ n.float? = some x

/-- A number that is read from a moderate numeral reads back. -/
theorem Binary64.IsModerate.readsBack {x : Binary64} (hx : x.IsModerate) : x.ReadsBack := by
  obtain ⟨n, h, hx⟩ := hx
  rcases Nat.eq_zero_or_pos n.significand with hzero | hpos
  · rw [Numeral.float?_eq (h.few.trans (by decide)), hzero, Magnitude.ofFraction_zero,
      Option.bind_some, Option.map_eq_some_iff] at hx
    obtain ⟨m, hm, rfl⟩ := hx
    rw [Magnitude.eq_zero_of_scaled hm]
    exact readsBack_zero n.negative
  · obtain ⟨hlower, hupper⟩ := h.range.resolve_left hpos.ne'
    obtain ⟨num, den, hnum, hden, hratio, hfloat⟩ := Numeral.exists_float?_eq (h.isExact hpos)
    rw [hfloat, Option.map_eq_some_iff] at hx
    obtain ⟨m, hm, rfl⟩ := hx
    have hleast : (2 : ℚ) ^ Magnitude.leastExponent ≤ num / den := by
      rw [hratio]
      refine le_trans ?_ hlower
      calc (2 : ℚ) ^ Magnitude.leastExponent ≤ 2 ^ (-24 : ℤ) :=
            zpow_le_zpow_right₀ one_le_two (by decide)
        _ ≤ 10 ^ (-7 : ℤ) := by norm_num
    have hsignificand := Magnitude.significand_pos_of_ofFraction hnum hden hleast hm
    obtain ⟨hnormal, hrounds⟩ := Magnitude.rounds_of_ofFraction hnum hden hsignificand hm
    rw [hratio] at hrounds
    exact readsBack_of_rounds hnormal hsignificand h.few hrounds hlower hupper

end Runbook
