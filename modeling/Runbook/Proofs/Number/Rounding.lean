import Mathlib.Algebra.Order.Field.Power
import Mathlib.Data.Rat.Lemmas
import Mathlib.Tactic.FieldSimp
import Mathlib.Tactic.Linarith
import Mathlib.Tactic.NormNum
import Mathlib.Tactic.Positivity
import Mathlib.Tactic.Ring
import Runbook.Number.Binary64

/-!
# Rounding to double precision

What `Magnitude.ofFraction` computes, in rationals: the number whose interval holds the fraction.
The interval of a number reaches half a last place up and down, or only a quarter down right above a
power of two, where the next number below is nearer; its ends belong to it if the significand is
even.

## Main definitions

* `Magnitude.value`: the rational that is stood for;
* `Magnitude.IsNormal`: the form that operations give;
* `Magnitude.Rounds`: a rational is in the interval of a number.

## Main results

* `Magnitude.rounds_of_ofFraction`, `Magnitude.ofFraction_eq_some`: a fraction is rounded to the
  number in whose interval it is;
* `Magnitude.exists_ofFraction_eq`: a fraction that can be kept is kept.
-/

namespace Runbook.Magnitude

/-- The rational that a number stands for. -/
def value (m : Magnitude) : ℚ :=
  m.significand * 2 ^ m.exponent

/-- The form that operations give: 53 digits, or fewer with the least exponent. -/
structure IsNormal (m : Magnitude) : Prop where
  /-- There are 53 digits at most. -/
  lt : m.significand < 2 ^ 53
  /-- The exponent is not too small. -/
  least : leastExponent ≤ m.exponent
  /-- The exponent is not too great. -/
  greatest : m.exponent ≤ greatestExponent
  /-- There are 53 digits unless the exponent is the least one. -/
  full : m.exponent = leastExponent ∨ 2 ^ 52 ≤ m.significand

/-- A quotient of powers with natural exponents, one of which is zero. -/
theorem pow_toNat_div (b : ℚ) (e : ℤ) : b ^ e.toNat / b ^ (-e).toNat = b ^ e := by
  rcases e.eq_nat_or_neg with ⟨n, rfl | rfl⟩
  · simp
  · simp

theorem numerator_div_denominator (m : Magnitude) :
    (m.numerator : ℚ) / m.denominator = m.value := by
  rw [numerator, denominator, Nat.shiftLeft_eq, Nat.shiftLeft_eq, one_mul, value,
    ← pow_toNat_div]
  push_cast
  rw [mul_div_assoc]

/-! ## The nearest natural number -/

/-- A natural number is nearest to a rational, and even if another one is just as near. -/
structure IsNearest (x : ℚ) (n : ℕ) : Prop where
  /-- The rational is at most one half below. -/
  lower : (n : ℚ) - 1 / 2 ≤ x
  /-- The rational is at most one half above. -/
  upper : x ≤ n + 1 / 2
  /-- Of two numbers at the same distance it is the even one. -/
  even : x = n - 1 / 2 ∨ x = n + 1 / 2 → n % 2 = 0

/-- Only one natural number is nearest to a rational. -/
theorem IsNearest.unique {x : ℚ} {n n' : ℕ} (h : IsNearest x n) (h' : IsNearest x n') : n = n' := by
  have hle : n ≤ n' + 1 := by
    have : (n : ℚ) ≤ (n' + 1 : ℕ) := by push_cast; linarith [h.lower, h'.upper]
    exact_mod_cast this
  have hge : n' ≤ n + 1 := by
    have : (n' : ℚ) ≤ (n + 1 : ℕ) := by push_cast; linarith [h'.lower, h.upper]
    exact_mod_cast this
  by_contra hne
  -- Two different ones are neighbours with the rational in the middle, and both even.
  rcases (by omega : n = n' + 1 ∨ n' = n + 1) with rfl | rfl
  · have hx : x = n' + 1 / 2 := by
      have := h.lower
      push_cast at this
      linarith [h'.upper]
    have heven := h.even (.inl (by push_cast; linarith))
    have heven' := h'.even (.inr hx)
    omega
  · have hx : x = n + 1 / 2 := by
      have := h'.lower
      push_cast at this
      linarith [h.upper]
    have heven := h'.even (.inl (by push_cast; linarith))
    have heven' := h.even (.inr hx)
    omega

/-- A natural number is nearest to itself. -/
theorem isNearest_natCast (n : ℕ) : IsNearest n n :=
  ⟨by linarith, by linarith, by rintro (h | h) <;> linarith⟩

/-- The rounded quotient is nearest to the quotient. -/
theorem isNearest_roundDiv (num : ℕ) {den : ℕ} (hden : 0 < den) :
    IsNearest (num / den) (roundDiv num den) := by
  have hpos : (0 : ℚ) < den := by exact_mod_cast hden
  have hrest : num % den < den := Nat.mod_lt num hden
  have hnum : den * (num / den) + num % den = num := Nat.div_add_mod num den
  rw [roundDiv]
  generalize num / den = quotient at hnum ⊢
  generalize num % den = rest at hnum hrest ⊢
  -- The fraction is the quotient and a part less than one, which is compared to one half.
  have hsplit : (num : ℚ) / den = quotient + rest / den := by
    rw [← hnum]
    push_cast
    field_simp
  have hnonneg : (0 : ℚ) ≤ rest / den := by positivity
  have hlt : (rest : ℚ) / den < 1 := by
    rw [div_lt_one hpos]
    exact_mod_cast hrest
  have hle : (rest : ℚ) / den ≤ 1 / 2 ↔ 2 * rest ≤ den := by
    rw [div_le_div_iff₀ hpos two_pos, one_mul, mul_comm]
    exact_mod_cast Iff.rfl
  have hge : 1 / 2 ≤ (rest : ℚ) / den ↔ den ≤ 2 * rest := by
    rw [div_le_div_iff₀ two_pos hpos, one_mul, mul_comm]
    exact_mod_cast Iff.rfl
  rw [hsplit]
  split
  next hdown =>
    refine ⟨by linarith, by linarith [hle.mpr (by omega)], ?_⟩
    rintro (h | h)
    · linarith
    · have := hge.mp (by linarith)
      omega
  next hup =>
    have hhalf := hge.mpr (by omega)
    refine ⟨by push_cast; linarith, by push_cast; linarith, ?_⟩
    push_cast
    rintro (h | h)
    · have := hle.mp (by linarith)
      omega
    · linarith

/-! ## The last place -/

/-- The exponent of the last place that a positive rational has when it is rounded. -/
structure IsLastPlace (v : ℚ) (e : ℤ) : Prop where
  /-- It is not too small. -/
  least : leastExponent ≤ e
  /-- There are 53 digits at most. -/
  lt : v < 2 ^ (e + 53)
  /-- There are 53 digits unless the exponent is the least one. -/
  full : e = leastExponent ∨ 2 ^ (e + 52) ≤ v

/-- A rational has one last place only. -/
theorem IsLastPlace.unique {v : ℚ} {e e' : ℤ} (h : IsLastPlace v e) (h' : IsLastPlace v e') :
    e = e' := by
  -- The greater one is not the least one, so the rational is too great for the smaller one.
  have hle {e e' : ℤ} (h : IsLastPlace v e) (h' : IsLastPlace v e') : e' ≤ e := by
    by_contra hlt
    have hfull : 2 ^ (e' + 52) ≤ v := h'.full.resolve_left (by have := h.least; omega)
    have hpow : (2 : ℚ) ^ (e + 53) ≤ 2 ^ (e' + 52) :=
      zpow_le_zpow_right₀ one_le_two (by omega)
    linarith [h.lt]
  exact le_antisymm (hle h' h) (hle h h')

/-- A natural number lies between the powers of two that its logarithm tells. -/
private theorem log2_bounds {n : ℕ} (h : 0 < n) :
    (2 : ℚ) ^ (n.log2 : ℤ) ≤ n ∧ (n : ℚ) < 2 ^ ((n.log2 : ℤ) + 1) := by
  constructor
  · rw [zpow_natCast]
    exact_mod_cast Nat.log2_self_le h.ne'
  · have hlt : (n : ℚ) < (2 ^ (n.log2 + 1) : ℕ) := by exact_mod_cast Nat.lt_log2_self
    exact_mod_cast hlt

/-- The test of `Magnitude.lastPlace` compares the fraction to a power of two. -/
private theorem shiftLeft_le_iff {num den : ℕ} (hden : 0 < den) (e : ℤ) :
    den <<< e.toNat <<< 53 ≤ num <<< (-e).toNat ↔ (2 : ℚ) ^ (e + 53) ≤ num / den := by
  have hpos : (0 : ℚ) < den := by exact_mod_cast hden
  have hscale : (0 : ℚ) < 2 ^ (-e).toNat := by positivity
  have hpow : (2 : ℚ) ^ (e + 53) = 2 ^ e.toNat * 2 ^ 53 / 2 ^ (-e).toNat := by
    rw [zpow_add₀ two_ne_zero, ← pow_toNat_div, div_mul_eq_mul_div]
    norm_cast
  rw [hpow, div_le_div_iff₀ hscale hpos]
  rw [Nat.shiftLeft_eq, Nat.shiftLeft_eq, Nat.shiftLeft_eq, ← Nat.cast_le (α := ℚ)]
  simp only [Nat.cast_mul, Nat.cast_pow, Nat.cast_ofNat]
  rw [mul_comm (den : ℚ), mul_right_comm]

/-- The last place of a fraction is found. -/
theorem isLastPlace_lastPlace {num den : ℕ} (hnum : 0 < num) (hden : 0 < den) :
    IsLastPlace (num / den) (lastPlace num den) := by
  have hpos : (0 : ℚ) < den := by exact_mod_cast hden
  obtain ⟨hnumle, hnumlt⟩ := log2_bounds hnum
  obtain ⟨hdenle, hdenlt⟩ := log2_bounds hden
  -- The logarithms leave the fraction between two powers of two that are two places apart.
  have hlower : (2 : ℚ) ^ ((num.log2 : ℤ) - den.log2 - 1) < num / den := by
    rw [lt_div_iff₀ hpos]
    calc (2 : ℚ) ^ ((num.log2 : ℤ) - den.log2 - 1) * den
        < 2 ^ ((num.log2 : ℤ) - den.log2 - 1) * 2 ^ ((den.log2 : ℤ) + 1) := by gcongr
      _ = 2 ^ (num.log2 : ℤ) := by rw [← zpow_add₀ two_ne_zero]; congr 1; ring
      _ ≤ num := hnumle
  have hupper : (num : ℚ) / den < 2 ^ ((num.log2 : ℤ) - den.log2 + 1) := by
    rw [div_lt_iff₀ hpos]
    calc (num : ℚ) < 2 ^ ((num.log2 : ℤ) + 1) := hnumlt
      _ = 2 ^ ((num.log2 : ℤ) - den.log2 + 1) * 2 ^ (den.log2 : ℤ) := by
        rw [← zpow_add₀ two_ne_zero]; congr 1; ring
      _ ≤ 2 ^ ((num.log2 : ℤ) - den.log2 + 1) * den := by gcongr
  have hmono {a b : ℤ} (h : a ≤ b) : (2 : ℚ) ^ a ≤ 2 ^ b := zpow_le_zpow_right₀ one_le_two h
  rw [lastPlace]
  generalize hplace : max ((num.log2 : ℤ) - den.log2 - 53) leastExponent = place
  have hbound : (num.log2 : ℤ) - den.log2 - 53 ≤ place ∧ leastExponent ≤ place := by omega
  simp only [shiftLeft_le_iff hden]
  split
  next hgreat =>
    refine ⟨by omega, hupper.trans_le (hmono (by omega)), .inr ?_⟩
    rwa [show place + 1 + 52 = place + 53 by ring]
  next hsmall =>
    refine ⟨hbound.2, lt_of_not_ge hsmall, ?_⟩
    rcases le_total ((num.log2 : ℤ) - den.log2 - 53) leastExponent with hleast | hfits
    · exact .inl (by omega)
    · exact .inr ((hmono (by omega)).trans hlower.le)

/-! ## Rounding -/

/-- The fraction in units of a last place. -/
private theorem shiftLeft_div_shiftLeft (num den : ℕ) (e : ℤ) :
    ((num <<< (-e).toNat : ℕ) : ℚ) / (den <<< e.toNat : ℕ) = num / den / 2 ^ e := by
  rw [Nat.shiftLeft_eq, Nat.shiftLeft_eq, ← pow_toNat_div]
  push_cast
  field_simp

/-- The significand of a rounded fraction is nearest to the fraction in units of the last place. -/
private theorem isNearest_significand (num : ℕ) {den : ℕ} (hden : 0 < den) (e : ℤ) :
    IsNearest (num / den / 2 ^ e) (roundDiv (num <<< (-e).toNat) (den <<< e.toNat)) := by
  have hscaled : 0 < den <<< e.toNat := by
    rw [Nat.shiftLeft_eq]
    positivity
  rw [← shiftLeft_div_shiftLeft]
  exact isNearest_roundDiv _ hscaled

/-- A positive fraction is rounded to the nearest multiple of its last place; one that has a digit
too many is written with the next place. -/
theorem ofFraction_eq_some_iff {num den : ℕ} (hnum : 0 < num) (hden : 0 < den) {m : Magnitude}
    (hm : 0 < m.significand) :
    ofFraction num den = some m ↔
      m.exponent ≤ greatestExponent ∧ ∃ e n, IsLastPlace (num / den) e ∧
        IsNearest (num / den / 2 ^ e) n ∧
          (n ≠ 2 ^ 53 ∧ m = ⟨n, e⟩ ∨ n = 2 ^ 53 ∧ m = ⟨2 ^ 52, e + 1⟩) := by
  have hplace := isLastPlace_lastPlace hnum hden
  have hnearest := isNearest_significand num hden (lastPlace num den)
  rw [ofFraction]
  generalize lastPlace num den = e at hplace hnearest ⊢
  generalize roundDiv (num <<< (-e).toNat) (den <<< e.toNat) = n at hnearest ⊢
  have hunique : (∃ e' n', IsLastPlace (num / den) e' ∧ IsNearest (num / den / 2 ^ e') n' ∧
      (n' ≠ 2 ^ 53 ∧ m = ⟨n', e'⟩ ∨ n' = 2 ^ 53 ∧ m = ⟨2 ^ 52, e' + 1⟩)) ↔
        (n ≠ 2 ^ 53 ∧ m = ⟨n, e⟩ ∨ n = 2 ^ 53 ∧ m = ⟨2 ^ 52, e + 1⟩) := by
    refine ⟨?_, fun h => ⟨e, n, hplace, hnearest, h⟩⟩
    rintro ⟨e', n', hplace', hnearest', h⟩
    obtain rfl := hplace'.unique hplace
    obtain rfl := hnearest'.unique hnearest
    exact h
  rw [hunique]
  rcases Nat.eq_zero_or_pos n with rfl | hn
  · -- Zero is written with its own exponent, and is excluded.
    rw [if_pos rfl]
    constructor
    · rintro ⟨⟩
      exact absurd hm (lt_irrefl 0)
    · rintro ⟨-, ⟨-, rfl⟩ | ⟨hcarry, -⟩⟩
      · exact absurd hm (lt_irrefl 0)
      · exact absurd hcarry (by decide)
  · rw [if_neg hn.ne']
    by_cases hcarry : n = 1 <<< 53
    · simp only [if_pos hcarry, Option.ite_none_right_eq_some, Option.some.injEq]
      constructor
      · rintro ⟨hgreatest, rfl⟩
        exact ⟨hgreatest, .inr ⟨hcarry, rfl⟩⟩
      · rintro ⟨hgreatest, ⟨hkeeps, -⟩ | ⟨-, rfl⟩⟩
        · exact absurd hcarry hkeeps
        · exact ⟨hgreatest, rfl⟩
    · simp only [if_neg hcarry, Option.ite_none_right_eq_some, Option.some.injEq]
      constructor
      · rintro ⟨hgreatest, rfl⟩
        exact ⟨hgreatest, .inl ⟨hcarry, rfl⟩⟩
      · rintro ⟨hgreatest, ⟨-, rfl⟩ | ⟨hkeeps, -⟩⟩
        · exact ⟨hgreatest, rfl⟩
        · exact absurd hkeeps hcarry

/-- Zero is kept. -/
theorem ofFraction_zero (den : ℕ) : ofFraction 0 den = some zero := by
  have hnearest (den : ℕ) : roundDiv 0 den = 0 := by
    rw [roundDiv]
    simp only [Nat.zero_div, Nat.zero_mod, Nat.mul_zero, and_true]
    rw [if_pos (by omega)]
  rw [ofFraction]
  simp only [Nat.zero_shiftLeft, hnearest, if_true]

/-- A fraction that is not below the least positive number is not rounded to zero. -/
theorem significand_pos_of_ofFraction {num den : ℕ} (hnum : 0 < num) (hden : 0 < den)
    {m : Magnitude} (hleast : (2 : ℚ) ^ leastExponent ≤ num / den)
    (h : ofFraction num den = some m) : 0 < m.significand := by
  have hplace := isLastPlace_lastPlace hnum hden
  have hnearest := isNearest_significand num hden (lastPlace num den)
  rw [ofFraction] at h
  generalize lastPlace num den = e at hplace hnearest h
  generalize roundDiv (num <<< (-e).toNat) (den <<< e.toNat) = n at hnearest h
  -- The fraction is at least one last place, so zero is not the nearest number.
  have hn : n ≠ 0 := by
    rintro rfl
    have hunit : (0 : ℚ) < 2 ^ e := by positivity
    have hone : (1 : ℚ) ≤ num / den / 2 ^ e := by
      rw [one_le_div hunit]
      rcases hplace.full with rfl | hfull
      · exact hleast
      · exact (zpow_le_zpow_right₀ one_le_two (by omega)).trans hfull
    have hupper := hnearest.upper
    push_cast at hupper
    linarith
  simp only [hn, if_false, Option.ite_none_right_eq_some, Option.some.injEq] at h
  obtain ⟨-, rfl⟩ := h
  split
  · exact (by decide : 0 < 1 <<< 52)
  · exact Nat.pos_of_ne_zero hn

/-! ## The interval of a number -/

/-- How many quarters of the last place an interval reaches down: right above a power of two the
next number below is only half a last place away. -/
def quartersBelow (m : Magnitude) : ℕ :=
  if m.significand = 2 ^ 52 ∧ m.exponent ≠ leastExponent then 1 else 2

/-- The lower end of the interval of a number. -/
def lowerEnd (m : Magnitude) : ℚ :=
  (4 * m.significand - m.quartersBelow) * 2 ^ (m.exponent - 2)

/-- The upper end of the interval of a number. -/
def upperEnd (m : Magnitude) : ℚ :=
  (4 * m.significand + 2) * 2 ^ (m.exponent - 2)

/-- A rational is in the interval of a number, the ends of which belong to it if the significand is
even. -/
structure Rounds (m : Magnitude) (v : ℚ) : Prop where
  /-- The rational is not below the interval. -/
  lower : m.lowerEnd ≤ v
  /-- The rational is not above the interval. -/
  upper : v ≤ m.upperEnd
  /-- If the rational is an end the significand is even. -/
  even : v = m.lowerEnd ∨ v = m.upperEnd → m.significand % 2 = 0

/-- A power of two with a greater exponent. -/
theorem two_zpow_eq {e k : ℤ} (n : ℕ) (h : e = k + n) : (2 : ℚ) ^ e = 2 ^ k * 2 ^ n := by
  rw [h, zpow_add₀ two_ne_zero, zpow_natCast]

theorem quartersBelow_le (m : Magnitude) : (m.quartersBelow : ℚ) ≤ 2 := by
  rw [quartersBelow]
  split <;> norm_num

theorem quartersBelow_pos (m : Magnitude) : (0 : ℚ) < m.quartersBelow := by
  rw [quartersBelow]
  split <;> norm_num

/-- A number in quarters of its last place. -/
theorem value_eq_quarters (m : Magnitude) :
    m.value = 4 * m.significand * 2 ^ (m.exponent - 2) := by
  rw [value, two_zpow_eq 2 (by push_cast; ring : m.exponent = m.exponent - 2 + (2 : ℕ))]
  ring

/-! ### Quarters of the last place

All comparisons with the ends of an interval are made in quarters of the last place. -/

section Quarters

variable {n : ℕ} {e : ℤ} {x v : ℚ}

theorem exists_quarters (v : ℚ) (e : ℤ) : ∃ x, v = x * 2 ^ (e - 2) :=
  ⟨v / 2 ^ (e - 2), (div_mul_cancel₀ v (by positivity)).symm⟩

private theorem rounds_quarters_iff :
    Rounds ⟨n, e⟩ (x * 2 ^ (e - 2)) ↔
      4 * n - quartersBelow ⟨n, e⟩ ≤ x ∧ x ≤ 4 * n + 2 ∧
        (x = 4 * n - quartersBelow ⟨n, e⟩ ∨ x = 4 * n + 2 → n % 2 = 0) := by
  have hquarter : (0 : ℚ) < 2 ^ (e - 2) := by positivity
  have hlow : lowerEnd ⟨n, e⟩ = (4 * n - quartersBelow ⟨n, e⟩) * 2 ^ (e - 2) := rfl
  have hhigh : upperEnd ⟨n, e⟩ = (4 * n + 2) * 2 ^ (e - 2) := rfl
  constructor
  · rintro ⟨hlower, hupper, heven⟩
    rw [hlow] at hlower heven
    rw [hhigh] at hupper heven
    rw [mul_left_inj' hquarter.ne', mul_left_inj' hquarter.ne'] at heven
    exact ⟨le_of_mul_le_mul_right hlower hquarter, le_of_mul_le_mul_right hupper hquarter, heven⟩
  · rintro ⟨hlower, hupper, heven⟩
    refine ⟨?_, ?_, ?_⟩
    · exact hlow ▸ mul_le_mul_of_nonneg_right hlower hquarter.le
    · exact hhigh ▸ mul_le_mul_of_nonneg_right hupper hquarter.le
    · rwa [hlow, hhigh, mul_left_inj' hquarter.ne', mul_left_inj' hquarter.ne']

private theorem quarters_lt_iff {k : ℕ} {e' : ℤ} (h : e' = e - 2 + k) :
    x * 2 ^ (e - 2) < 2 ^ e' ↔ x < 2 ^ k := by
  rw [two_zpow_eq k h, mul_comm, mul_lt_mul_iff_of_pos_left (by positivity)]

private theorem isLastPlace_quarters_iff :
    IsLastPlace (x * 2 ^ (e - 2)) e ↔
      leastExponent ≤ e ∧ x < 2 ^ 55 ∧ (e = leastExponent ∨ 2 ^ 54 ≤ x) := by
  rw [← quarters_lt_iff (by push_cast; ring : e + 53 = e - 2 + (55 : ℕ)), ← not_lt (a := x),
    ← quarters_lt_iff (by push_cast; ring : e + 52 = e - 2 + (54 : ℕ)), not_lt]
  exact ⟨fun h => ⟨h.least, h.lt, h.full⟩, fun ⟨hleast, hlt, hfull⟩ => ⟨hleast, hlt, hfull⟩⟩

private theorem isNearest_quarters_iff :
    IsNearest (x * 2 ^ (e - 2) / 2 ^ e) n ↔
      4 * n - 2 ≤ x ∧ x ≤ 4 * n + 2 ∧ (x = 4 * n - 2 ∨ x = 4 * n + 2 → n % 2 = 0) := by
  have hquarter : (0 : ℚ) < 2 ^ (e - 2) := by positivity
  rw [two_zpow_eq 2 (by push_cast; ring : e = e - 2 + (2 : ℕ)), mul_comm ((2 : ℚ) ^ (e - 2)),
    mul_div_mul_right _ _ hquarter.ne']
  constructor
  · rintro ⟨hlower, hupper, heven⟩
    refine ⟨by linarith, by linarith, ?_⟩
    rintro (rfl | rfl)
    · exact heven (.inl (by ring))
    · exact heven (.inr (by ring))
  · rintro ⟨hlower, hupper, heven⟩
    refine ⟨by linarith, by linarith, ?_⟩
    rintro (h | h)
    · exact heven (.inl (by linarith))
    · exact heven (.inr (by linarith))

/-- A rational is in the interval of the nearest multiple of its last place. -/
private theorem rounds_of_isNearest (hplace : IsLastPlace v e) (hnearest : IsNearest (v / 2 ^ e) n)
    (hkeeps : n ≠ 2 ^ 53) (hgreatest : e ≤ greatestExponent) :
    IsNormal ⟨n, e⟩ ∧ Rounds ⟨n, e⟩ v := by
  obtain ⟨x, rfl⟩ := exists_quarters v e
  obtain ⟨hleast, hlt, hfull⟩ := isLastPlace_quarters_iff.mp hplace
  obtain ⟨hlower, hupper, heven⟩ := isNearest_quarters_iff.mp hnearest
  have hn : n < 2 ^ 53 := by
    have hcast : (n : ℚ) < (2 ^ 53 + 1 : ℕ) := by
      push_cast
      linarith
    have : n < 2 ^ 53 + 1 := by exact_mod_cast hcast
    omega
  have hn' : e = leastExponent ∨ 2 ^ 52 ≤ n := by
    refine hfull.imp_right fun h => ?_
    have hcast : (2 ^ 52 : ℕ) < (n + 1 : ℚ) := by
      push_cast
      linarith
    have : 2 ^ 52 < n + 1 := by exact_mod_cast hcast
    omega
  refine ⟨⟨hn, hleast, hgreatest, hn'⟩, rounds_quarters_iff.mpr ?_⟩
  rw [quartersBelow]
  split
  next hpower =>
    -- Right above a power of two the rational is not below the number.
    obtain ⟨rfl, hne⟩ := hpower
    have := hfull.resolve_left hne
    exact ⟨by push_cast; linarith, hupper, fun _ => rfl⟩
  next => exact ⟨hlower, hupper, heven⟩

/-- A rational that is rounded up to one digit too many is in the interval of the power of two. -/
private theorem rounds_of_carry (hplace : IsLastPlace v e)
    (hnearest : IsNearest (v / 2 ^ e) (2 ^ 53)) (hgreatest : e + 1 ≤ greatestExponent) :
    IsNormal ⟨2 ^ 52, e + 1⟩ ∧ Rounds ⟨2 ^ 52, e + 1⟩ v := by
  obtain ⟨x, rfl⟩ := exists_quarters v e
  obtain ⟨hleast, hlt, -⟩ := isLastPlace_quarters_iff.mp hplace
  obtain ⟨hlower, -, -⟩ := isNearest_quarters_iff.mp hnearest
  have hne : e + 1 ≠ leastExponent := by omega
  have hbelow : quartersBelow ⟨2 ^ 52, e + 1⟩ = 1 := if_pos ⟨rfl, hne⟩
  have hhalf : x * 2 ^ (e - 2) = x / 2 * 2 ^ (e + 1 - 2) := by
    rw [two_zpow_eq 1 (by push_cast; ring : e + 1 - 2 = e - 2 + (1 : ℕ))]
    ring
  refine ⟨⟨by norm_num, by simp only; omega, hgreatest, .inr le_rfl⟩, ?_⟩
  rw [hhalf, rounds_quarters_iff, hbelow]
  push_cast at hlower ⊢
  exact ⟨by linarith, by linarith, fun _ => by norm_num⟩

/-- A number in normal form is nearest to the rationals of its interval, in units of its own last
place unless they are below a power of two. -/
private theorem isNearest_of_rounds (hnormal : IsNormal ⟨n, e⟩) (h : Rounds ⟨n, e⟩ v)
    (hkeeps : ¬(n = 2 ^ 52 ∧ e ≠ leastExponent ∧ v < 2 ^ (e + 52))) :
    IsLastPlace v e ∧ IsNearest (v / 2 ^ e) n := by
  obtain ⟨x, rfl⟩ := exists_quarters v e
  obtain ⟨hlower, hupper, heven⟩ := rounds_quarters_iff.mp h
  have hquarters := quartersBelow_le ⟨n, e⟩
  have hn : (n : ℚ) + 1 ≤ 2 ^ 53 := by exact_mod_cast hnormal.lt
  have hfull : e = leastExponent ∨ 2 ^ 54 ≤ x := by
    by_contra! hnot
    obtain ⟨hne, hx⟩ := hnot
    have hpower : n ≠ 2 ^ 52 := fun heq =>
      hkeeps ⟨heq, hne, (quarters_lt_iff (by push_cast; ring)).mpr hx⟩
    have hge : 2 ^ 52 ≤ n := hnormal.full.resolve_left hne
    have hgt : ((2 ^ 52 + 1 : ℕ) : ℚ) ≤ n := by exact_mod_cast lt_of_le_of_ne hge (Ne.symm hpower)
    push_cast at hgt
    linarith
  refine ⟨isLastPlace_quarters_iff.mpr ⟨hnormal.least, by linarith, hfull⟩,
    isNearest_quarters_iff.mpr ⟨by linarith, hupper, ?_⟩⟩
  rintro (h | h)
  · exact heven (.inl (le_antisymm (by linarith) hlower))
  · exact heven (.inr h)

/-- Below a power of two the last place is the one before, and rounding gives a digit too many. -/
private theorem isNearest_of_rounds_below (hleast : leastExponent ≤ e) (hne : e ≠ leastExponent)
    (h : Rounds ⟨2 ^ 52, e⟩ v) (hv : v < 2 ^ (e + 52)) :
    IsLastPlace v (e - 1) ∧ IsNearest (v / 2 ^ (e - 1)) (2 ^ 53) := by
  obtain ⟨x, rfl⟩ := exists_quarters v e
  obtain ⟨hlower, -, -⟩ := rounds_quarters_iff.mp h
  have hbelow : quartersBelow ⟨2 ^ 52, e⟩ = 1 := if_pos ⟨rfl, hne⟩
  have hx : x < 2 ^ 54 := (quarters_lt_iff (by push_cast; ring)).mp hv
  have hdouble : x * 2 ^ (e - 2) = 2 * x * 2 ^ (e - 1 - 2) := by
    rw [two_zpow_eq 1 (by push_cast; ring : e - 2 = e - 1 - 2 + (1 : ℕ))]
    ring
  rw [hbelow] at hlower
  rw [hdouble, isLastPlace_quarters_iff, isNearest_quarters_iff]
  push_cast at hlower ⊢
  exact ⟨⟨by omega, by linarith, .inr (by linarith)⟩, by linarith, by linarith,
    fun _ => by norm_num⟩

end Quarters

/-- A positive fraction is rounded to a number in normal form in whose interval it is. -/
theorem rounds_of_ofFraction {num den : ℕ} (hnum : 0 < num) (hden : 0 < den) {m : Magnitude}
    (hm : 0 < m.significand) (h : ofFraction num den = some m) :
    m.IsNormal ∧ m.Rounds (num / den) := by
  obtain ⟨hgreatest, e, n, hplace, hnearest, ⟨hkeeps, rfl⟩ | ⟨rfl, rfl⟩⟩ :=
    (ofFraction_eq_some_iff hnum hden hm).mp h
  · exact rounds_of_isNearest hplace hnearest hkeeps hgreatest
  · exact rounds_of_carry hplace hnearest hgreatest

/-- A fraction in the interval of a number in normal form is rounded to it. -/
theorem ofFraction_eq_some {num den : ℕ} (hnum : 0 < num) (hden : 0 < den) {m : Magnitude}
    (hm : 0 < m.significand) (hnormal : m.IsNormal) (h : m.Rounds (num / den)) :
    ofFraction num den = some m := by
  rw [ofFraction_eq_some_iff hnum hden hm]
  refine ⟨hnormal.greatest, ?_⟩
  obtain ⟨n, e⟩ := m
  by_cases hbelow : n = 2 ^ 52 ∧ e ≠ leastExponent ∧ (num / den : ℚ) < 2 ^ (e + 52)
  · obtain ⟨rfl, hne, hlt⟩ := hbelow
    obtain ⟨hplace, hnearest⟩ := isNearest_of_rounds_below hnormal.least hne h hlt
    exact ⟨e - 1, 2 ^ 53, hplace, hnearest, .inr ⟨rfl, by rw [sub_add_cancel]⟩⟩
  · obtain ⟨hplace, hnearest⟩ := isNearest_of_rounds hnormal h hbelow
    exact ⟨e, n, hplace, hnearest, .inl ⟨hnormal.lt.ne, rfl⟩⟩

/-! ## Exact operations -/

/-- A fraction that is a number of 53 digits is kept. -/
theorem exists_ofFraction_eq {num den : ℕ} (hden : 0 < den) {n : ℕ} {e : ℤ} (hn : 0 < n)
    (hlt : n < 2 ^ 53) (hleast : leastExponent ≤ e) (hgreatest : e ≤ greatestExponent)
    (h : (num : ℚ) / den = n * 2 ^ e) :
    ∃ m, ofFraction num den = some m ∧ 0 < m.significand ∧ m.value = num / den := by
  have hnum : 0 < num := by
    rcases Nat.eq_zero_or_pos num with rfl | hpos
    · have hvalue : (0 : ℚ) < n * 2 ^ e := by positivity
      simp [← h] at hvalue
    · exact hpos
  have hplace := isLastPlace_lastPlace hnum hden
  generalize lastPlace num den = place at hplace
  -- The last place is not above the exponent, as there would be digits to spare.
  have hle : place ≤ e := by
    rcases hplace.full with rfl | hfull
    · exact hleast
    · have hbound : (2 : ℚ) ^ (place + 52) < 2 ^ (e + 53) := by
        rw [h] at hfull
        refine hfull.trans_lt ?_
        rw [zpow_add₀ two_ne_zero, mul_comm]
        have : (n : ℚ) < 2 ^ 53 := by exact_mod_cast hlt
        exact mul_lt_mul_of_pos_left this (by positivity)
      have := (zpow_lt_zpow_iff_right₀ one_lt_two).mp hbound
      omega
  have hdigits : (num : ℚ) / den = (n * 2 ^ (e - place).toNat : ℕ) * 2 ^ place := by
    rw [h, two_zpow_eq (e - place).toNat (by omega : e = place + ((e - place).toNat : ℤ))]
    push_cast
    ring
  generalize n * 2 ^ (e - place).toNat = digits at hdigits
  have hunit : (0 : ℚ) < 2 ^ place := by positivity
  have hpos : 0 < digits := by
    have hvalue : (0 : ℚ) < digits * 2 ^ place := by
      rw [← hdigits]
      positivity
    exact_mod_cast pos_of_mul_pos_left hvalue hunit.le
  have hfew : digits < 2 ^ 53 := by
    have hbound := hplace.lt
    rw [hdigits, zpow_add₀ two_ne_zero, mul_comm] at hbound
    exact_mod_cast lt_of_mul_lt_mul_left hbound hunit.le
  refine ⟨⟨digits, place⟩, ?_, hpos, hdigits.symm⟩
  refine (ofFraction_eq_some_iff hnum hden hpos).mpr
    ⟨hle.trans hgreatest, place, digits, hplace, ?_, .inl ⟨hfew.ne, rfl⟩⟩
  rw [hdigits, mul_div_cancel_right₀ _ hunit.ne']
  exact isNearest_natCast digits

/-- The greatest power of ten that is kept exactly, both in numbers and in the powers they are
multiplied with. -/
def exactPower : ℕ := 22

/-- Small powers of ten are kept. -/
theorem exists_powerOfTen_eq {k : ℕ} (hk : k ≤ exactPower) :
    ∃ m, powerOfTen k = some m ∧ 0 < m.significand ∧ m.value = 10 ^ k := by
  rw [exactPower] at hk
  have hlt : 5 ^ k < 2 ^ 53 := (Nat.pow_le_pow_right (by decide) hk).trans_lt (by decide)
  have hvalue : ((Nat.pow 10 k : ℕ) : ℚ) / (1 : ℕ) = (5 ^ k : ℕ) * 2 ^ (k : ℤ) := by
    have hpow : (10 : ℚ) ^ k = 5 ^ k * 2 ^ k := by rw [← mul_pow]; norm_num
    rw [Nat.pow_eq]
    push_cast
    rw [div_one, hpow, zpow_natCast]
  obtain ⟨m, hm, hpos, hm'⟩ := exists_ofFraction_eq one_pos (by positivity) hlt
    (by rw [leastExponent]; omega) (by rw [greatestExponent]; omega) hvalue
  refine ⟨m, hm, hpos, hm'.trans ?_⟩
  rw [Nat.pow_eq]
  push_cast
  exact div_one _

theorem numerator_pos {m : Magnitude} (h : 0 < m.significand) : 0 < m.numerator := by
  rw [numerator, Nat.shiftLeft_eq]
  positivity

theorem denominator_pos (m : Magnitude) : 0 < m.denominator := by
  rw [denominator, Nat.shiftLeft_eq]
  positivity

/-- Scaling by a small power of ten rounds once. -/
theorem exists_scaled_eq {m : Magnitude} (hm : 0 < m.significand) {k : ℤ}
    (hleast : -exactPower ≤ k) (hgreatest : k ≤ exactPower) :
    ∃ num den : ℕ, 0 < num ∧ 0 < den ∧ (num : ℚ) / den = m.value * 10 ^ k ∧
      m.scaled k = ofFraction num den := by
  rw [exactPower] at hleast hgreatest
  rcases le_or_gt 0 k with hsign | hsign
  · obtain ⟨t, ht, hpos, hvalue⟩ := exists_powerOfTen_eq (k := k.toNat) (by rw [exactPower]; omega)
    refine ⟨m.numerator * t.numerator, m.denominator * t.denominator,
      Nat.mul_pos (numerator_pos hm) (numerator_pos hpos),
      Nat.mul_pos m.denominator_pos t.denominator_pos, ?_, ?_⟩
    · push_cast
      rw [mul_div_mul_comm, numerator_div_denominator, numerator_div_denominator, hvalue,
        ← zpow_natCast, Int.toNat_of_nonneg hsign]
    · have hpower : k ≤ greatestPower := by rw [greatestPower]; omega
      rw [scaled, if_pos hsign, if_pos hpower, ht, Option.bind_eq_bind, Option.bind_some, mul]
  · obtain ⟨t, ht, hpos, hvalue⟩ :=
      exists_powerOfTen_eq (k := (-k).toNat) (by rw [exactPower]; omega)
    refine ⟨m.numerator * t.denominator, m.denominator * t.numerator,
      Nat.mul_pos (numerator_pos hm) t.denominator_pos,
      Nat.mul_pos m.denominator_pos (numerator_pos hpos), ?_, ?_⟩
    · push_cast
      rw [mul_div_mul_comm, numerator_div_denominator, ← inv_div, numerator_div_denominator,
        hvalue, ← zpow_natCast, Int.toNat_of_nonneg (by omega), zpow_neg, inv_inv]
    · -- The power is so small that there is only the last division.
      have hcount : ((-k).toNat - 1) / greatestPower = 0 :=
        Nat.div_eq_of_lt (by rw [greatestPower]; omega)
      rw [scaled, if_neg hsign.not_ge]
      simp only [hcount, lowered, Nat.mul_zero, Nat.sub_zero, ht, Option.bind_eq_bind,
        Option.bind_some, div]

/-- Zero is scaled to zero. -/
theorem eq_zero_of_scaled {k : ℤ} {m : Magnitude} (h : zero.scaled k = some m) : m = zero := by
  have hnumerator : zero.numerator = 0 := Nat.zero_shiftLeft _
  have hlowered (count : ℕ) : zero.lowered count = some zero := by cases count <;> rfl
  rw [scaled] at h
  split at h
  · split at h
    · obtain ⟨t, -, ht⟩ := Option.bind_eq_some_iff.mp h
      rw [mul, hnumerator, Nat.zero_mul, ofFraction_zero] at ht
      exact (Option.some.inj ht).symm
    · exact (Option.some.inj h).symm
  · simp only [hlowered, Option.bind_eq_bind, Option.bind_some] at h
    obtain ⟨t, -, ht⟩ := Option.bind_eq_some_iff.mp h
    rw [div, hnumerator, Nat.zero_mul, ofFraction_zero] at ht
    exact (Option.some.inj ht).symm

end Runbook.Magnitude
