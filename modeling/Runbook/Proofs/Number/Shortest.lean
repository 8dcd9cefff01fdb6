import Runbook.Number.Shortest
import Runbook.Proofs.Number.Rounding
import Runbook.Proofs.Number.Spelling

/-!
# Shortest decimals round back

The shortest decimal of a number is in the interval of the number, and has no more digits than any
other decimal in it.

## Main definitions

* `Scientific.value`: the rational that a decimal stands for;
* `Scientific.IsProper`: a decimal has digits, the first of which is not zero.

## Main results

* `Magnitude.exists_onGrid?`: if a multiple of a power of ten is in the interval one is found;
* `Magnitude.leadingPower_spec`: the leading power of ten is that of the number;
* `Magnitude.rounds_shortest`: the shortest decimal is in the interval.
-/

namespace Runbook

namespace Magnitude

variable {m : Magnitude} {v w : ℚ}

/-- A number is inside of its interval. -/
theorem lowerEnd_lt_value (m : Magnitude) : m.lowerEnd < m.value := by
  rw [value_eq_quarters, lowerEnd]
  exact mul_lt_mul_of_pos_right (by linarith [m.quartersBelow_pos]) (by positivity)

theorem value_lt_upperEnd (m : Magnitude) : m.value < m.upperEnd := by
  rw [value_eq_quarters, upperEnd]
  exact mul_lt_mul_of_pos_right (by linarith) (by positivity)

/-- What lies between a number and a rational in its interval is in the interval. -/
theorem Rounds.of_between (h : m.Rounds v) (hw : v ≤ w ∧ w ≤ m.value ∨ m.value ≤ w ∧ w ≤ v) :
    m.Rounds w := by
  have hlow := m.lowerEnd_lt_value
  have hhigh := m.value_lt_upperEnd
  rcases hw with ⟨hvw, hwm⟩ | ⟨hmw, hwv⟩
  · refine ⟨h.lower.trans hvw, by linarith, ?_⟩
    rintro (rfl | rfl)
    · exact h.even (.inl (le_antisymm hvw h.lower))
    · exact absurd hwm hhigh.not_ge
  · refine ⟨by linarith, hwv.trans h.upper, ?_⟩
    rintro (rfl | rfl)
    · exact absurd hmw hlow.not_ge
    · exact h.even (.inr (le_antisymm h.upper hwv))

/-- Two rationals in the interval of a positive number are not far apart. -/
theorem Rounds.le_three_mul (hm : 0 < m.significand) (hv : m.Rounds v) (hw : m.Rounds w) :
    w ≤ 3 * v := by
  have hone : (1 : ℚ) ≤ m.significand := by exact_mod_cast hm
  calc w ≤ m.upperEnd := hw.upper
    _ ≤ 3 * m.lowerEnd := by
      rw [upperEnd, lowerEnd, ← mul_assoc]
      exact mul_le_mul_of_nonneg_right (by linarith [m.quartersBelow_le]) (by positivity)
    _ ≤ 3 * v := by linarith [hv.lower]

/-- A rational in the interval of a positive number is positive. -/
theorem Rounds.pos (hm : 0 < m.significand) (hv : m.Rounds v) : 0 < v := by
  have hone : (1 : ℚ) ≤ m.significand := by exact_mod_cast hm
  refine lt_of_lt_of_le ?_ hv.lower
  rw [lowerEnd]
  exact mul_pos (by linarith [m.quartersBelow_le]) (by positivity)

/-! ## Multiples of a power of ten -/

/-- The scale in which `Magnitude.onGrid?` compares multiples of the quarter of a last place to
multiples of a power of ten. -/
private theorem exists_scale (m : Magnitude) (k : ℤ) :
    ∃ c : ℚ, 0 < c ∧
      (∀ a : ℕ, ((a <<< (m.exponent - 2).toNat * Nat.pow 10 (-k).toNat : ℕ) : ℚ) =
        a * 2 ^ (m.exponent - 2) * c) ∧
      ∀ n : ℕ, ((n * Nat.pow 10 k.toNat <<< (2 - m.exponent).toNat : ℕ) : ℚ) = n * 10 ^ k * c := by
  refine ⟨2 ^ (2 - m.exponent).toNat * 10 ^ (-k).toNat, by positivity, fun a => ?_, fun n => ?_⟩
  · rw [← pow_toNat_div 2 (m.exponent - 2), neg_sub, Nat.shiftLeft_eq, Nat.pow_eq]
    push_cast
    field_simp
  · rw [← pow_toNat_div 10 k, Nat.shiftLeft_eq, Nat.pow_eq]
    push_cast
    field_simp

/-- The test of `Magnitude.onGrid?` is whether a multiple of a power of ten is in the interval. -/
private theorem test_iff_rounds (hm : 0 < m.significand) (k : ℤ) (n : ℕ) :
    let scale (n : ℕ) : ℕ := n <<< (m.exponent - 2).toNat * Nat.pow 10 (-k).toNat
    let unit := Nat.pow 10 k.toNat <<< (2 - m.exponent).toNat
    let low := scale (4 * m.significand - m.quartersBelow)
    let high := scale (4 * m.significand + 2)
    (if m.significand % 2 = 0 then decide (low ≤ n * unit) && decide (n * unit ≤ high)
      else decide (low < n * unit) && decide (n * unit < high)) = true ↔
        m.Rounds (n * 10 ^ k) := by
  intro scale unit low high
  obtain ⟨c, hc, hscale, hunit⟩ := exists_scale m k
  have hbelow : m.quartersBelow ≤ 4 * m.significand := by
    have : m.quartersBelow ≤ 2 := by exact_mod_cast m.quartersBelow_le
    omega
  have hlow : (low : ℚ) = m.lowerEnd * c := by
    rw [hscale, Nat.cast_sub hbelow, lowerEnd]
    push_cast
    rfl
  have hhigh : (high : ℚ) = m.upperEnd * c := by
    rw [hscale, upperEnd]
    push_cast
    rfl
  have hmultiple : ((n * unit : ℕ) : ℚ) = n * 10 ^ k * c := hunit n
  split
  next heven =>
    rw [Bool.and_eq_true, decide_eq_true_eq, decide_eq_true_eq, ← Nat.cast_le (α := ℚ),
      ← Nat.cast_le (α := ℚ), hlow, hhigh, hmultiple, mul_le_mul_iff_of_pos_right hc,
      mul_le_mul_iff_of_pos_right hc]
    exact ⟨fun h => ⟨h.1, h.2, fun _ => heven⟩, fun h => ⟨h.lower, h.upper⟩⟩
  next hodd =>
    rw [Bool.and_eq_true, decide_eq_true_eq, decide_eq_true_eq, ← Nat.cast_lt (α := ℚ),
      ← Nat.cast_lt (α := ℚ), hlow, hhigh, hmultiple, mul_lt_mul_iff_of_pos_right hc,
      mul_lt_mul_iff_of_pos_right hc]
    constructor
    · rintro ⟨hlower, hupper⟩
      exact ⟨hlower.le, hupper.le, fun h => absurd h (by rintro (h | h) <;> linarith)⟩
    · intro h
      refine ⟨lt_of_le_of_ne h.lower ?_, lt_of_le_of_ne h.upper ?_⟩
      · exact fun heq => hodd (h.even (.inl heq.symm))
      · exact fun heq => hodd (h.even (.inr heq))

/-- On the grid of a power of ten the two neighbours of a number are tried; one of them is found if
it is in the interval. -/
theorem exists_neighbours (hm : 0 < m.significand) (k : ℤ) :
    ∃ down : ℕ, down * 10 ^ k ≤ m.value ∧ m.value < (down + 1 : ℕ) * 10 ^ k ∧
      (∀ n, m.onGrid? k = some n → (n = down ∨ n = down + 1) ∧ m.Rounds (n * 10 ^ k)) ∧
      (m.onGrid? k = none → ¬m.Rounds (down * 10 ^ k) ∧ ¬m.Rounds ((down + 1 : ℕ) * 10 ^ k)) := by
  have htest := test_iff_rounds hm k
  obtain ⟨c, hc, hscale, hmultiple⟩ := exists_scale m k
  have hunit : 0 < Nat.pow 10 k.toNat <<< (2 - m.exponent).toNat := by
    rw [Nat.shiftLeft_eq, Nat.pow_eq]
    positivity
  have hvalue : m.value = (4 * m.significand : ℕ) * 2 ^ (m.exponent - 2) := by
    rw [value_eq_quarters]
    push_cast
    rfl
  refine ⟨(4 * m.significand) <<< (m.exponent - 2).toNat * Nat.pow 10 (-k).toNat /
    Nat.pow 10 k.toNat <<< (2 - m.exponent).toNat, ?_, ?_, ?_, ?_⟩
  · rw [← mul_le_mul_iff_of_pos_right hc, hvalue, ← hscale, ← hmultiple, Nat.cast_le]
    exact Nat.div_mul_le_self _ _
  · rw [← mul_lt_mul_iff_of_pos_right hc, hvalue, ← hscale, ← hmultiple, Nat.cast_lt,
      mul_comm (_ / _ + 1)]
    exact Nat.lt_mul_div_succ _ hunit
  · intro n hn
    rw [onGrid?] at hn
    split at hn
    next hdown hup =>
      simp only at hn
      split at hn
      · cases hn
        exact ⟨.inl rfl, (htest _).mp hdown⟩
      · cases hn
        exact ⟨.inr rfl, (htest _).mp hup⟩
    next hdown _ =>
      cases hn
      exact ⟨.inl rfl, (htest _).mp hdown⟩
    next _ hup =>
      cases hn
      exact ⟨.inr rfl, (htest _).mp hup⟩
    next => cases hn
  · intro hn
    rw [onGrid?] at hn
    split at hn
    next =>
      simp only at hn
      split at hn <;> cases hn
    next => cases hn
    next => cases hn
    next hdown hup =>
      refine ⟨fun h => ?_, fun h => ?_⟩
      · exact Bool.false_ne_true (hdown.symm.trans ((htest _).mpr h))
      · exact Bool.false_ne_true (hup.symm.trans ((htest _).mpr h))

/-- If some multiple of a power of ten is in the interval one is found. -/
theorem exists_onGrid? (hm : 0 < m.significand) {k : ℤ} {j : ℕ} (h : m.Rounds (j * 10 ^ k)) :
    ∃ n, m.onGrid? k = some n := by
  obtain ⟨down, hdown, hup, -, hnone⟩ := exists_neighbours hm k
  have hgrid : (0 : ℚ) < 10 ^ k := by positivity
  by_contra! hmissing
  obtain ⟨hdown', hup'⟩ := hnone (Option.eq_none_iff_forall_ne_some.mpr hmissing)
  -- One of the two neighbours is between the multiple and the number.
  rcases le_or_gt j down with hle | hlt
  · refine hdown' (h.of_between (.inl ⟨?_, hdown⟩))
    have : (j : ℚ) ≤ down := by exact_mod_cast hle
    exact mul_le_mul_of_nonneg_right this hgrid.le
  · refine hup' (h.of_between (.inr ⟨hup.le, ?_⟩))
    have : ((down + 1 : ℕ) : ℚ) ≤ j := by exact_mod_cast hlt
    exact mul_le_mul_of_nonneg_right this hgrid.le

/-! ## The leading power -/

/-- A natural number lies between the powers of ten that its number of digits tells. -/
private theorem decimalLength_bounds {n : ℕ} (h : 0 < n) :
    1 ≤ decimalLength n ∧ 10 ^ (decimalLength n - 1) ≤ n ∧ n < 10 ^ decimalLength n := by
  have hpos : 0 < (Nat.toDigits 10 n).length := Nat.length_toDigits_pos
  have hle {k : ℕ} (hk : 0 < k) : (Nat.toDigits 10 n).length ≤ k ↔ n < 10 ^ k :=
    Nat.length_toDigits_le_iff (by decide) hk
  rw [decimalLength, if_neg h.ne']
  refine ⟨hpos, ?_, (hle hpos).mp le_rfl⟩
  -- Otherwise there would be a digit less.
  by_contra! hlt
  rcases Nat.eq_zero_or_pos ((Nat.toDigits 10 n).length - 1) with hzero | hone
  · rw [hzero, pow_zero] at hlt
    omega
  · have := (hle hone).mpr hlt
    omega

/-- The leading power of ten is the greatest one that is not above the number. -/
theorem leadingPower_spec (hm : 0 < m.significand) :
    (10 : ℚ) ^ m.leadingPower ≤ m.value ∧ m.value < 10 ^ (m.leadingPower + 1) := by
  have hnum : 0 < m.numerator := numerator_pos hm
  have hden : 0 < m.denominator := m.denominator_pos
  have hnum' : (0 : ℚ) < m.numerator := by exact_mod_cast hnum
  have hden' : (0 : ℚ) < m.denominator := by exact_mod_cast hden
  rw [← numerator_div_denominator, le_div_iff₀ hden', div_lt_iff₀ hden', leadingPower]
  generalize m.numerator = num at hnum hnum' ⊢
  generalize m.denominator = den at hden hden' ⊢
  split
  next hge =>
    obtain ⟨hone, hlower, hupper⟩ := decimalLength_bounds (Nat.div_pos hge hden)
    generalize decimalLength (num / den) = length at hone hlower hupper ⊢
    rw [Nat.le_div_iff_mul_le hden] at hlower
    rw [Nat.div_lt_iff_lt_mul hden] at hupper
    rw [show (length : ℤ) - 1 + 1 = length by ring,
      show (length : ℤ) - 1 = (length - 1 : ℕ) by omega, zpow_natCast, zpow_natCast]
    exact_mod_cast And.intro hlower hupper
  next hlt =>
    -- The inverse of the number is looked at, which is a fraction above one.
    have hinverse : 0 < (den - 1) / num := Nat.div_pos (by omega) hnum
    obtain ⟨hone, hlower, hupper⟩ := decimalLength_bounds hinverse
    generalize decimalLength ((den - 1) / num) = length at hone hlower hupper ⊢
    rw [Nat.le_div_iff_mul_le hnum] at hlower
    rw [Nat.div_lt_iff_lt_mul hnum] at hupper
    have hlower' : 10 ^ (length - 1) * num < den := by omega
    have hupper' : den ≤ 10 ^ length * num := by omega
    rw [show -(length : ℤ) + 1 = -(length - 1 : ℕ) by omega, zpow_neg, zpow_neg, zpow_natCast,
      zpow_natCast, inv_mul_le_iff₀ (by positivity), lt_inv_mul_iff₀ (by positivity)]
    exact_mod_cast And.intro hupper' hlower'

end Magnitude

/-! ## The shortest decimal -/

namespace Scientific

/-- The rational that a decimal stands for. -/
def value (s : Scientific) : ℚ :=
  (Nat.ofDigitChars 10 s.digits 0 : ℕ) * 10 ^ (s.exponent + 1 - s.digits.length)

/-- A decimal has digits, the first of which is not zero. -/
structure IsProper (s : Scientific) : Prop where
  /-- The digits are digits. -/
  digits : ∀ c ∈ s.digits, c.isDigit = true
  /-- There is a first digit, and it is not zero. -/
  leading : ∃ c cs, s.digits = c :: cs ∧ c ≠ '0'

/-- A decimal with the digits of a number, without zeros at the end. -/
def ofNat (n : ℕ) (power : ℤ) : Scientific :=
  ⟨((Nat.toDigits 10 n).reverse.dropWhile (· == '0')).reverse,
    power + (Nat.toDigits 10 n).length - 1⟩

/-- Only zeros at the end are left out. -/
private theorem exists_zeros (digits : List Char) :
    ∃ z, digits = (digits.reverse.dropWhile (· == '0')).reverse ++ List.replicate z '0' := by
  refine ⟨(digits.reverse.takeWhile (· == '0')).length, ?_⟩
  have hzeros : digits.reverse.takeWhile (· == '0') =
      List.replicate (digits.reverse.takeWhile (· == '0')).length '0' :=
    List.eq_replicate_length.mpr fun c hc => by simpa using List.mem_takeWhile_imp hc
  rw [← List.reverse_replicate, ← hzeros, ← List.reverse_append, List.takeWhile_append_dropWhile,
    List.reverse_reverse]

/-- The digits of a positive number without zeros at the end, where a power of ten takes the place
of these, stand for the number. -/
theorem ofNat_spec {n : ℕ} (hn : 0 < n) (power : ℤ) :
    (ofNat n power).IsProper ∧ (ofNat n power).value = n * 10 ^ power ∧
      (ofNat n power).digits.length ≤ (Nat.toDigits 10 n).length := by
  obtain ⟨z, hz⟩ := exists_zeros (Nat.toDigits 10 n)
  have hdigits : Nat.toDigits 10 n = (ofNat n power).digits ++ List.replicate z '0' := hz
  have hlength : (Nat.toDigits 10 n).length = (ofNat n power).digits.length + z := by
    rw [hdigits, List.length_append, List.length_replicate]
  have hexponent : (ofNat n power).exponent + 1 - (ofNat n power).digits.length = power + z := by
    rw [show (ofNat n power).exponent = power + (Nat.toDigits 10 n).length - 1 from rfl, hlength]
    push_cast
    ring
  have hvalue : n = 10 ^ z * Nat.ofDigitChars 10 (ofNat n power).digits 0 := by
    have hn' : Nat.ofDigitChars 10 (Nat.toDigits 10 n) 0 = n := Nat.ofDigitChars_ten_toDigits
    rwa [hdigits, Nat.ofDigitChars_append, Nat.ofDigitChars_replicate_zero, eq_comm] at hn'
  refine ⟨⟨fun c hc => ?_, ?_⟩, ?_, by omega⟩
  · refine isDigit_of_mem_toDigits (n := n) ?_
    rw [hdigits]
    exact List.mem_append_left _ hc
  · cases hfirst : (ofNat n power).digits with
    | nil =>
      rw [hfirst, Nat.ofDigitChars_nil] at hvalue
      omega
    | cons c cs =>
      refine ⟨c, cs, rfl, ?_⟩
      rintro rfl
      -- Only zero is written with a leading zero.
      rw [hfirst] at hdigits
      have hnil : cs ++ List.replicate z '0' = [] := eq_nil_of_toDigits_eq_cons hdigits
      rw [List.cons_append, hnil] at hdigits
      have hzero : n = 0 := by
        rw [← Nat.ofDigitChars_ten_toDigits (n := n), hdigits]
        rfl
      omega
  · rw [value, hexponent, zpow_add₀ (by norm_num), zpow_natCast]
    nth_rewrite 2 [hvalue]
    push_cast
    ring

/-- A power of ten has one digit and zeros. -/
private theorem toDigits_pow (k : ℕ) : Nat.toDigits 10 (10 ^ k) = '1' :: List.replicate k '0' := by
  induction k with
  | zero => rfl
  | succ k ih =>
    have happend :
        Nat.toDigits 10 (10 ^ k) ++ Nat.toDigits 10 0 = Nat.toDigits 10 (10 * 10 ^ k + 0) :=
      Nat.toDigits_append_toDigits (by decide) (by positivity) (by decide)
    rw [pow_succ', ← Nat.add_zero (10 * 10 ^ k), ← happend, ih, List.replicate_succ',
      Nat.toDigits_zero, List.cons_append]

theorem length_digits_ofNat_pow (k : ℕ) (power : ℤ) : (ofNat (10 ^ k) power).digits.length = 1 := by
  have hzeros : ∀ c ∈ List.replicate k '0', (c == '0') = true := fun c hc => by
    rw [(List.mem_replicate.mp hc).2]
    rfl
  rw [ofNat, toDigits_pow, List.reverse_cons, List.reverse_replicate,
    List.dropWhile_append_of_pos hzeros]
  rfl

end Scientific

namespace Magnitude

variable {m : Magnitude}

/-- If a grid up to some number of digits holds a rational of the interval, the shortest decimal is
found on such a grid. -/
theorem exists_shortest_eq (hm : 0 < m.significand) {count : ℕ} (hcount : count ≤ mostDigits)
    {i j : ℕ} (hi : i < count) (h : m.Rounds (j * 10 ^ (m.leadingPower - i))) :
    ∃ i < count, ∃ n, m.onGrid? (m.leadingPower - i) = some n ∧
      m.shortest = .ofNat n (m.leadingPower - i) := by
  obtain ⟨n, hn⟩ := exists_onGrid? hm h
  rw [shortest]
  generalize honGrid : (fun i : ℕ => (m.onGrid? (m.leadingPower - i)).map fun n =>
    (Nat.toDigits 10 n, m.leadingPower - i)) = onGrid
  have honGrid' (i : ℕ) : onGrid i = (m.onGrid? (m.leadingPower - i)).map fun n =>
      (Nat.toDigits 10 n, m.leadingPower - (i : ℤ)) := by rw [← honGrid]
  -- The first grid with a decimal comes at the latest where there is one.
  obtain ⟨found, hfound⟩ : ∃ found, (List.range count).findSome? onGrid = some found := by
    rw [← Option.isSome_iff_exists, List.findSome?_isSome_iff]
    refine ⟨i, List.mem_range.mpr hi, ?_⟩
    rw [honGrid', hn]
    rfl
  have hall : (List.range mostDigits).findSome? onGrid = some found := by
    obtain ⟨rest, hrest⟩ := Nat.exists_eq_add_of_le hcount
    rw [hrest, List.range_add, List.findSome?_append, hfound]
    rfl
  obtain ⟨i', hi', hfirst⟩ := List.exists_of_findSome?_eq_some hfound
  rw [honGrid', Option.map_eq_some_iff] at hfirst
  obtain ⟨n', hn', rfl⟩ := hfirst
  refine ⟨i', List.mem_range.mp hi', n', hn', ?_⟩
  rw [hall]
  rfl

/-- The shortest decimal of a positive number is in its interval, and has no more digits than any
other decimal in the interval. -/
theorem rounds_shortest (hm : 0 < m.significand) {count : ℕ} (hcount : count ≤ mostDigits) {d : ℕ}
    (hd : d < 10 ^ count) {power : ℤ} (h : m.Rounds (d * 10 ^ power)) :
    m.shortest.IsProper ∧ m.shortest.digits.length ≤ count ∧ m.Rounds m.shortest.value := by
  obtain ⟨hlower, hupper⟩ := leadingPower_spec hm
  have hd' : 0 < d := by
    rcases Nat.eq_zero_or_pos d with rfl | hpos
    · have := h.pos hm
      simp at this
    · exact hpos
  have hone : 0 < count := by
    rcases Nat.eq_zero_or_pos count with rfl | hpos
    · omega
    · exact hpos
  -- The decimal is on the grid of `count` digits, or it is below the leading power, which then is
  -- in the interval too.
  obtain ⟨i, hi, j, hj⟩ : ∃ i < count, ∃ j : ℕ, m.Rounds (j * 10 ^ (m.leadingPower - i)) := by
    rcases le_or_gt (m.leadingPower - (count - 1 : ℕ)) power with hle | hlt
    · refine ⟨count - 1, by omega, d * 10 ^ (power - (m.leadingPower - (count - 1 : ℕ))).toNat, ?_⟩
      have hvalue : ((d * 10 ^ (power - (m.leadingPower - (count - 1 : ℕ))).toNat : ℕ) : ℚ) *
          10 ^ (m.leadingPower - (count - 1 : ℕ)) = d * 10 ^ power := by
        push_cast
        rw [mul_assoc, ← zpow_natCast, ← zpow_add₀ (by norm_num), Int.toNat_of_nonneg (by omega),
          sub_add_cancel]
      rwa [hvalue]
    · refine ⟨0, hone, 1, h.of_between (.inl ⟨?_, ?_⟩)⟩
      · have hle : (d : ℚ) ≤ 10 ^ count := by exact_mod_cast hd.le
        calc (d : ℚ) * 10 ^ power ≤ 10 ^ count * 10 ^ power := by gcongr
          _ = 10 ^ (count + power) := by rw [zpow_add₀ (by norm_num), zpow_natCast]
          _ ≤ 10 ^ m.leadingPower := zpow_le_zpow_right₀ (by norm_num) (by omega)
          _ = (1 : ℕ) * 10 ^ (m.leadingPower - (0 : ℕ)) := by simp
      · simpa using hlower
  obtain ⟨i, hi, n, hn, hshortest⟩ := exists_shortest_eq hm hcount hi hj
  obtain ⟨down, hdown, -, hfound, -⟩ := exists_neighbours hm (m.leadingPower - i)
  obtain ⟨hneighbour, hrounds⟩ := hfound n hn
  have hunit : (0 : ℚ) < 10 ^ (m.leadingPower - i) := by positivity
  have hn' : 0 < n := by exact_mod_cast pos_of_mul_pos_left (hrounds.pos hm) hunit.le
  obtain ⟨hproper, hvalue, hlength⟩ := Scientific.ofNat_spec hn' (m.leadingPower - i)
  rw [hshortest, hvalue]
  refine ⟨hproper, ?_, hrounds⟩
  -- The grid has as many digits below the next power of ten as have been tried.
  have hbound : down < 10 ^ (i + 1) := by
    have hlt : (down : ℚ) * 10 ^ (m.leadingPower - i) <
        10 ^ (i + 1) * 10 ^ (m.leadingPower - i) := by
      refine hdown.trans_lt (hupper.trans_eq ?_)
      rw [← zpow_natCast, ← zpow_add₀ (by norm_num)]
      congr 1
      push_cast
      ring
    exact_mod_cast lt_of_mul_lt_mul_right hlt hunit.le
  have hle : n ≤ 10 ^ (i + 1) := by omega
  rcases hle.eq_or_lt with rfl | hlt
  · rw [Scientific.length_digits_ofNat_pow]
    exact hone
  · have := (Nat.length_toDigits_le_iff (by decide) (Nat.succ_pos i)).mpr hlt
    omega

end Magnitude

end Runbook
