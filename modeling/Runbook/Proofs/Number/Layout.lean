import Runbook.Proofs.Number.Shortest

/-!
# The layout of decimals

A decimal is written with its point behind the last digit, among the digits or in front of them, or
with a power of ten. Each layout spells a numeral that has the digits of the decimal, whatever its
exponent is. So every number is written as a numeral, even if that is read as another number or is
out of range.

## Main results

* `Scientific.IsProper.unsigned?_whole`, `Scientific.IsProper.unsigned?_split`,
  `Scientific.IsProper.unsigned?_below`, `Scientific.IsProper.unsigned?_withPower`: the numeral of
  each layout;
* `Number.isSome_ofChars?`: the text of a number is a numeral.
-/

namespace Runbook

namespace Numeral

/-! ## The parts of a numeral -/

/-- Digits are read up to a character that is none. -/
theorem digits_append {ds rest : List Char} (hds : ∀ c ∈ ds, c.isDigit = true)
    (hrest : ∀ c ∈ rest.head?, c.isDigit = false) : digits (ds ++ rest) = (ds, rest) := by
  have hnone : rest.takeWhile Char.isDigit = [] ∧ rest.dropWhile Char.isDigit = rest := by
    cases rest with
    | nil => exact ⟨rfl, rfl⟩
    | cons c cs =>
      have hc : ¬c.isDigit = true := by simp [hrest c rfl]
      exact ⟨List.takeWhile_cons_of_neg hc, List.dropWhile_cons_of_neg hc⟩
  rw [digits, List.takeWhile_append_of_pos hds, List.dropWhile_append_of_pos hds, hnone.1, hnone.2,
    List.append_nil]

/-- Digits without a leading zero are the whole part of a numeral with what is behind them. -/
theorem unsigned?_append (negative : Bool) {whole rest rest' fraction : List Char}
    {exponent : Option (Bool × List Char)} (hne : whole ≠ [])
    (hdigits : ∀ c ∈ whole, c.isDigit = true)
    (hzero : ∀ others, whole = '0' :: others → others = [])
    (hrest : ∀ c ∈ rest.head?, c.isDigit = false)
    (hfraction : fraction? rest = some (fraction, rest'))
    (hexponent : exponent? rest' = some exponent) :
    unsigned? negative (whole ++ rest) = some ⟨negative, whole, fraction, exponent⟩ := by
  obtain ⟨first, others, rfl⟩ := List.exists_cons_of_ne_nil hne
  have hlead : ¬(first = '0' ∧ others ≠ []) := by
    rintro ⟨rfl, hothers⟩
    exact hothers (hzero others rfl)
  rw [unsigned?, digits_append hdigits hrest]
  simp only [hlead, if_false, hfraction, hexponent, Option.bind_eq_bind, Option.bind_some]
  rfl

/-- A point and digits are a fraction, up to a character that is no digit. -/
theorem fraction?_point {ds rest : List Char} (hne : ds ≠ []) (hds : ∀ c ∈ ds, c.isDigit = true)
    (hrest : ∀ c ∈ rest.head?, c.isDigit = false) :
    fraction? ('.' :: (ds ++ rest)) = some (ds, rest) := by
  obtain ⟨first, others, rfl⟩ := List.exists_cons_of_ne_nil hne
  rw [fraction?, digits_append hds hrest]

/-- The letter, the sign and the digits of an exponent are read as the exponent. -/
theorem exponent?_signed (negative : Bool) (n : ℕ) :
    exponent? ('e' :: (if negative then '-' else '+') :: Nat.toDigits 10 n) =
      some (some (negative, Nat.toDigits 10 n)) := by
  obtain ⟨first, others, hdigits⟩ := List.exists_cons_of_ne_nil
    (Nat.toDigits_ne_nil : Nat.toDigits 10 n ≠ [])
  have hall : digits (Nat.toDigits 10 n) = (Nat.toDigits 10 n, []) :=
    digits_of_all fun c hc => isDigit_of_mem_toDigits hc
  have hread (sign : Bool) :
      exponentDigits? sign (Nat.toDigits 10 n) = some (sign, Nat.toDigits 10 n) := by
    rw [exponentDigits?, hall, hdigits]
  cases negative <;> simp [exponent?, hread]

/-- A whole part and a fraction are a numeral without exponent. -/
theorem unsigned?_point (negative : Bool) {whole fraction : List Char} (hne : whole ≠ [])
    (hwhole : ∀ c ∈ whole, c.isDigit = true)
    (hzero : ∀ others, whole = '0' :: others → others = []) (hne' : fraction ≠ [])
    (hfraction : ∀ c ∈ fraction, c.isDigit = true) :
    unsigned? negative (whole ++ '.' :: fraction) = some ⟨negative, whole, fraction, none⟩ := by
  have hpoint : ∀ c ∈ ('.' :: fraction).head?, c.isDigit = false := by
    rintro c ⟨⟩
    rfl
  have hread : fraction? ('.' :: (fraction ++ [])) = some (fraction, []) :=
    fraction?_point hne' hfraction (by simp)
  rw [List.append_nil] at hread
  exact unsigned?_append negative hne hwhole hzero hpoint hread rfl

/-- A digit, the digits behind the point if there are any, and an exponent are a numeral. -/
theorem unsigned?_withPower (negative : Bool) {c : Char} {cs : List Char}
    (hdigits : ∀ d ∈ c :: cs, d.isDigit = true) (sign : Bool) (n : ℕ) :
    unsigned? negative ((if cs.isEmpty then [c] else c :: '.' :: cs) ++
        'e' :: (if sign then '-' else '+') :: Nat.toDigits 10 n) =
      some ⟨negative, [c], cs, some (sign, Nat.toDigits 10 n)⟩ := by
  rw [List.forall_mem_cons] at hdigits
  have hwhole : ∀ d ∈ [c], d.isDigit = true := List.forall_mem_singleton.mpr hdigits.1
  have hzero : ∀ others, [c] = '0' :: others → others = [] := fun others h =>
    (List.cons.inj h).2.symm
  have hletter {rest : List Char} : ∀ d ∈ ('e' :: rest).head?, d.isDigit = false := by
    rintro d ⟨⟩
    rfl
  have hpoint {rest : List Char} : ∀ d ∈ ('.' :: rest).head?, d.isDigit = false := by
    rintro d ⟨⟩
    rfl
  split
  next hnone =>
    rw [List.isEmpty_iff.mp hnone]
    exact unsigned?_append negative (List.cons_ne_nil c []) hwhole hzero hletter rfl
      (exponent?_signed sign n)
  next hsome =>
    have hread : fraction? ('.' :: (cs ++ 'e' :: (if sign then '-' else '+') ::
        Nat.toDigits 10 n)) = some (cs, _) :=
      fraction?_point (fun h => hsome (List.isEmpty_iff.mpr h)) hdigits.2 hletter
    exact unsigned?_append negative (List.cons_ne_nil c []) hwhole hzero hpoint hread
      (exponent?_signed sign n)

/-- A text that is an unsigned numeral is read as it. -/
theorem ofChars?_of_unsigned? {cs : List Char} {n : Numeral}
    (h : unsigned? false cs = some n) : ofChars? cs = some n := by
  rw [ofChars?]
  · exact h
  · rintro cs' rfl
    cases h

end Numeral

namespace Scientific

open Numeral

/-! ## The numeral of a layout -/

section Layouts

variable {s : Scientific} (hs : s.IsProper) (negative : Bool)

include hs

/-- A decimal that is a natural number is written with a zero behind the point. -/
theorem IsProper.unsigned?_whole (count : ℕ) :
    unsigned? negative (s.digits ++ List.replicate count '0' ++ ['.', '0']) =
      some ⟨negative, s.digits ++ List.replicate count '0', ['0'], none⟩ := by
  obtain ⟨c, cs, hdigits, hc⟩ := hs.leading
  have hwhole : ∀ d ∈ s.digits ++ List.replicate count '0', d.isDigit = true := by
    rw [List.forall_mem_append]
    exact ⟨hs.digits, fun d hd => (List.mem_replicate.mp hd).2 ▸ rfl⟩
  have hzero : ∀ others, s.digits ++ List.replicate count '0' = '0' :: others → others = [] := by
    intro others h
    rw [hdigits, List.cons_append] at h
    exact absurd (List.cons.inj h).1 hc
  exact unsigned?_point negative (by simp [hdigits]) hwhole hzero (by simp) (by simp)

/-- A decimal above one may have digits behind the point. -/
theorem IsProper.unsigned?_split {count : ℕ} (hpos : 0 < count) (hlong : count < s.digits.length) :
    unsigned? negative (s.digits.take count ++ '.' :: s.digits.drop count) =
      some ⟨negative, s.digits.take count, s.digits.drop count, none⟩ := by
  obtain ⟨c, cs, hdigits, hc⟩ := hs.leading
  obtain ⟨more, rfl⟩ := Nat.exists_eq_add_one.mpr hpos
  have htake : s.digits.take (more + 1) = c :: cs.take more := by rw [hdigits, List.take_succ_cons]
  have hzero : ∀ others, s.digits.take (more + 1) = '0' :: others → others = [] := by
    intro others h
    rw [htake] at h
    exact absurd (List.cons.inj h).1 hc
  have hfraction : s.digits.drop (more + 1) ≠ [] := by
    rw [Ne, List.drop_eq_nil_iff]
    omega
  exact unsigned?_point negative (by simp [htake])
    (fun d hd => hs.digits d (List.mem_of_mem_take hd)) hzero hfraction
    fun d hd => hs.digits d (List.mem_of_mem_drop hd)

/-- A decimal below one is written with zeros behind the point. -/
theorem IsProper.unsigned?_below (count : ℕ) :
    unsigned? negative ('0' :: '.' :: List.replicate count '0' ++ s.digits) =
      some ⟨negative, ['0'], List.replicate count '0' ++ s.digits, none⟩ := by
  have hfraction : ∀ d ∈ List.replicate count '0' ++ s.digits, d.isDigit = true := by
    rw [List.forall_mem_append]
    exact ⟨fun d hd => (List.mem_replicate.mp hd).2 ▸ rfl, hs.digits⟩
  have hne : List.replicate count '0' ++ s.digits ≠ [] := by
    obtain ⟨c, cs, hdigits, -⟩ := hs.leading
    simp [hdigits]
  exact unsigned?_point negative (List.cons_ne_nil '0' []) (by simp) (by simp) hne hfraction

/-- A decimal may be written with a power of ten behind its digits. -/
theorem IsProper.unsigned?_withPower : ∃ c cs, s.digits = c :: cs ∧
    unsigned? negative s.withPower = some ⟨negative, [c], cs,
      some (decide (s.exponent < 0), Nat.toDigits 10 s.exponent.natAbs)⟩ := by
  obtain ⟨c, cs, hdigits, -⟩ := hs.leading
  have hread := Numeral.unsigned?_withPower negative (hdigits ▸ hs.digits)
    (decide (s.exponent < 0)) s.exponent.natAbs
  have htext : s.withPower = (if cs.isEmpty then [c] else c :: '.' :: cs) ++
      'e' :: (if decide (s.exponent < 0) then '-' else '+') ::
        Nat.toDigits 10 s.exponent.natAbs := by
    rw [withPower, hdigits]
    cases cs <;> simp
  exact ⟨c, cs, hdigits, htext ▸ hread⟩

/-- Every decimal is written as an unsigned numeral. -/
theorem IsProper.exists_unsigned?_chars : ∃ n, unsigned? negative s.chars = some n := by
  rw [chars]
  split
  · rw [positional]
    split
    · exact ⟨_, hs.unsigned?_below negative _⟩
    · simp only
      split
      next => exact ⟨_, hs.unsigned?_whole negative _⟩
      next hlong => exact ⟨_, hs.unsigned?_split negative (Nat.succ_pos _) (Nat.not_le.mp hlong)⟩
  · obtain ⟨c, cs, -, hread⟩ := hs.unsigned?_withPower negative
    exact ⟨_, hread⟩

end Layouts

end Scientific

/-! ## The numeral of a number -/

/-- The shortest decimal of a positive number has digits, unless no grid held one. -/
theorem Magnitude.isProper_shortest {m : Magnitude} (hm : 0 < m.significand) :
    m.shortest.IsProper ∨ m.shortest = ⟨['0'], 0⟩ := by
  rw [shortest]
  split
  next digits power hfound =>
    obtain ⟨i, -, hi⟩ := List.exists_of_findSome?_eq_some hfound
    obtain ⟨n, hn, heq⟩ := Option.map_eq_some_iff.mp hi
    cases heq
    obtain ⟨down, -, -, hgrid, -⟩ := exists_neighbours hm (m.leadingPower - i)
    have hunit : (0 : ℚ) < 10 ^ (m.leadingPower - i) := by positivity
    have hpos : 0 < n := by
      exact_mod_cast pos_of_mul_pos_left ((hgrid n hn).2.pos hm) hunit.le
    exact .inl (Scientific.ofNat_spec hpos (m.leadingPower - i)).1
  next => exact .inr rfl

/-- A double-precision number is written as a numeral. -/
theorem Binary64.isSome_ofChars? (x : Binary64) : (Numeral.ofChars? x.chars).isSome = true := by
  have hread : ∀ negative, ∃ n, Numeral.unsigned? negative
      (if x.magnitude.isZero then ['0', '.', '0'] else x.magnitude.shortest.chars) = some n := by
    intro negative
    split
    next => exact ⟨⟨negative, ['0'], ['0'], none⟩, rfl⟩
    next hzero =>
      have hpos : 0 < x.magnitude.significand := by
        rw [Magnitude.isZero, beq_iff_eq] at hzero
        exact Nat.pos_of_ne_zero hzero
      rcases Magnitude.isProper_shortest hpos with hproper | hnone
      · exact hproper.exists_unsigned?_chars negative
      · rw [hnone]
        exact ⟨⟨negative, ['0'], ['0'], none⟩, rfl⟩
  rw [Option.isSome_iff_exists, Binary64.chars]
  split
  · exact hread true
  · obtain ⟨n, hn⟩ := hread false
    exact ⟨n, Numeral.ofChars?_of_unsigned? hn⟩

/-- A number is written as a numeral. -/
theorem Number.isSome_ofChars? (n : Number) : (Numeral.ofChars? n.chars).isSome = true := by
  cases n with
  | integer value lower upper =>
    obtain ⟨numeral, hnumeral, -⟩ :=
      Option.bind_eq_some_iff.mp (ofChars?_integerChars value lower upper)
    exact Option.isSome_iff_exists.mpr ⟨numeral, hnumeral⟩
  | float x => exact x.isSome_ofChars?

end Runbook
