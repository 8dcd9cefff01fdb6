import Mathlib.Data.String.Basic
import Mathlib.Tactic.Ring
import Runbook.Proofs.Identity

/-!
# The order of identities

The characters of identities are in order of their values, and every text has the same number of
them. So texts sort as the numbers that they are read as, and the upper bits of these are the
milliseconds of the creation. That needs letters that are written alike, as letters of either case
have the same value, and numbers that are read without loss, as only 128 of the 130 bits are kept.
The texts that are written for identities have capital letters only and lose nothing.

## Main definitions

* `Identity.IsInRange`: a text stands for no more than the bits of an identity;
* `Identity.AreAlike`: the letters of two texts are in one case.

## Main results

* `Identity.parse_text`: the text of an identity is read as that identity;
* `Identity.value_lt_of_lt`: texts sort as the identities that they stand for;
* `Identity.eq_text_iff`: the text that is written for an identity is the one in capitals that loses
  nothing.
-/

namespace Runbook.Identity

/-- The text stands for a number that has no more than the 128 bits of an identity. -/
def IsInRange (text : String) : Prop :=
  ∀ c ∈ text.toList.head?, c ≤ '7'

instance (text : String) : Decidable (IsInRange text) :=
  decidable_of_iff (text.toList.head?.all (· ≤ '7') = true) (by simp [IsInRange, Option.all_eq_true])

/-- The letters of two texts are in one case. -/
def AreAlike (a b : String) : Prop :=
  (∀ c ∈ a.toList ++ b.toList, c.isLower = false) ∨ ∀ c ∈ a.toList ++ b.toList, c.isUpper = false

instance (a b : String) : Decidable (AreAlike a b) :=
  decidable_of_iff ((a.toList ++ b.toList).all (!Char.isLower ·) = true ∨
    (a.toList ++ b.toList).all (!Char.isUpper ·) = true)
    (by simp only [AreAlike, List.all_eq_true, Bool.not_eq_true'])

/-! ## Values of characters -/

theorem pairwise_alphabet : alphabet.Pairwise (· < ·) := by
  decide

/-- A character in the alphabet has its position as value. -/
theorem digit?_getElem : ∀ (d : Nat) (h : d < alphabet.length), digit? alphabet[d] = some d := by
  decide

/-- The value of a character is the position of its capital in the alphabet. -/
theorem exists_getElem_of_digit? {c : Char} {d : Nat} (h : digit? c = some d) :
    ∃ hd : d < alphabet.length, alphabet[d] = c.toUpper := by
  obtain ⟨hd, hc, -⟩ := List.findIdx?_eq_some_iff_getElem.mp h
  exact ⟨hd, beq_iff_eq.mp hc⟩

theorem digit?_lt {c : Char} {d : Nat} (h : digit? c = some d) : d < 32 :=
  (exists_getElem_of_digit? h).1

private theorem isLower_iff {c : Char} : c.isLower = true ↔ 97 ≤ c.toNat ∧ c.toNat ≤ 122 := by
  delta Char.isLower
  simp [UInt32.le_iff_toNat_le, ← Char.toNat_val]

private theorem isUpper_iff {c : Char} : c.isUpper = true ↔ 65 ≤ c.toNat ∧ c.toNat ≤ 90 := by
  delta Char.isUpper
  simp [UInt32.le_iff_toNat_le, ← Char.toNat_val]

private theorem isDigit_iff {c : Char} : c.isDigit = true ↔ 48 ≤ c.toNat ∧ c.toNat ≤ 57 := by
  simp [Char.isDigit, UInt32.le_iff_toNat_le, ← Char.toNat_val]

private theorem lt_iff_toNat {c d : Char} : c < d ↔ c.toNat < d.toNat :=
  Char.lt_def.trans UInt32.lt_iff_toNat_lt

/-- Only small letters are others as capitals, and keep their distances. -/
private theorem toNat_toUpper (c : Char) :
    c.toUpper.toNat = if c.isLower then c.toNat - 32 else c.toNat := by
  by_cases hlower : 'a'.val ≤ c.val ∧ c.val ≤ 'z'.val
  · have hc : c.isLower = true :=
      Bool.and_eq_true_iff.mpr ⟨decide_eq_true hlower.1, decide_eq_true hlower.2⟩
    obtain ⟨hleast, hgreatest⟩ := isLower_iff.mp hc
    have hupper : c.toUpper = ⟨c.val + ('A'.val - 'a'.val), _⟩ := dif_pos hlower
    rw [if_pos hc, hupper]
    show (c.val + ('A'.val - 'a'.val)).toNat = c.toNat - 32
    -- The distance of the cases is subtracted by adding what is left of 32 bits.
    rw [UInt32.toNat_add]
    change (c.toNat + 4294967264) % 4294967296 = c.toNat - 32
    omega
  · have hc : c.isLower = false := by
      rw [Bool.eq_false_iff]
      intro h
      have hboth := Bool.and_eq_true_iff.mp h
      exact hlower ⟨of_decide_eq_true hboth.1, of_decide_eq_true hboth.2⟩
    have hself : c.toUpper = c := dif_neg hlower
    rw [hc, hself]
    rfl

/-- Characters in one case are in the order of their capitals. -/
private theorem toUpper_lt_toUpper {c d : Char} (hc : c.isAlphanum = true)
    (hd : d.isAlphanum = true)
    (hcase : c.isLower = false ∧ d.isLower = false ∨ c.isUpper = false ∧ d.isUpper = false)
    (h : c < d) : c.toUpper < d.toUpper := by
  rw [lt_iff_toNat] at h ⊢
  rw [toNat_toUpper, toNat_toUpper]
  rcases hcase with ⟨hcl, hdl⟩ | ⟨hcu, hdu⟩
  · rwa [hcl, hdl]
  · -- What is no capital is a digit or a small letter, and digits stand before the letters.
    have hkind {c : Char} (hc : c.isAlphanum = true) (hcu : c.isUpper = false) :
        c.isLower = true ∨ c.isDigit = true := by
      delta Char.isAlphanum Char.isAlpha at hc
      simpa [hcu] using hc
    have hcd := hkind hc hcu
    have hdd := hkind hd hdu
    rw [isLower_iff, isDigit_iff] at hcd hdd
    simp only [isLower_iff]
    split <;> split <;> omega

/-- Characters in one case are in the order of their values. -/
theorem digit?_lt_of_lt {c d : Char} {x y : Nat} (hc : digit? c = some x) (hd : digit? d = some y)
    (hcase : c.isLower = false ∧ d.isLower = false ∨ c.isUpper = false ∧ d.isUpper = false)
    (h : c < d) : x < y := by
  have hupper := toUpper_lt_toUpper (isAlphanum_of_digit? hc) (isAlphanum_of_digit? hd) hcase h
  obtain ⟨hx, hcx⟩ := exists_getElem_of_digit? hc
  obtain ⟨hy, hdy⟩ := exists_getElem_of_digit? hd
  rw [← hcx, ← hdy] at hupper
  by_contra hle
  rcases Nat.eq_or_lt_of_le (Nat.le_of_not_lt hle) with rfl | hlt
  · exact absurd hupper (lt_irrefl _)
  · exact absurd hupper (List.pairwise_iff_getElem.mp pairwise_alphabet y x hy hx hlt).asymm

/-! ## Numbers of texts -/

/-- Characters that are read behind others go on from the number of these. -/
theorem read?_append (value : Nat) (cs ds : List Char) :
    read? value (cs ++ ds) = (read? value cs).bind fun value => read? value ds := by
  induction cs generalizing value with
  | nil => rfl
  | cons c rest ih =>
    rw [List.cons_append, read?, read?]
    cases digit? c with
    | none => rfl
    | some d => exact ih _

/-- The characters that are written for a number are read as its lower bits. -/
theorem read?_write (count start value : Nat) :
    read? start (write count value) = some (start * 32 ^ count + value % 32 ^ count) := by
  induction count generalizing value with
  | zero => simp [write, read?, Nat.mod_one]
  | succ count ih =>
    have hlast : value % 32 < alphabet.length := Nat.mod_lt _ (by decide)
    rw [write, read?_append, ih, Option.bind_some, List.getElem?_eq_getElem hlast,
      Option.getD_some, read?, digit?_getElem _ hlast]
    simp only [read?, Option.some.injEq]
    rw [Nat.pow_succ', Nat.mod_mul]
    ring

/-- A number that is read starts with the number before it and has five bits more for each
character. -/
theorem read?_bounds {value number : Nat} {cs : List Char} (h : read? value cs = some number) :
    value * 32 ^ cs.length ≤ number ∧ number < (value + 1) * 32 ^ cs.length := by
  induction cs generalizing value with
  | nil => cases h; simp
  | cons c rest ih =>
    rw [read?] at h
    split at h
    next d hd =>
      obtain ⟨hlower, hupper⟩ := ih h
      have hlt := digit?_lt hd
      rw [List.length_cons, Nat.pow_succ']
      constructor
      · calc value * (32 * 32 ^ rest.length)
            = value * 32 * 32 ^ rest.length := by ring
          _ ≤ (value * 32 + d) * 32 ^ rest.length := Nat.mul_le_mul_right _ (Nat.le_add_right _ _)
          _ ≤ number := hlower
      · calc number
            < (value * 32 + d + 1) * 32 ^ rest.length := hupper
          _ ≤ (value + 1) * 32 * 32 ^ rest.length := Nat.mul_le_mul_right _ (by omega)
          _ = (value + 1) * (32 * 32 ^ rest.length) := by ring
    next => cases h

/-- Of two texts in one case the one that sorts first stands for the smaller number. -/
theorem read?_lt_of_lt {cs ds : List Char} (hlength : cs.length = ds.length)
    (hcase : (∀ c ∈ cs ++ ds, c.isLower = false) ∨ ∀ c ∈ cs ++ ds, c.isUpper = false)
    {value m n : Nat} (hm : read? value cs = some m) (hn : read? value ds = some n)
    (h : cs < ds) : m < n := by
  induction cs generalizing ds value with
  | nil =>
    rw [List.length_eq_zero_iff.mp hlength.symm] at h
    exact absurd h (lt_irrefl _)
  | cons c cs ih =>
    cases ds with
    | nil => cases hlength
    | cons d ds =>
      rw [read?] at hm hn
      split at hm
      next x hx =>
        split at hn
        next y hy =>
          simp only [List.length_cons, Nat.add_right_cancel_iff] at hlength
          simp only [List.forall_mem_append, List.forall_mem_cons] at hcase
          rcases List.cons_lt_cons_iff.mp h with hlt | ⟨rfl, hlt⟩
          · -- Where the texts differ first the values do, and what follows is less than a unit.
            have hxy : x < y :=
              digit?_lt_of_lt hx hy
                (hcase.imp (fun h => ⟨h.1.1, h.2.1⟩) fun h => ⟨h.1.1, h.2.1⟩) hlt
            calc m < (value * 32 + x + 1) * 32 ^ cs.length := (read?_bounds hm).2
              _ ≤ (value * 32 + y) * 32 ^ ds.length := by
                rw [hlength]
                exact Nat.mul_le_mul_right _ (Nat.add_lt_add_left hxy _)
              _ ≤ n := (read?_bounds hn).1
          · rw [hx] at hy
            cases hy
            refine ih hlength ?_ hm hn hlt
            simp only [List.forall_mem_append]
            exact hcase.imp (fun h => ⟨h.1.2, h.2.2⟩) fun h => ⟨h.1.2, h.2.2⟩
        next => cases hn
      next => cases hm

/-! ## Texts of identities -/

/-- Letters and digits are encoded in one byte each. -/
theorem utf8ByteSize_of_isAlphanum {cs : List Char} (h : ∀ c ∈ cs, c.isAlphanum = true) :
    (String.ofList cs).utf8ByteSize = cs.length := by
  induction cs with
  | nil => rfl
  | cons c cs ih =>
    rw [List.forall_mem_cons] at h
    have hc : c.utf8Size = 1 := by
      have hkind : c.isAlphanum = true := h.1
      delta Char.isAlphanum Char.isAlpha at hkind
      simp only [Bool.or_eq_true, isUpper_iff, isLower_iff, isDigit_iff] at hkind
      rw [Char.utf8Size_eq_one_iff, UInt32.le_iff_toNat_le]
      change c.toNat ≤ 127
      omega
    rw [String.ofList_cons, String.utf8ByteSize_append, String.utf8ByteSize_singleton, hc, ih h.2,
      List.length_cons, Nat.add_comm]

/-- A text is read as an identity if it has the right number of characters and all of them have a
value. -/
theorem parse_eq_ok_iff {text : String} {i : Identity} :
    parse text = .ok i ↔ text.toList.length = length ∧
      ∃ number, read? 0 text.toList = some number ∧ ofBits number = i := by
  rw [parse]
  cases hread : read? 0 text.toList with
  | none => split <;> simp
  | some number =>
    have hsize := utf8ByteSize_of_isAlphanum (isAlphanum_of_read? hread)
    rw [String.ofList_toList] at hsize
    rw [hsize]
    split
    next hne => simp [hne]
    next heq => simp [not_not.mp heq]

/-- The first eight characters of the alphabet are those up to `7`. -/
theorem digit?_lt_eight_iff {c : Char} {d : Nat} (h : digit? c = some d) : d < 8 ↔ c ≤ '7' := by
  have hseven : digit? '7' = some 7 := by decide
  constructor
  · intro hd
    obtain ⟨hlt, hc⟩ := exists_getElem_of_digit? h
    have hcapital : c.toUpper ≤ '7' := by
      have hsmall : ∀ (d : Nat) (h : d < alphabet.length), d < 8 → alphabet[d] ≤ '7' := by decide
      exact hc ▸ hsmall d hlt hd
    -- The capital of a small letter is a letter, so this is no small letter.
    have hnat : c.toUpper.toNat ≤ 55 := not_lt.mp (lt_iff_toNat.not.mp (not_lt.mpr hcapital))
    rw [toNat_toUpper] at hnat
    refine not_lt.mp (lt_iff_toNat.not.mpr (not_lt.mpr (?_ : c.toNat ≤ 55)))
    split at hnat
    next hlower =>
      have := isLower_iff.mp hlower
      omega
    next => exact hnat
  · intro hc
    rcases lt_or_eq_of_le hc with hlt | rfl
    · have hlower : c.isLower = false := by
        rw [Bool.eq_false_iff]
        intro hlower
        have hnat : c.toNat < 55 := lt_iff_toNat.mp hlt
        have := isLower_iff.mp hlower
        omega
      have := digit?_lt_of_lt h hseven (.inl ⟨hlower, rfl⟩) hlt
      omega
    · rw [hseven] at h
      cases h
      decide

/-- A text whose characters have values is in range if its number needs no further bits. -/
theorem isInRange_iff {text : String} {number : Nat} (hlength : text.toList.length = length)
    (hread : read? 0 text.toList = some number) : IsInRange text ↔ number < bound := by
  rw [IsInRange]
  cases htext : text.toList with
  | nil =>
    rw [htext] at hlength
    cases hlength
  | cons c cs =>
    rw [htext, read?] at hread
    rw [htext, List.length_cons, length, Nat.add_right_cancel_iff] at hlength
    split at hread
    next d hd =>
      -- All characters behind the first one are of the lower bits.
      obtain ⟨hlower, hupper⟩ := read?_bounds hread
      rw [hlength, Nat.zero_mul, Nat.zero_add] at hlower hupper
      have hbound : bound = 8 * 32 ^ 25 := by decide
      simp only [List.head?_cons, Option.mem_def, Option.some.injEq, forall_eq',
        ← digit?_lt_eight_iff hd, hbound]
      omega
    next => cases hread

theorem length_write (count value : Nat) : (write count value).length = count := by
  induction count generalizing value with
  | zero => rfl
  | succ count ih => rw [write, List.length_append, ih, List.length_singleton]

theorem mem_alphabet_of_mem_write {count value : Nat} {c : Char} (h : c ∈ write count value) :
    c ∈ alphabet := by
  induction count generalizing value with
  | zero => cases h
  | succ count ih =>
    have hlast : value % 32 < alphabet.length := Nat.mod_lt _ (by decide)
    rw [write, List.getElem?_eq_getElem hlast, Option.getD_some, List.mem_append,
      List.mem_singleton] at h
    rcases h with h | rfl
    · exact ih h
    · exact List.getElem_mem hlast

/-- The text of an identity is read as its number. -/
theorem read?_text (i : Identity) : read? 0 i.text.toList = some (i.value : Nat) := by
  have hlt : (i.value : Nat) < 32 ^ length := i.value.isLt.trans (by decide)
  rw [text, String.toList_ofList, read?_write, Nat.zero_mul, Nat.zero_add, Nat.mod_eq_of_lt hlt]

theorem length_text (i : Identity) : i.text.toList.length = length := by
  rw [text, String.toList_ofList, length_write]

theorem ofBits_value (i : Identity) : ofBits i.value = i := by
  rw [ofBits]
  simp only [Nat.mod_eq_of_lt i.value.isLt]

/-- The text of an identity is read as that identity. -/
theorem parse_text (i : Identity) : parse i.text = .ok i :=
  parse_eq_ok_iff.mpr ⟨i.length_text, i.value, i.read?_text, i.ofBits_value⟩

/-- No bits are lost of the text of an identity. -/
theorem isInRange_text (i : Identity) : IsInRange i.text :=
  (isInRange_iff i.length_text i.read?_text).mpr i.value.isLt

/-- The text of an identity has no small letters. -/
theorem isLower_of_mem_text {i : Identity} {c : Char} (h : c ∈ i.text.toList) :
    c.isLower = false := by
  have hcapitals : alphabet.all (!Char.isLower ·) = true := by decide
  rw [text, String.toList_ofList] at h
  simpa using List.all_eq_true.mp hcapitals c (mem_alphabet_of_mem_write h)

theorem areAlike_text (i j : Identity) : AreAlike i.text j.text :=
  .inl (List.forall_mem_append.mpr ⟨fun _ => isLower_of_mem_text, fun _ => isLower_of_mem_text⟩)

/-! ## Order -/

/-- Nothing of the number of a text in range is lost. -/
theorem read?_of_isInRange {text : String} {i : Identity} (h : parse text = .ok i)
    (hrange : IsInRange text) : read? 0 text.toList = some (i.value : Nat) := by
  obtain ⟨hlength, number, hread, rfl⟩ := parse_eq_ok_iff.mp h
  have hlt := (isInRange_iff hlength hread).mp hrange
  rw [hread, ofBits]
  exact congrArg some (Nat.mod_eq_of_lt hlt).symm

/-- Texts in range whose letters are in one case sort as the identities that they are read as. -/
theorem value_lt_of_lt {a b : String} {i j : Identity} (ha : parse a = .ok i) (hb : parse b = .ok j)
    (harange : IsInRange a) (hbrange : IsInRange b) (halike : AreAlike a b) (h : a < b) :
    i.value < j.value := by
  have hlength : a.toList.length = b.toList.length :=
    (parse_eq_ok_iff.mp ha).1.trans (parse_eq_ok_iff.mp hb).1.symm
  exact read?_lt_of_lt hlength halike (read?_of_isInRange ha harange)
    (read?_of_isInRange hb hbrange) (String.lt_iff.mp h)

/-- Of two identities the lesser one was not created later. -/
theorem millis_le_of_le {i j : Identity} (h : i.value ≤ j.value) :
    i.instant.millis ≤ j.instant.millis :=
  Int.ofNat_le.mpr (Nat.div_le_div_right h)

/-- Of the texts of an identity the one that is written is the one in range without small
letters. -/
theorem eq_text_iff {text : String} {i : Identity} (h : parse text = .ok i) :
    text = i.text ↔ (∀ c ∈ text.toList, c.isLower = false) ∧ IsInRange text := by
  constructor
  · rintro rfl
    exact ⟨fun _ => isLower_of_mem_text, i.isInRange_text⟩
  · rintro ⟨hlower, hrange⟩
    have htext : ∀ c ∈ i.text.toList, c.isLower = false := fun _ => isLower_of_mem_text
    -- Two such texts stand for different numbers if they differ.
    rcases lt_trichotomy text i.text with hlt | heq | hgt
    · have halike : AreAlike text i.text := .inl (List.forall_mem_append.mpr ⟨hlower, htext⟩)
      exact absurd (value_lt_of_lt h i.parse_text hrange i.isInRange_text halike hlt)
        (Nat.lt_irrefl _)
    · exact heq
    · have halike : AreAlike i.text text := .inl (List.forall_mem_append.mpr ⟨htext, hlower⟩)
      exact absurd (value_lt_of_lt i.parse_text h i.isInRange_text hrange halike hgt)
        (Nat.lt_irrefl _)

end Runbook.Identity
