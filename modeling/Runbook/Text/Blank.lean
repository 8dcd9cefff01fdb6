/-!
# Blank characters

The characters that separate the words of a template, and the trimming of a text at both ends.
A blank is a character with the Unicode property `White_Space`; the zero-width space and the
byte order mark do not have it.
-/

namespace Runbook.Text

/-- The characters with the Unicode property `White_Space`. -/
def isBlank (c : Char) : Bool :=
  let n := c.toNat
  (0x09 ≤ n && n ≤ 0x0D) || n == 0x20 || n == 0x85 || n == 0xA0 || n == 0x1680 ||
    (0x2000 ≤ n && n ≤ 0x200A) || n == 0x2028 || n == 0x2029 || n == 0x202F || n == 0x205F ||
    n == 0x3000

/-- The text without the blanks at its ends. -/
def trim (cs : List Char) : List Char :=
  ((cs.dropWhile isBlank).reverse.dropWhile isBlank).reverse

/-- Trimming takes blanks off both ends of a text. -/
theorem exists_append_trim (cs : List Char) :
    ∃ front back, (∀ c ∈ front, isBlank c = true) ∧ (∀ c ∈ back, isBlank c = true) ∧
      cs = front ++ trim cs ++ back := by
  have hblank (cs : List Char) : ∀ c ∈ cs.takeWhile isBlank, isBlank c = true :=
    List.all_eq_true.mp List.all_takeWhile
  let middle := cs.dropWhile isBlank
  -- What is taken off the end is taken off the front of the reversed text.
  refine ⟨cs.takeWhile isBlank, (middle.reverse.takeWhile isBlank).reverse, hblank cs,
    fun c hc => hblank _ c (List.mem_reverse.mp hc), ?_⟩
  have hmiddle : trim cs ++ (middle.reverse.takeWhile isBlank).reverse = middle := by
    rw [trim, ← List.reverse_append, List.takeWhile_append_dropWhile, List.reverse_reverse]
  rw [List.append_assoc, hmiddle, List.takeWhile_append_dropWhile]

end Runbook.Text
