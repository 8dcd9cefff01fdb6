import Mathlib.Data.List.Basic
import Runbook.Text.Lines

/-!
# The first lines of a text

A text may be cut behind one of its line ends. The part in front of the cut is a text of its own,
and its lines are the first lines of the whole.

## Main definitions

* `Text.firstLines`: the text through one of its line ends.

## Main results

* `Text.firstLines_isPrefix`: the first lines stand at the front of the text;
* `Text.lines_firstLines`: what they are split into.
-/

namespace Runbook.Text

/-- The text through the end of its `n`-th line, or all of it if there are fewer lines. -/
def firstLines : Nat → List Char → List Char
  | 0, _ => []
  | _ + 1, [] => []
  | n + 1, '\n' :: cs => '\n' :: firstLines n cs
  | n + 1, c :: cs => c :: firstLines (n + 1) cs

/-- The first lines stand at the front of the text. -/
theorem firstLines_isPrefix (n : Nat) (cs : List Char) : firstLines n cs <+: cs := by
  fun_induction firstLines n cs with
  | case1 => exact List.nil_prefix
  | case2 => exact List.nil_prefix
  | case3 n cs ih => exact List.cons_prefix_cons.mpr ⟨rfl, ih⟩
  | case4 n c cs _ ih => exact List.cons_prefix_cons.mpr ⟨rfl, ih⟩

/-- A character that belongs to no line end goes in front of the first line of the rest. -/
theorem lines_cons {c : Char} {cs : List Char} (hfeed : c ≠ '\n')
    (hreturn : c = '\r' → cs.head? ≠ some '\n') :
    lines (c :: cs) = (c :: (lines cs).headD []) :: (lines cs).tail := by
  rw [lines]
  · cases lines cs <;> rfl
  · exact hfeed
  · rintro rest rfl rfl
    exact hreturn rfl rfl

/-- The lines of the first lines of a text are the first lines. -/
theorem lines_firstLines (n : Nat) (cs : List Char) :
    lines (firstLines n cs) = (lines cs).take n := by
  fun_induction firstLines n cs with
  | case1 => rfl
  | case2 => rfl
  | case3 n cs ih => rw [lines_lineFeed, lines_lineFeed, ih, List.take_succ_cons]
  | case4 n c cs hfeed ih =>
    by_cases hend : c = '\r' ∧ cs.head? = some '\n'
    · -- A carriage return in front of a line feed is part of the line end that is kept.
      obtain ⟨rfl, hhead⟩ := hend
      obtain ⟨cs, rfl⟩ := List.head?_eq_some_iff.mp hhead
      exact ih
    · have hreturn : c = '\r' → cs.head? ≠ some '\n' := fun hc hhead => hend ⟨hc, hhead⟩
      have hhead : c = '\r' → (firstLines (n + 1) cs).head? ≠ some '\n' := by
        intro hc hfirst
        obtain ⟨more, hmore⟩ := List.head?_eq_some_iff.mp hfirst
        obtain ⟨rest, hrest⟩ := firstLines_isPrefix (n + 1) cs
        rw [hmore] at hrest
        exact hreturn hc (by rw [← hrest]; rfl)
      rw [lines_cons hfeed hhead, lines_cons hfeed hreturn, ih, List.take_succ_cons]
      cases lines cs <;> simp

end Runbook.Text
