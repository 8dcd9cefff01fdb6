import Mathlib.Data.List.Basic
import Runbook.Text.Blank
import Runbook.Text.Lines

/-!
# Tidy texts

A tidy text stands on one line and has no blanks at its ends. It is a line of every text that
holds it between line ends, and trimming leaves it as it is.

## Main definitions

* `Text.IsTidy`: the text is not empty, holds no line end, and neither starts nor ends with a
  blank.

## Main results

* `Text.IsTidy.append`: tidy texts around a text without line ends make up a tidy text;
* `Text.IsTidy.trim_eq_self`: trimming leaves a tidy text as it is;
* `Text.lines_flatMap_of_isTidy`: tidy texts, each before a line feed, are the lines.
-/

namespace Runbook.Text

/-- The text is not empty, holds no line end, and neither starts nor ends with a blank. -/
structure IsTidy (cs : List Char) : Prop where
  /-- There is something in the text. -/
  ne_nil : cs ≠ []
  /-- The first character is no blank. -/
  head : isBlank (cs.head ne_nil) = false
  /-- The last character is no blank. -/
  last : isBlank (cs.getLast ne_nil) = false
  /-- There is no line feed. -/
  lineFeed : '\n' ∉ cs
  /-- There is no carriage return. -/
  carriageReturn : '\r' ∉ cs

/-- A text without blanks is tidy. -/
theorem isTidy_of_forall {cs : List Char} (hne : cs ≠ []) (h : ∀ c ∈ cs, isBlank c = false) :
    IsTidy cs where
  ne_nil := hne
  head := h _ (cs.head_mem hne)
  last := h _ (cs.getLast_mem hne)
  lineFeed hmem := absurd (h _ hmem) (by decide)
  carriageReturn hmem := absurd (h _ hmem) (by decide)

/-- A given text is tidy if a look at its characters shows no blank. -/
theorem isTidy_of_all {cs : List Char} (hne : cs ≠ []) (h : cs.all (!isBlank ·) = true) :
    IsTidy cs :=
  isTidy_of_forall hne fun c hc => by simpa using List.all_eq_true.mp h c hc

/-- Tidy texts around a text without line ends make up a tidy text. -/
theorem IsTidy.append {front back : List Char} (hfront : IsTidy front) (middle : List Char)
    (hfeed : '\n' ∉ middle) (hreturn : '\r' ∉ middle) (hback : IsTidy back) :
    IsTidy (front ++ middle ++ back) where
  ne_nil := by simp [hfront.ne_nil]
  head := by
    simp only [List.append_assoc, List.head_append_of_ne_nil hfront.ne_nil]
    exact hfront.head
  last := by
    simp only [List.getLast_append_of_ne_nil _ hback.ne_nil]
    exact hback.last
  lineFeed := by simp [hfront.lineFeed, hfeed, hback.lineFeed]
  carriageReturn := by simp [hfront.carriageReturn, hreturn, hback.carriageReturn]

/-- Trimming leaves a tidy text as it is. -/
theorem IsTidy.trim_eq_self {cs : List Char} (h : IsTidy cs) : trim cs = cs := by
  have hdrop {cs : List Char} (hne : cs ≠ []) (hhead : isBlank (cs.head hne) = false) :
      cs.dropWhile isBlank = cs := by
    cases cs with
    | nil => rfl
    | cons c cs => exact List.dropWhile_cons_of_neg (by simpa using hhead)
  -- Trimming drops blanks from the front, also of the reversed text.
  have hreverse : cs.reverse.dropWhile isBlank = cs.reverse :=
    hdrop (List.reverse_ne_nil_iff.mpr h.ne_nil) (by simpa using h.last)
  rw [trim, hdrop h.ne_nil h.head, hreverse, List.reverse_reverse]

/-- Tidy texts, each before a line feed, are the lines of the text that they make up. -/
theorem lines_flatMap_of_isTidy {α : Type} (chars : α → List Char) {items : List α}
    (h : ∀ item ∈ items, IsTidy (chars item)) :
    lines (items.flatMap fun item => chars item ++ ['\n']) = items.map chars := by
  induction items with
  | nil => rfl
  | cons item rest ih =>
    have hitem := h item List.mem_cons_self
    have hrest := ih fun other hother => h other (List.mem_cons_of_mem item hother)
    rw [List.flatMap_cons, List.append_assoc, List.singleton_append,
      lines_append_lineFeed _ hitem.lineFeed hitem.carriageReturn, hrest, List.map_cons]

end Runbook.Text
