/-!
# Lines

A line ends at a line feed, and a carriage return right before the line feed belongs to the line
end. The last line needs no end; without one it keeps a carriage return it closes with.
-/

namespace Runbook.Text

/-- The lines of a text, without their ends. -/
def lines : List Char → List (List Char)
  | [] => []
  | '\n' :: cs => [] :: lines cs
  | '\r' :: '\n' :: cs => [] :: lines cs
  | c :: cs =>
    match lines cs with
    | [] => [[c]]
    | line :: rest => (c :: line) :: rest

@[simp]
theorem lines_nil : lines [] = [] := rfl

@[simp]
theorem lines_lineFeed (cs : List Char) : lines ('\n' :: cs) = [] :: lines cs := rfl

/-- A text without line ends is a line of its own before whatever line end follows it. -/
theorem lines_append_lineFeed {line : List Char} (cs : List Char)
    (hfeed : '\n' ∉ line) (hreturn : '\r' ∉ line) :
    lines (line ++ '\n' :: cs) = line :: lines cs := by
  induction line with
  | nil => rfl
  | cons c line ih =>
    simp only [List.mem_cons, not_or] at hfeed hreturn
    rw [List.cons_append, lines, ih hfeed.2 hreturn.2]
    · rintro rfl; exact hfeed.1 rfl
    · rintro cs rfl; exact (hreturn.1 rfl).elim

end Runbook.Text
