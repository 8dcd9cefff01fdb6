import Mathlib.Data.List.Forall2
import Runbook.Template.Reader

/-!
# Scoped templates

In a scoped template no name is declared twice and every reference names an earlier declaration.
The reader checks this line by line against the names declared so far; both forms are the same.

## Main definitions

* `Template.IsScoped`: names are declared once and referred to afterwards;
* `Statement.AreScoped`: the same for statements behind some declarations, one at a time.

## Main results

* `Template.isScoped_iff`: the two definitions agree;
* `Template.readLines_eq_ok_iff`: lines are read as the statements that they hold, if these are
  scoped;
* `Template.isScoped_of_ofText`: a template that was read is scoped.
-/

namespace Runbook

/-- The names that a command refers to, in order. -/
def Command.references (c : Command) : List String :=
  c.parameters.values.filterMap Value.reference?

theorem Command.mem_references_iff {c : Command} {name : String} :
    name ∈ c.references ↔ Value.reference name ∈ c.parameters.values := by
  rw [references, List.mem_filterMap]
  constructor
  · rintro ⟨value, hvalue, hreference⟩
    cases value with
    | reference other => cases hreference; exact hvalue
    | literal => cases hreference
    | hole => cases hreference
  · exact fun h => ⟨.reference name, h, rfl⟩

namespace Statement

/-- The names that statements declare, in order. -/
def names (statements : List Statement) : List String :=
  statements.filterMap Statement.name

@[simp]
theorem names_nil : names [] = [] := rfl

@[simp]
theorem names_cons (s : Statement) (rest : List Statement) :
    names (s :: rest) = s.name.toList ++ names rest := by
  cases h : s.name <;> simp [names, h]

/-- The statements are scoped behind declarations of some names: each refers to names declared
before it and declares none of them. -/
def AreScoped (declared : List String) : List Statement → Prop
  | [] => True
  | s :: rest =>
    (∀ name ∈ s.command.references, name ∈ declared) ∧ (∀ name ∈ s.name, name ∉ declared) ∧
      AreScoped (s.name.toList ++ declared) rest

instance decidableAreScoped :
    (declared : List String) → (statements : List Statement) →
      Decidable (AreScoped declared statements)
  | _, [] => isTrue trivial
  | declared, s :: rest =>
    have := decidableAreScoped (s.name.toList ++ declared) rest
    inferInstanceAs (Decidable (_ ∧ _ ∧ _))

/-- The names declared behind some others are new and pairwise distinct. -/
theorem AreScoped.nodup {declared : List String} {statements : List Statement}
    (h : AreScoped declared statements) :
    (names statements).Nodup ∧ ∀ name ∈ names statements, name ∉ declared := by
  -- A declared name is in `declared` from there on, so no later one can be the same.
  induction statements generalizing declared with
  | nil => simp
  | cons s rest ih =>
    obtain ⟨-, hnew, hrest⟩ := h
    obtain ⟨hnodup, hfresh⟩ := ih hrest
    cases hname : s.name with
    | none => simpa [hname] using And.intro hnodup hfresh
    | some name =>
      rw [hname] at hnew hfresh
      have hself : name ∉ names rest := fun hmem =>
        hfresh name hmem (List.mem_append_left _ (by simp))
      have hothers : ∀ other ∈ names rest, other ∉ declared := fun other hmem hother =>
        hfresh other hmem (List.mem_append_right _ hother)
      simp only [names_cons, hname, Option.toList_some, List.singleton_append, List.nodup_cons,
        List.mem_cons, forall_eq_or_imp]
      exact ⟨⟨hself, hnodup⟩, hnew name rfl, hothers⟩

/-- What a statement in the midst of scoped statements refers to is declared before it. -/
theorem AreScoped.references {declared : List String} {before after : List Statement}
    {s : Statement} (h : AreScoped declared (before ++ s :: after)) :
    ∀ name ∈ s.command.references, name ∈ names before ∨ name ∈ declared := by
  -- What is declared in front of the rest is `declared` and what `before` starts with.
  induction before generalizing declared with
  | nil => exact fun name hname => .inr (h.1 name hname)
  | cons first rest ih =>
    intro name hname
    rw [names_cons, List.mem_append]
    rcases ih h.2.2 name hname with hrest | hearlier
    · exact .inl (.inr hrest)
    · rcases List.mem_append.mp hearlier with hfirst | hdeclared
      · exact .inl (.inl hfirst)
      · exact .inr hdeclared

/-- Statements whose names are new and distinct, and whose references are declared, are scoped. -/
theorem areScoped_of_forall {declared : List String} {statements : List Statement}
    (hnodup : (names statements).Nodup) (hnew : ∀ name ∈ names statements, name ∉ declared)
    (hreferences : ∀ before s after, statements = before ++ s :: after →
      ∀ name ∈ s.command.references, name ∈ names before ∨ name ∈ declared) :
    AreScoped declared statements := by
  induction statements generalizing declared with
  | nil => trivial
  | cons s rest ih =>
    rw [names_cons, List.nodup_append] at hnodup
    refine ⟨fun name hname => ?_, fun name hname => hnew name ?_, ih hnodup.2.1 ?_ ?_⟩
    · exact (hreferences [] s rest rfl name hname).resolve_left List.not_mem_nil
    · rw [names_cons, List.mem_append]
      exact .inl (Option.mem_toList.mpr hname)
    · intro name hname hmem
      rcases List.mem_append.mp hmem with hself | hdeclared
      · exact hnodup.2.2 name hself name hname rfl
      · exact hnew name (by simp [hname]) hdeclared
    -- What stands before a statement of the rest stands behind `s` in the whole.
    · rintro before t after rfl name hname
      rw [List.mem_append]
      rcases hreferences (s :: before) t after rfl name hname with hbefore | hdeclared
      · rw [names_cons, List.mem_append] at hbefore
        exact hbefore.elim (fun hself => .inr (.inl hself)) .inl
      · exact .inr (.inr hdeclared)

end Statement

namespace Template

/-- No name is declared twice, and every reference names an earlier declaration. -/
structure IsScoped (t : Template) : Prop where
  /-- The declared names are pairwise distinct. -/
  distinct : (Statement.names t.statements).Nodup
  /-- What a statement refers to is declared before it. -/
  declared : ∀ before s after, t.statements = before ++ s :: after →
    ∀ name ∈ s.command.references, name ∈ Statement.names before

/-- A template is scoped if its statements are, one at a time. -/
theorem isScoped_iff {t : Template} : t.IsScoped ↔ Statement.AreScoped [] t.statements := by
  constructor
  · intro h
    refine Statement.areScoped_of_forall h.distinct (fun _ _ => List.not_mem_nil) ?_
    intro before s after heq name hname
    exact .inl (h.declared before s after heq name hname)
  · intro h
    refine ⟨h.nodup.1, ?_⟩
    intro before s after heq name hname
    rw [heq] at h
    exact (h.references name hname).resolve_right List.not_mem_nil

instance (t : Template) : Decidable t.IsScoped :=
  decidable_of_iff _ isScoped_iff.symm

/-- Nothing is undeclared in a command if all its references are declared. -/
theorem undeclared?_eq_none_iff {declared : List String} {c : Command} :
    undeclared? declared c = none ↔ ∀ name ∈ c.references, name ∈ declared := by
  rw [undeclared?, List.find?_eq_none, Command.references]
  simp

/-- A line gives a statement if that is what it reads as and the statement is in scope. -/
theorem readLine_eq_ok_iff {declared : List String} {number : Nat} {line : List Char}
    {s : Statement} :
    readLine declared number line = .ok s ↔
      Statement.ofText (String.ofList line) = .ok s ∧
        (∀ name ∈ s.command.references, name ∈ declared) ∧ ∀ name ∈ s.name, name ∉ declared := by
  rw [readLine]
  cases hread : Statement.ofText (String.ofList line) with
  | error e => simp
  | ok statement =>
    have hundeclared : undeclared? declared statement.command = none ↔
        ∀ name ∈ statement.command.references, name ∈ declared := undeclared?_eq_none_iff
    -- The line is refused for a reference first and for its own name only then.
    cases hfound : undeclared? declared statement.command with
    | some name =>
      have hnot : ¬∀ name ∈ statement.command.references, name ∈ declared := by
        rw [← hundeclared, hfound]
        simp
      simp only [hfound, Except.ok.injEq, reduceCtorEq, false_iff, not_and]
      rintro rfl hreferences
      exact absurd hreferences hnot
    | none =>
      have hreferences := hundeclared.mp hfound
      cases hname : statement.name with
      | none =>
        simp only [hfound, hname, Except.ok.injEq]
        refine ⟨?_, fun h => h.1⟩
        rintro rfl
        exact ⟨rfl, hreferences, by simp [hname]⟩
      | some name =>
        simp only [hfound, hname]
        split
        next hcontains =>
          simp only [reduceCtorEq, false_iff, Except.ok.injEq, not_and]
          rintro rfl - hnew
          exact hnew name hname (by simpa using hcontains)
        next hcontains =>
          simp only [Except.ok.injEq]
          refine ⟨?_, fun h => h.1⟩
          rintro rfl
          exact ⟨rfl, hreferences, by simpa [hname] using hcontains⟩

/-- Whether a line holds a statement. -/
def holdsStatement (line : List Char) : Bool :=
  !isSkipped (Text.trim line)

theorem readLines_cons_of_not_holdsStatement {declared : List String} {number : Nat}
    {line : List Char} (rest : List (List Char)) (h : ¬holdsStatement line = true) :
    readLines declared number (line :: rest) = readLines declared (number + 1) rest := by
  rw [holdsStatement, Bool.not_eq_true, Bool.not_eq_false'] at h
  rw [readLines]
  exact if_pos h

/-- A line that holds a statement is read first, and then the others with what it declares. -/
theorem readLines_cons_of_holdsStatement {declared : List String} {number : Nat}
    {line : List Char} (rest : List (List Char)) (h : holdsStatement line = true) :
    readLines declared number (line :: rest) =
      match readLine declared number (Text.trim line) with
      | .error e => .error e
      | .ok s => (readLines (s.name.toList ++ declared) (number + 1) rest).map (s :: ·) := by
  rw [holdsStatement, Bool.not_eq_true'] at h
  rw [readLines]
  simp only [h, Bool.false_eq_true, if_false]
  cases readLine declared number (Text.trim line) with
  | error e => rfl
  | ok s =>
    cases hrest : readLines (s.name.toList ++ declared) (number + 1) rest <;>
      simp only [hrest, Except.map]

/-- Lines are read as the statements that they hold, if these are scoped. -/
theorem readLines_eq_ok_iff {declared : List String} {number : Nat} {lines : List (List Char)}
    {statements : List Statement} :
    readLines declared number lines = .ok statements ↔
      List.Forall₂ (fun line s => Statement.ofText (String.ofList (Text.trim line)) = .ok s)
          (lines.filter holdsStatement) statements ∧
        Statement.AreScoped declared statements := by
  -- The reader carries the names declared so far, as `AreScoped` does; a skipped line adds none.
  induction lines generalizing declared number statements with
  | nil =>
    rw [List.filter_nil, List.forall₂_nil_left_iff, readLines, Except.ok.injEq, eq_comm]
    constructor
    · rintro rfl
      exact ⟨rfl, trivial⟩
    · exact And.left
  | cons line rest ih =>
    by_cases hholds : holdsStatement line = true
    · rw [readLines_cons_of_holdsStatement rest hholds, List.filter_cons_of_pos hholds,
        List.forall₂_cons_left_iff]
      constructor
      · intro h
        cases hline : readLine declared number (Text.trim line) with
        | error e => rw [hline] at h; cases h
        | ok s =>
          cases hothers : readLines (s.name.toList ++ declared) (number + 1) rest with
          | error e => simp only [hline, hothers, Except.map] at h; cases h
          | ok others =>
            simp only [hline, hothers, Except.map] at h
            cases h
            obtain ⟨hread, hscope⟩ := readLine_eq_ok_iff.mp hline
            obtain ⟨hreads, hscoped⟩ := ih.mp hothers
            exact ⟨⟨s, others, hread, hreads, rfl⟩, hscope.1, hscope.2, hscoped⟩
      · rintro ⟨⟨s, others, hread, hreads, rfl⟩, hreferences, hname, hscoped⟩
        rw [readLine_eq_ok_iff.mpr ⟨hread, hreferences, hname⟩]
        simp only [ih.mpr ⟨hreads, hscoped⟩, Except.map]
    · rw [readLines_cons_of_not_holdsStatement rest hholds, List.filter_cons_of_neg hholds]
      exact ih

/-- What holds of every statement that is read holds of all statements of lines that are. -/
theorem forall_of_readLines {p : Statement → Prop}
    (hp : ∀ text s, Statement.ofText text = .ok s → p s) {declared : List String} {number : Nat}
    {lines : List (List Char)} {statements : List Statement}
    (h : readLines declared number lines = .ok statements) : ∀ s ∈ statements, p s := by
  intro s hs
  obtain ⟨i, hi, rfl⟩ := List.getElem_of_mem hs
  have hreads := (readLines_eq_ok_iff.mp h).1
  exact hp _ _ (hreads.get (hreads.length_eq ▸ hi) hi)

/-- A template is read if its lines are, as the statements that they hold. -/
theorem ofText_eq_ok_iff_readLines {text : String} {t : Template} :
    ofText text = .ok t ↔ readLines [] 1 (Text.lines text.toList) = .ok t.statements := by
  rw [ofText]
  cases readLines [] 1 (Text.lines text.toList) with
  | error e => simp [Except.map]
  | ok statements =>
    simp only [Except.map, Except.ok.injEq]
    exact ⟨fun h => h ▸ rfl, fun h => h ▸ rfl⟩

/-- A template that was read is scoped. -/
theorem isScoped_of_ofText {text : String} {t : Template} (h : ofText text = .ok t) :
    t.IsScoped :=
  isScoped_iff.mpr (readLines_eq_ok_iff.mp (ofText_eq_ok_iff_readLines.mp h)).2

/-- What holds of every statement that is read holds of all statements of a template that is. -/
theorem forall_of_ofText {p : Statement → Prop}
    (hp : ∀ text s, Statement.ofText text = .ok s → p s) {text : String} {t : Template}
    (h : ofText text = .ok t) : ∀ s ∈ t.statements, p s :=
  forall_of_readLines hp (ofText_eq_ok_iff_readLines.mp h)

end Template

end Runbook
