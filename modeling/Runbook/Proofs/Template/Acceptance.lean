import Runbook.Proofs.Statement.Acceptance
import Runbook.Proofs.Template.Scoped
import Runbook.Proofs.Text.Lines

/-!
# The texts that are templates

A text is read as a template exactly if each line that holds a statement reads as one and the
statements are scoped. If it is not read, the first line that cannot be is blamed, with a piece of
that line: the text cut in front of the line is still read, and the text cut behind it is not.

## Main results

* `Statement.infix_of_mem_references`, `Statement.infix_of_mem_name`: the names that a statement
  refers to and declares stand in its text;
* `Template.ofText_eq_ok_iff`: which texts are read, and as what;
* `Template.exists_of_readLines_eq_error`: which line an error blames, and what it shows;
* `Template.accepts_exactly_scoped`: the two together, for whole texts.
-/

namespace Runbook

/-! ## The names in a statement -/

namespace Token.Kind

/-- A reference among the values of parameters is one of their tokens. -/
theorem reference_mem_of_areParameters {kinds : List Kind} {parameters : List (String × Value)}
    (h : AreParameters kinds parameters) {name : String}
    (hname : Value.reference name ∈ parameters.map Prod.snd) : Kind.reference name ∈ kinds := by
  induction h with
  | nil => cases hname
  | @cons key kinds others value parameters _ hvalue _ ih =>
    rw [List.map_cons, List.mem_cons] at hname
    rcases hname with hself | hrest
    · obtain rfl : Value.reference name = value := hself
      cases hvalue
      exact List.mem_append_left others (by simp)
    · exact List.mem_append_right _ (ih hrest)

/-- What a statement refers to is among its tokens. -/
theorem reference_mem_of_isStatement {kinds : List Kind} {s : Statement} (h : IsStatement kinds s)
    {name : String} (hname : name ∈ s.command.references) : Kind.reference name ∈ kinds := by
  have hcommand {kinds : List Kind} {c : Command} (h : IsCommand kinds c)
      (hname : name ∈ c.references) : Kind.reference name ∈ kinds := by
    obtain ⟨-, -, hparameters⟩ := h
    have hmem := reference_mem_of_areParameters hparameters (Command.mem_references_iff.mp hname)
    exact List.mem_cons_of_mem _ (List.mem_cons_of_mem _ hmem)
  cases h with
  | command h => exact hcommand h hname
  | declaration _ h => exact List.mem_cons_of_mem _ (List.mem_cons_of_mem _ (hcommand h hname))

/-- What a statement declares is among its tokens. -/
theorem word_mem_of_isStatement {kinds : List Kind} {s : Statement} (h : IsStatement kinds s)
    {name : String} (hname : name ∈ s.name) : Kind.word name ∈ kinds := by
  cases h with
  | command => cases hname
  | declaration => cases hname; exact List.mem_cons_self

end Token.Kind

namespace Statement

/-- Each token of a statement stands in its text as one of the spellings of its kind. -/
theorem exists_spells_infix {text : String} {tokens : List Token}
    (htokens : Token.tokenize text = .ok tokens) {kind : Token.Kind}
    (hkind : kind ∈ tokens.map Token.kind) :
    ∃ c cs, Token.Spells c cs kind ∧ c :: cs <:+: text.toList := by
  obtain ⟨token, htoken, rfl⟩ := List.mem_map.mp hkind
  obtain ⟨c, cs, hlexeme, hspells⟩ := Token.spells_of_mem_tokensFrom htokens token htoken
  refine ⟨c, cs, hspells, ?_⟩
  rw [← hlexeme]
  exact Token.lexeme_infix_of_tokensFrom htokens token htoken

/-- A reference stands in the text of its statement. -/
theorem infix_of_mem_references {text : String} {s : Statement} (h : ofText text = .ok s)
    {name : String} (hname : name ∈ s.command.references) :
    '$' :: name.toList <:+: text.toList := by
  obtain ⟨tokens, htokens, hs⟩ := ofText_eq_ok_iff.mp h
  obtain ⟨c, cs, hspells, hinfix⟩ :=
    exists_spells_infix htokens (Token.Kind.reference_mem_of_isStatement hs hname)
  cases hspells
  rwa [String.toList_ofList]

/-- The declared name stands in the text of its statement. -/
theorem infix_of_mem_name {text : String} {s : Statement} (h : ofText text = .ok s)
    {name : String} (hname : name ∈ s.name) : name.toList <:+: text.toList := by
  obtain ⟨tokens, htokens, hs⟩ := ofText_eq_ok_iff.mp h
  obtain ⟨c, cs, hspells, hinfix⟩ :=
    exists_spells_infix htokens (Token.Kind.word_mem_of_isStatement hs hname)
  cases hspells
  rwa [String.toList_ofList]

end Statement

namespace Template

/-! ## Texts that are read -/

/-- The lines of a text that hold statements. -/
def statementLines (text : String) : List (List Char) :=
  (Text.lines text.toList).filter holdsStatement

/-- A text is read as the template of the statements that its lines are read as, if these are
scoped. -/
theorem ofText_eq_ok_iff {text : String} {t : Template} :
    ofText text = .ok t ↔
      List.Forall₂ (fun line s => Statement.ofText (String.ofList line) = .ok s)
          (statementLines text) t.statements ∧
        t.IsScoped := by
  rw [ofText_eq_ok_iff_readLines, readLines_eq_ok_iff, isScoped_iff]
  simp only [Statement.ofText_trim_eq_ok_iff, statementLines]

/-! ## Texts that are not read -/

/-- The error of a line carries its number and shows a piece of it. -/
theorem infix_of_readLine_eq_error {declared : List String} {number : Nat} {line : List Char}
    {e : SyntaxError} (h : readLine declared number line = .error e) :
    e.line = number ∧ e.token.toList <:+: line := by
  rw [readLine] at h
  split at h
  next e' hread =>
    cases h
    have hinfix := (Statement.infix_of_ofText_eq_error hread).2
    rw [String.toList_ofList] at hinfix
    exact ⟨rfl, hinfix⟩
  next s hread =>
    split at h
    next name hundeclared =>
      cases h
      have hname : name ∈ s.command.references := List.mem_of_find?_eq_some hundeclared
      have hinfix := Statement.infix_of_mem_references hread hname
      rw [String.toList_ofList] at hinfix
      refine ⟨rfl, ?_⟩
      rwa [String.toList_ofList]
    next =>
      split at h
      next => cases h
      next name hname =>
        split at h
        · cases h
          have hinfix := Statement.infix_of_mem_name hread hname
          rw [String.toList_ofList] at hinfix
          exact ⟨rfl, hinfix⟩
        · cases h

/-- The error of lines is that of the first line that is not read behind those before it: it is not
there without that line, and does not depend on the lines that follow. -/
theorem exists_of_readLines_eq_error {declared : List String} {number : Nat}
    {lines : List (List Char)} {e : SyntaxError} (h : readLines declared number lines = .error e) :
    ∃ k line, lines[k]? = some line ∧ e.line = number + k ∧ e.token.toList <:+: line ∧
      (∃ statements, readLines declared number (lines.take k) = .ok statements) ∧
      readLines declared number (lines.take (k + 1)) = .error e := by
  -- The lines in front of the one at fault only add to what is declared there.
  induction lines generalizing declared number with
  | nil => cases h
  | cons line rest ih =>
    by_cases hholds : holdsStatement line = true
    · rw [readLines_cons_of_holdsStatement rest hholds] at h
      cases hline : readLine declared number (Text.trim line) with
      | error e' =>
        rw [hline] at h
        cases h
        obtain ⟨hnumber, hinfix⟩ := infix_of_readLine_eq_error hline
        obtain ⟨front, back, -, -, hsplit⟩ := Text.exists_append_trim line
        refine ⟨0, line, rfl, hnumber, hinfix.trans ⟨front, back, hsplit.symm⟩, ⟨[], rfl⟩, ?_⟩
        rw [List.take_succ_cons, readLines_cons_of_holdsStatement _ hholds, hline]
      | ok s =>
        cases hrest : readLines (s.name.toList ++ declared) (number + 1) rest with
        | ok others => simp only [hline, hrest, Except.map] at h; cases h
        | error e' =>
          simp only [hline, hrest, Except.map] at h
          cases h
          obtain ⟨k, faulty, hk, hnumber, hinfix, ⟨before, hbefore⟩, hfails⟩ := ih hrest
          refine ⟨k + 1, faulty, hk, by omega, hinfix, ⟨s :: before, ?_⟩, ?_⟩
          · rw [List.take_succ_cons, readLines_cons_of_holdsStatement _ hholds, hline]
            simp only [hbefore, Except.map]
          · rw [List.take_succ_cons, readLines_cons_of_holdsStatement _ hholds, hline]
            simp only [hfails, Except.map]
    · rw [readLines_cons_of_not_holdsStatement rest hholds] at h
      obtain ⟨k, faulty, hk, hnumber, hinfix, hbefore, hfails⟩ := ih h
      refine ⟨k + 1, faulty, hk, by omega, hinfix, ?_, ?_⟩
      · rwa [List.take_succ_cons, readLines_cons_of_not_holdsStatement _ hholds]
      · rwa [List.take_succ_cons, readLines_cons_of_not_holdsStatement _ hholds]

theorem ofText_eq_error_iff_readLines {text : String} {e : SyntaxError} :
    ofText text = .error e ↔ readLines [] 1 (Text.lines text.toList) = .error e := by
  rw [ofText]
  cases readLines [] 1 (Text.lines text.toList) <;> simp [Except.map]

/-- The first lines of a text, as a text of their own. -/
def firstLines (k : Nat) (text : String) : String :=
  String.ofList (Text.firstLines k text.toList)

@[simp]
theorem lines_firstLines (k : Nat) (text : String) :
    Text.lines (firstLines k text).toList = (Text.lines text.toList).take k := by
  rw [firstLines, String.toList_ofList, Text.lines_firstLines]

/-- The reader accepts exactly the scoped templates and blames the first bad line. A text is read
as a template if and only if the template has the statements that the lines that hold one are read
as, in order, and is scoped. Every other text is an error of one of its lines: the lines before it
alone are a template, through it they are not, and the error shows a piece of that line. -/
theorem accepts_exactly_scoped (text : String) :
    (∀ t, ofText text = .ok t ↔
      List.Forall₂ (fun line s => Statement.ofText (String.ofList line) = .ok s)
          (statementLines text) t.statements ∧
        t.IsScoped) ∧
    ((¬∃ t : Template,
        List.Forall₂ (fun line s => Statement.ofText (String.ofList line) = .ok s)
            (statementLines text) t.statements ∧
          t.IsScoped) →
      ∃ e k line, ofText text = .error e ∧ e.line = k + 1 ∧
        (Text.lines text.toList)[k]? = some line ∧ e.token.toList <:+: line ∧
        (∃ t, ofText (firstLines k text) = .ok t) ∧
        ofText (firstLines (k + 1) text) = .error e) := by
  refine ⟨fun t => ofText_eq_ok_iff, fun hnone => ?_⟩
  cases hread : ofText text with
  | ok t => exact (hnone ⟨t, ofText_eq_ok_iff.mp hread⟩).elim
  | error e =>
    obtain ⟨k, line, hline, hnumber, hinfix, ⟨statements, hbefore⟩, hfails⟩ :=
      exists_of_readLines_eq_error (ofText_eq_error_iff_readLines.mp hread)
    refine ⟨e, k, line, rfl, by omega, hline, hinfix, ⟨⟨statements⟩, ?_⟩, ?_⟩
    · rwa [ofText_eq_ok_iff_readLines, lines_firstLines]
    · rwa [ofText_eq_error_iff_readLines, lines_firstLines]

/-- A template that declares a name a second time, behind a comment and an empty line. -/
private def twoNetworks : String :=
  "# two networks\r\nnet = create vpc\r\n\r\nnet = create vpc peer=$net\r\n"

/-- The fourth line is blamed for its name, which it may refer to; the lines before it are read. -/
theorem accepts_exactly_scoped_networks :
    ofText twoNetworks = .error ⟨4, "net", .duplicateDeclaration⟩ ∧
      ∃ t, ofText "# two networks\r\nnet = create vpc\r\n\r\n" = .ok t := by
  have herror : ofText twoNetworks = .error ⟨4, "net", .duplicateDeclaration⟩ := by decide +kernel
  obtain ⟨haccepts, hblames⟩ := accepts_exactly_scoped twoNetworks
  have hnone : ¬∃ t : Template,
      List.Forall₂ (fun line s => Statement.ofText (String.ofList line) = .ok s)
          (statementLines twoNetworks) t.statements ∧
        t.IsScoped := by
    rintro ⟨t, ht⟩
    have hread := (haccepts t).mpr ht
    rw [herror] at hread
    cases hread
  obtain ⟨e, k, line, he, hnumber, -, -, hbefore, -⟩ := hblames hnone
  obtain rfl : ⟨4, "net", .duplicateDeclaration⟩ = e := Except.error.inj (herror.symm.trans he)
  obtain rfl : 3 = k := Nat.succ.inj hnumber
  have hfirst : firstLines 3 twoNetworks =
      "# two networks\r\nnet = create vpc\r\n\r\n" := by decide
  exact ⟨herror, hfirst ▸ hbefore⟩

end Template

end Runbook
