import Runbook.Proofs.Statement.Fault

/-!
# The texts that are statements

The reader of statements decides the grammar: it gives a statement exactly for those texts that are
split into the tokens of one, and it gives the one statement that they derive. As it is read from
the spellings of its tokens, a statement does not depend on the blanks between them and at the ends
of its text, but for those that set words apart.

## Main results

* `Statement.isStatement_unique`: tokens derive one statement at most;
* `Statement.ofText_eq_ok_iff`: which texts are read, and as what;
* `Statement.ofText_trim_eq_ok_iff`: trimming a text does not matter;
* `Statement.gaps_do_not_matter`: neither does any other change of the blanks between tokens;
* `Statement.accepts_exactly_grammar`: every other text is a syntax error that shows a piece of it.
-/

namespace Runbook.Statement

open Token (Kind)

/-- Tokens derive one statement at most. -/
theorem isStatement_unique {kinds : List Kind} {s s' : Statement} (h : Kind.IsStatement kinds s)
    (h' : Kind.IsStatement kinds s') : s = s' := by
  -- The reader gives both statements, for whatever tokens of these kinds.
  let tokens : List Token := kinds.map fun kind => ⟨kind, 0, ""⟩
  have htokens : tokens.map Token.kind = kinds := by
    rw [List.map_map]
    exact List.map_id kinds
  have hread := ofTokens_of_isStatement "" h htokens
  rw [ofTokens_of_isStatement "" h' htokens] at hread
  exact (Except.ok.inj hread).symm

/-- A text is read as the statement that its tokens derive. -/
theorem ofText_eq_ok_iff {text : String} {s : Statement} :
    ofText text = .ok s ↔
      ∃ tokens, Token.tokenize text = .ok tokens ∧
        Kind.IsStatement (tokens.map Token.kind) s := by
  rw [ofText]
  cases Token.tokenize text with
  | error e => simp
  | ok tokens =>
    simp only [Except.ok.injEq, exists_eq_left']
    exact ⟨isStatement_of_ofTokens, fun h => ofTokens_of_isStatement text h rfl⟩

/-- A text is read as the statement that is derived from tokens that it spells. -/
theorem ofText_eq_ok_iff_spellsAll {text : String} {s : Statement} :
    ofText text = .ok s ↔
      ∃ kinds, Token.SpellsAll text.toList kinds ∧ Kind.IsStatement kinds s := by
  constructor
  · intro h
    obtain ⟨tokens, htokens, hs⟩ := ofText_eq_ok_iff.mp h
    exact ⟨_, Token.spellsAll_of_tokensFrom htokens, hs⟩
  · rintro ⟨kinds, hkinds, hs⟩
    exact ofText_of_scans (Token.scans_iff_spellsAll.mpr hkinds) hs

/-- Trimming a text does not change the statement that it is read as. -/
theorem ofText_trim_eq_ok_iff {cs : List Char} {s : Statement} :
    ofText (String.ofList (Text.trim cs)) = .ok s ↔ ofText (String.ofList cs) = .ok s := by
  simp only [ofText_eq_ok_iff_spellsAll, String.toList_ofList, Token.spellsAll_trim]

/-- Texts that are split into tokens of the same kinds are read as the same statement, or neither
is read. -/
theorem ofText_eq_ok_iff_of_kinds {text text' : String} {tokens tokens' : List Token}
    (h : Token.tokenize text = .ok tokens) (h' : Token.tokenize text' = .ok tokens')
    (hkinds : tokens'.map Token.kind = tokens.map Token.kind) {s : Statement} :
    ofText text' = .ok s ↔ ofText text = .ok s := by
  simp only [ofText_eq_ok_iff, h, h', Except.ok.injEq, exists_eq_left', hkinds]

/-- The gaps between tokens do not matter. A text that is split consists of its tokens with gaps
before, between and behind them. Whatever other gaps they are given, the text that this makes is
split into tokens of the same kinds, with the same values and in the same order, and so it is read
as the same statement, or neither text is read as one. -/
theorem gaps_do_not_matter {text : String} {tokens : List Token}
    (h : Token.tokenize text = .ok tokens) :
    (∃ lead pieces, Token.AreGaps lead pieces ∧ pieces.map Prod.fst = tokens ∧
      text.toList = Token.laidOut lead pieces) ∧
    ∀ lead pieces, Token.AreGaps lead pieces → pieces.map Prod.fst = tokens →
      let text' := String.ofList (Token.laidOut lead pieces)
      (∃ tokens', Token.tokenize text' = .ok tokens' ∧
        tokens'.map Token.kind = tokens.map Token.kind) ∧
      ∀ s, ofText text' = .ok s ↔ ofText text = .ok s := by
  refine ⟨Token.exists_laidOut_of_tokensFrom h, ?_⟩
  rintro lead pieces hgaps rfl text'
  have hspelled : ∀ piece ∈ pieces, piece.1.IsSpelled := fun piece hpiece =>
    Token.spells_of_mem_tokensFrom h _ (List.mem_map_of_mem hpiece)
  have hscans : Token.Scans text'.toList (pieces.map fun piece => piece.1.kind) := by
    rw [String.toList_ofList]
    exact Token.scans_iff_spellsAll.mpr (Token.spellsAll_laidOut hspelled hgaps)
  obtain ⟨tokens', htokens', hkinds⟩ := hscans 0
  have hsame : tokens'.map Token.kind = (pieces.map Prod.fst).map Token.kind := by
    rw [hkinds, List.map_map]
    rfl
  exact ⟨⟨tokens', htokens', hsame⟩, fun s => ofText_eq_ok_iff_of_kinds h htokens' hsame⟩

/-- A declaration without any blanks but the two that set words apart. -/
private def dense : String :=
  "net=create vpc tags=[a,'b c']of=$old"

/-- The tokens of that declaration, in front of blanks of several kinds. -/
private def spread : List (Token × List Char) :=
  [(⟨.word "net", 0, "net"⟩, [' ']), (⟨.equals, 3, "="⟩, []),
    (⟨.word "create", 4, "create"⟩, ['\u2003']), (⟨.word "vpc", 11, "vpc"⟩, [' ', ' ']),
    (⟨.word "tags", 15, "tags"⟩, []), (⟨.equals, 19, "="⟩, ['\u00a0']),
    (⟨.listOpen, 20, "["⟩, []), (⟨.word "a", 21, "a"⟩, [' ']), (⟨.comma, 22, ","⟩, ['\n']),
    (⟨.quoted "b c", 23, "'b c'"⟩, [' ']), (⟨.listClose, 28, "]"⟩, [' ']),
    (⟨.word "of", 29, "of"⟩, ['\u3000']), (⟨.equals, 31, "="⟩, []),
    (⟨.reference "old", 32, "$old"⟩, ['\t'])]

/-- With the other blanks it is the same declaration, also where they are line feeds. -/
theorem gaps_do_not_matter_dense :
    Token.tokenize dense = .ok (spread.map Prod.fst) ∧ Token.AreGaps [' '] spread ∧
      ofText " net =create\u2003vpc  tags=\u00a0[a ,\n'b c' ] of\u3000=$old\t" =
        .ok ⟨some "net", .new "create" "vpc" (.ofList
          [("tags", .literal (.list [.text "a", .text "b c"])), ("of", .reference "old")])⟩ := by
  have htokens : Token.tokenize dense = .ok (spread.map Prod.fst) := by decide +kernel
  have hblank : ∀ piece ∈ spread, piece.2.all Text.isBlank = true := by decide
  have hgaps : Token.AreGaps [' '] spread :=
    ⟨List.forall_mem_singleton.mpr rfl,
      fun piece hpiece => List.all_eq_true.mp (hblank piece hpiece), by decide⟩
  have hread : ofText dense = .ok ⟨some "net", .new "create" "vpc" (.ofList
      [("tags", .literal (.list [.text "a", .text "b c"])), ("of", .reference "old")])⟩ := by
    decide +kernel
  exact ⟨htokens, hgaps, (((gaps_do_not_matter htokens).2 _ spread hgaps rfl).2 _).mpr hread⟩

/-- The reader accepts exactly the grammar. A text is read as a statement if and only if it is split
into tokens that derive the statement, and tokens derive one statement at most. Every other text is
a syntax error on the first line that shows a piece of the text. -/
theorem accepts_exactly_grammar (text : String) :
    (∀ s, ofText text = .ok s ↔
      ∃ tokens, Token.tokenize text = .ok tokens ∧
        Kind.IsStatement (tokens.map Token.kind) s) ∧
    (∀ kinds s s', Kind.IsStatement kinds s → Kind.IsStatement kinds s' → s = s') ∧
    ((¬∃ tokens s, Token.tokenize text = .ok tokens ∧
        Kind.IsStatement (tokens.map Token.kind) s) →
      ∃ e, ofText text = .error e ∧ e.line = 1 ∧ e.token.toList <:+: text.toList) := by
  refine ⟨fun s => ofText_eq_ok_iff, fun kinds s s' => isStatement_unique, fun hnone => ?_⟩
  cases hread : ofText text with
  | error e => exact ⟨e, rfl, infix_of_ofText_eq_error hread⟩
  | ok s =>
    obtain ⟨tokens, htokens, hs⟩ := ofText_eq_ok_iff.mp hread
    exact (hnone ⟨tokens, s, htokens, hs⟩).elim

/-- A text whose tokens are those of two parameters with one key derives no statement. -/
theorem accepts_exactly_grammar_counts :
    (∃ e, ofText "create vpc count=1 count=2" = .error e ∧ e.token = "count") ∧
      ¬∃ tokens s, Token.tokenize "create vpc count=1 count=2" = .ok tokens ∧
        Kind.IsStatement (tokens.map Token.kind) s := by
  have herror : ofText "create vpc count=1 count=2" = .error ⟨1, "count", .duplicateParameter⟩ := by
    decide +kernel
  obtain ⟨haccepts, -, hrefuses⟩ := accepts_exactly_grammar "create vpc count=1 count=2"
  have hnone : ¬∃ tokens s, Token.tokenize "create vpc count=1 count=2" = .ok tokens ∧
      Kind.IsStatement (tokens.map Token.kind) s := by
    rintro ⟨tokens, s, hs⟩
    have hread := (haccepts s).mpr ⟨tokens, hs⟩
    rw [herror] at hread
    cases hread
  obtain ⟨e, he, -, -⟩ := hrefuses hnone
  obtain rfl : ⟨1, "count", .duplicateParameter⟩ = e := Except.error.inj (herror.symm.trans he)
  exact ⟨⟨_, he, rfl⟩, hnone⟩

end Runbook.Statement
