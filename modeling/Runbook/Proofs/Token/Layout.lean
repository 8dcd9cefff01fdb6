import Mathlib.Data.List.Chain
import Mathlib.Data.List.Infix
import Runbook.Proofs.Token.Spelling

/-!
# The layout of tokens

A text is split into tokens exactly if it consists of their spellings with blanks between them. So
blanks at its ends do not matter. Whether a text is split or not, what is taken from it is found in
it as it was taken: each token as it is written, and the piece that an error shows.

## Main definitions

* `Token.SpellsAll`: a text consists of spellings of tokens of given kinds, and of blanks;
* `Token.laidOut`: lexemes with given texts in front of, between and behind them;
* `Token.AreGaps`: such texts are blanks, and there are some wherever two words would meet;
* `Token.IsSpelled`: the text of a token spells its kind.

## Main results

* `Token.scans_iff_spellsAll`, `Token.spellsAll_of_tokensFrom`: which texts are split;
* `Token.spellsAll_trim`: blanks at the ends of a text do not matter;
* `Token.exists_laidOut_of_tokensFrom`, `Token.spellsAll_laidOut`: a text that is split is its
  lexemes with gaps, and with any other gaps it is split into tokens of the same kinds;
* `Token.lexeme_infix_of_tokensFrom`: tokens stand in the text as they are written;
* `Token.exists_piece_of_tokensFrom_eq_error`: the piece that an error shows stands in the text
  behind a text that is split.
-/

namespace Runbook.Token

/-! ## What scans take -/

/-- A quoted text is taken from the front of the text. -/
theorem taken_scanText_isPrefix (quote : Char) (cs : List Char) :
    (scanText quote cs).taken <+: cs := by
  fun_induction scanText quote cs with
  | case1 => exact List.nil_prefix
  | case2 => exact List.prefix_rfl
  | case3 e cs c he ih => exact (List.prefix_append_right_inj ['\\', e]).mpr ih
  | case4 e cs he => exact List.prefix_append ['\\', e] cs
  | case5 => exact List.prefix_append [_] _
  | case6 c cs hslash hescape hquote ih => exact (List.prefix_append_right_inj [c]).mpr ih

/-- A reference is taken from the front of the text. -/
theorem taken_scanReference (cs : List Char) : (scanReference cs).taken = restOfWord cs := by
  rw [scanReference]
  split <;> rfl

/-- A hole is taken from the front of the text. -/
theorem taken_scanHole_isPrefix (cs : List Char) : (scanHole cs).taken <+: cs := by
  have hname := List.takeWhile_prefix (fun c => c != '}' && !Text.isBlank c) (l := cs)
  have hnext {c : Char} {rest : List Char}
      (h : cs.drop (cs.takeWhile fun c => c != '}' && !Text.isBlank c).length = c :: rest) :
      cs.takeWhile (fun c => c != '}' && !Text.isBlank c) ++ [c] <+: cs := by
    refine ⟨rest, ?_⟩
    rw [List.append_assoc, List.singleton_append, ← h]
    exact (List.prefix_append_drop hname).symm
  rw [scanHole]
  split
  next rest hrest => split <;> exact hnext hrest
  next c rest _ hrest => exact hnext hrest
  next => exact hname

@[simp]
theorem Scan.taken_bounded {α : Type} (cs : List Char) (s : Scan α) :
    (s.bounded cs).taken = s.taken := by
  rw [bounded]
  split
  · split <;> rfl
  · rfl

@[simp]
theorem Scan.taken_map {α β : Type} (f : α → β) (s : Scan α) : (s.map f).taken = s.taken := rfl

theorem restOfWord_isPrefix (cs : List Char) : restOfWord cs <+: cs :=
  List.takeWhile_prefix _

/-- The rest of a token is taken from the front of the text behind its first character. -/
theorem taken_scanKind_isPrefix (c : Char) (cs : List Char) : (scanKind c cs).taken <+: cs := by
  rw [scanKind]
  split_ifs
  · exact List.nil_prefix
  · exact List.nil_prefix
  · exact List.nil_prefix
  · exact List.nil_prefix
  · rw [Scan.taken_bounded]
    exact taken_scanText_isPrefix c cs
  · rw [Scan.taken_map, taken_scanReference]
    exact restOfWord_isPrefix cs
  · rw [Scan.taken_bounded]
    exact taken_scanHole_isPrefix cs
  · exact restOfWord_isPrefix cs

/-! ## What tokens show -/

/-- A token and what is behind it make up the text from its first character on. -/
theorem cons_taken_append_drop (c : Char) (cs : List Char) :
    c :: cs = c :: (scanKind c cs).taken ++ cs.drop (scanKind c cs).taken.length := by
  rw [List.cons_append, ← List.prefix_append_drop (taken_scanKind_isPrefix c cs)]

/-- A token stands in the text as it is written. -/
theorem lexeme_infix_of_tokensFrom {start : Nat} {cs : List Char} {tokens : List Token}
    (h : tokensFrom start cs = .ok tokens) : ∀ token ∈ tokens, token.lexeme.toList <:+: cs := by
  fun_induction tokensFrom start cs generalizing tokens with
  | case1 => cases h; exact fun _ ht => absurd ht List.not_mem_nil
  | case2 start c cs _ ih => exact fun token ht => List.infix_cons (ih h token ht)
  | case3 => cases h
  | case4 => cases h
  | case5 start c cs _ scan lexeme kind _ others hothers =>
    rename_i ih
    cases h
    have hsplit := cons_taken_append_drop c cs
    refine List.forall_mem_cons.mpr ⟨?_, fun token ht => ?_⟩
    · refine ⟨[], cs.drop scan.taken.length, ?_⟩
      rw [List.nil_append, String.toList_ofList]
      exact hsplit.symm
    · exact (ih hothers token ht).trans ⟨c :: scan.taken, [], by simpa using hsplit.symm⟩

/-! ## Where tokens end -/

/-- What is left of a text when a word is taken from its front does not go on with the word. -/
theorem endsWord_drop_restOfWord (cs : List Char) : EndsWord (cs.drop (restOfWord cs).length) := by
  have hdrop : cs.drop (restOfWord cs).length = cs.dropWhile fun c => !isDelimiter c := by
    have := @List.drop_left _ (restOfWord cs) (cs.dropWhile fun c => !isDelimiter c)
    rwa [restOfWord, List.takeWhile_append_dropWhile] at this
  rw [hdrop]
  cases hrest : cs.dropWhile fun c => !isDelimiter c with
  | nil => trivial
  | cons c rest =>
    have hhead := List.head?_dropWhile_not (fun c => !isDelimiter c) cs
    rw [hrest] at hhead
    simpa using hhead

/-- A scan that is not cut short leaves a text that ends a word. -/
theorem Scan.endsWord_of_bounded {α : Type} {cs : List Char} {s : Scan α} {value : α}
    (h : (s.bounded cs).result = .ok value) : EndsWord (cs.drop s.taken.length) := by
  rw [bounded] at h
  split at h
  next c rest _ hrest =>
    split at h
    next hc => rw [hrest]; exact hc
    next => cases h
  next hother =>
    cases hrest : cs.drop s.taken.length with
    | nil => trivial
    | cons c rest => exact (hother value c rest h hrest).elim

/-- A token that is no mark is taken up to the end of a word. -/
theorem endsWord_of_scanKind {c : Char} {cs : List Char} {kind : Kind}
    (h : (scanKind c cs).result = .ok kind) :
    kind.isMark = true ∨ EndsWord (cs.drop (scanKind c cs).taken.length) := by
  rw [scanKind] at h ⊢
  split_ifs at h ⊢
  · cases h; exact .inl rfl
  · cases h; exact .inl rfl
  · cases h; exact .inl rfl
  · cases h; exact .inl rfl
  · rw [Scan.taken_bounded]
    exact .inr (Scan.endsWord_of_bounded h)
  · rw [Scan.taken_map, taken_scanReference]
    exact .inr (endsWord_drop_restOfWord cs)
  · rw [Scan.taken_bounded]
    exact .inr (Scan.endsWord_of_bounded h)
  · exact .inr (endsWord_drop_restOfWord cs)

/-! ## What errors show -/

theorem Scan.result_of_map_eq_error {α β : Type} {f : α → β} {s : Scan α} {fault : SyntaxFault}
    (h : (s.map f).result = .error fault) : s.result = .error fault := by
  rw [Scan.map] at h
  cases hs : s.result with
  | error fault' => rw [hs] at h; cases h; rfl
  | ok value => rw [hs] at h; cases h

/-- A scan that is cut short has no fault but that. -/
theorem Scan.result_of_bounded_eq_error {α : Type} {cs : List Char} {s : Scan α}
    {fault : SyntaxFault} (h : (s.bounded cs).result = .error fault) :
    s.result = .error fault ∨ fault = .nothingEndsValue := by
  rw [Scan.bounded] at h
  split at h
  · split at h
    · exact .inl h
    · cases h; exact .inr rfl
  · exact .inl h

theorem scanText_ne_malformedReference (quote : Char) (cs : List Char) :
    (scanText quote cs).result ≠ .error .malformedReference := by
  fun_induction scanText quote cs with
  | case1 => intro h; cases h
  | case2 => intro h; cases h
  | case3 e cs c he ih => exact fun h => ih (Scan.result_of_map_eq_error h)
  | case4 => intro h; cases h
  | case5 => intro h; cases h
  | case6 c cs hslash hescape hquote ih => exact fun h => ih (Scan.result_of_map_eq_error h)

theorem scanHole_ne_malformedReference (cs : List Char) :
    (scanHole cs).result ≠ .error .malformedReference := by
  rw [scanHole]
  intro h
  split at h
  · split at h <;> cases h
  · cases h
  · cases h

/-- Only what starts with `$` is taken for a reference. -/
theorem eq_dollar_of_malformedReference {c : Char} {cs : List Char}
    (h : (scanKind c cs).result = .error .malformedReference) : c = '$' := by
  rw [scanKind] at h
  split_ifs at h with _ _ _ _ _ hdollar
  · rcases Scan.result_of_bounded_eq_error h with h | h
    · exact absurd (Scan.result_of_map_eq_error h) (scanText_ne_malformedReference c cs)
    · cases h
  · exact hdollar
  · rcases Scan.result_of_bounded_eq_error h with h | h
    · exact absurd (Scan.result_of_map_eq_error h) (scanHole_ne_malformedReference cs)
    · cases h

theorem ne_empty_of_toList_eq_cons {text : String} {c : Char} {cs : List Char}
    (h : text.toList = c :: cs) : text ≠ "" := by
  rintro rfl
  cases h

/-- What is wrong with a text that is not split is a piece of its first line, behind a text that is
split. A malformed reference starts with `$`. -/
theorem exists_piece_of_tokensFrom_eq_error {start : Nat} {cs : List Char} {e : SyntaxError}
    (h : tokensFrom start cs = .error e) :
    e.line = 1 ∧ e.token ≠ "" ∧
      (e.fault = .malformedReference → ∃ name, e.token = "$" ++ name) ∧
      ∃ front back tokens, cs = front ++ e.token.toList ++ back ∧
        tokensFrom start front = .ok tokens := by
  fun_induction tokensFrom start cs generalizing e with
  | case1 => cases h
  | case2 start c cs hblank ih =>
    obtain ⟨hline, hne, hdollar, front, back, tokens, rfl, hfront⟩ := ih h
    exact ⟨hline, hne, hdollar, c :: front, back, tokens, rfl, by
      rw [tokensFrom, if_pos hblank, hfront]⟩
  | case3 start c cs _ scan lexeme fault =>
    rename_i hfault
    cases h
    have hlexeme : lexeme.toList = c :: scan.taken := String.toList_ofList
    refine ⟨rfl, ne_empty_of_toList_eq_cons hlexeme, ?_, [], cs.drop scan.taken.length, [], ?_,
      by rw [tokensFrom]⟩
    · rintro rfl
      obtain rfl := eq_dollar_of_malformedReference hfault
      exact ⟨String.ofList scan.taken, String.toList_inj.mp (by simp [hlexeme])⟩
    · rw [List.nil_append, hlexeme]
      exact cons_taken_append_drop c cs
  | case4 start c cs hblank scan lexeme kind hkind e' he' =>
    rename_i ih
    cases h
    obtain ⟨hline, hne, hdollar, front, back, tokens, hrest, hfront⟩ := ih he'
    have hspells := spells_of_scanKind (Bool.not_eq_true _ ▸ hblank) hkind
    -- If there is nothing between the token and the piece, the token ends where its text ends.
    have hends : kind.isMark = true ∨ EndsWord front := by
      refine (endsWord_of_scanKind hkind).imp_right fun hdrop => ?_
      rw [hrest] at hdrop
      cases front with
      | nil => trivial
      | cons d front => exact hdrop
    refine ⟨hline, hne, hdollar, c :: scan.taken ++ front, back, ⟨kind, start, lexeme⟩ :: tokens,
      ?_, ?_⟩
    · rw [List.append_assoc (c :: scan.taken), List.append_assoc (c :: scan.taken), ← hrest]
      exact cons_taken_append_drop c cs
    · rw [tokensFrom_of_spells hspells hends, hfront]
      rfl
  | case5 => cases h

/-- What is wrong with a text that is not split stands in it, on the first line. -/
theorem infix_of_tokensFrom_eq_error {start : Nat} {cs : List Char} {e : SyntaxError}
    (h : tokensFrom start cs = .error e) : e.line = 1 ∧ e.token.toList <:+: cs := by
  obtain ⟨hline, -, -, front, back, -, hcs, -⟩ := exists_piece_of_tokensFrom_eq_error h
  exact ⟨hline, front, back, hcs.symm⟩

/-! ## Texts that are split -/

/-- The text consists of spellings of tokens of these kinds, and of blanks. What is no mark stands
in front of the end of a word. -/
inductive SpellsAll : List Char → List Kind → Prop
  | nil : SpellsAll [] []
  | blank {c : Char} {cs : List Char} {kinds : List Kind} :
      Text.isBlank c = true → SpellsAll cs kinds → SpellsAll (c :: cs) kinds
  | token {c : Char} {cs rest : List Char} {kind : Kind} {kinds : List Kind} :
      Spells c cs kind → kind.isMark = true ∨ EndsWord rest → SpellsAll rest kinds →
        SpellsAll (c :: cs ++ rest) (kind :: kinds)

/-- A text that is split consists of the spellings of its tokens, and of blanks. -/
theorem spellsAll_of_tokensFrom {start : Nat} {cs : List Char} {tokens : List Token}
    (h : tokensFrom start cs = .ok tokens) : SpellsAll cs (tokens.map Token.kind) := by
  fun_induction tokensFrom start cs generalizing tokens with
  | case1 => cases h; exact .nil
  | case2 start c cs hblank ih => exact .blank hblank (ih h)
  | case3 => cases h
  | case4 => cases h
  | case5 start c cs hblank scan lexeme kind hkind others hothers =>
    rename_i ih
    cases h
    rw [cons_taken_append_drop c cs, List.map_cons]
    exact .token (spells_of_scanKind (Bool.not_eq_true _ ▸ hblank) hkind)
      (endsWord_of_scanKind hkind) (ih hothers)

/-- A text is split into tokens of the kinds that it spells. -/
theorem scans_iff_spellsAll {cs : List Char} {kinds : List Kind} :
    Scans cs kinds ↔ SpellsAll cs kinds := by
  constructor
  · intro h
    obtain ⟨tokens, htokens, rfl⟩ := h 0
    exact spellsAll_of_tokensFrom htokens
  · intro h
    induction h with
    | nil => exact scans_nil
    | blank hc _ ih => exact ih.blank hc
    | token hspells hrest _ ih => exact ih.spelling hspells hrest

/-! ## Blanks at the ends -/

/-- No token ends with a blank. -/
theorem Spells.isBlank_last {c : Char} {cs : List Char} {kind : Kind} (h : Spells c cs kind)
    {b : Char} (hb : (c :: cs).getLast? = some b) : Text.isBlank b = false := by
  have hplain {name : List Char} (hname : ∀ d ∈ name, isPlain d = true) {d : Char}
      (hd : d ∈ name) : Text.isBlank d = false :=
    isBlank_of_isDelimiter (isDelimiter_of_isPlain (hname d hd))
  cases h with
  | word hw => exact isBlank_of_isDelimiter (hw.2 b (List.mem_of_getLast? hb))
  | quoted hquote hwritten =>
    rw [← List.cons_append, List.getLast?_concat] at hb
    cases hb
    rcases hquote with rfl | rfl <;> decide
  | reference hname =>
    rcases List.mem_cons.mp (List.mem_of_getLast? hb) with rfl | hmem
    · decide
    · exact hplain (Name.isPlain_of_isIdentifier hname).2 hmem
  | hole hname =>
    rw [← List.cons_append, List.getLast?_concat] at hb
    cases hb
    decide
  | _ => cases hb; decide

/-- A blank behind a text does not matter to whether a word ends at its front. -/
theorem endsWord_append_blank {rest : List Char} {b : Char} (hb : Text.isBlank b = true) :
    EndsWord (rest ++ [b]) ↔ EndsWord rest := by
  cases rest with
  | nil => simp [isDelimiter, hb]
  | cons c rest => rfl

/-- A blank behind a text does not matter. -/
theorem spellsAll_append_blank {cs : List Char} {b : Char} {kinds : List Kind}
    (hb : Text.isBlank b = true) : SpellsAll (cs ++ [b]) kinds ↔ SpellsAll cs kinds := by
  constructor
  · intro h
    generalize htext : cs ++ [b] = text at h
    induction h generalizing cs with
    | nil => simp at htext
    | @blank c rest kinds hc hrest ih =>
      cases cs with
      | nil =>
        cases htext
        exact hrest
      | cons d cs =>
        obtain ⟨rfl, hcs⟩ := List.cons.inj htext
        exact .blank hc (ih hcs)
    | @token c taken rest kind kinds hspells hends hrest ih =>
      rcases List.eq_nil_or_concat rest with rfl | ⟨front, d, rfl⟩
      · -- The last token would end with the blank.
        rw [List.append_nil] at htext
        have hlast := hspells.isBlank_last (b := b) (by rw [← htext]; simp)
        rw [hb] at hlast
        cases hlast
      · rw [List.concat_eq_append, ← List.append_assoc] at htext
        obtain ⟨rfl, hd⟩ := List.append_inj' htext rfl
        cases hd
        rw [List.concat_eq_append] at hends ih
        rw [endsWord_append_blank hb] at hends
        exact .token hspells hends (ih rfl)
  · intro h
    induction h with
    | nil => exact .blank hb .nil
    | blank hc _ ih => exact .blank hc ih
    | token hspells hends _ ih =>
      rw [List.append_assoc]
      exact .token hspells (hends.imp_right (endsWord_append_blank hb).mpr) ih

/-- Blanks at both ends of a text do not matter. -/
theorem spellsAll_append {front cs back : List Char} {kinds : List Kind}
    (hfront : ∀ c ∈ front, Text.isBlank c = true) (hback : ∀ c ∈ back, Text.isBlank c = true) :
    SpellsAll (front ++ cs ++ back) kinds ↔ SpellsAll cs kinds := by
  induction front with
  | nil =>
    rw [List.nil_append]
    induction back using List.reverseRecOn with
    | nil => rw [List.append_nil]
    | append_singleton back b ih =>
      rw [List.forall_mem_append, List.forall_mem_singleton] at hback
      rw [← List.append_assoc, spellsAll_append_blank hback.2, ih hback.1]
  | cons c front ih =>
    rw [List.forall_mem_cons] at hfront
    rw [← ih hfront.2]
    constructor
    · intro h
      generalize htext : c :: front ++ cs ++ back = text at h
      cases h with
      | nil => cases htext
      | blank _ hrest =>
        obtain ⟨-, rfl⟩ := List.cons.inj htext
        exact hrest
      | token hspells =>
        obtain ⟨rfl, -⟩ := List.cons.inj htext
        exact absurd hfront.1 (by simp [hspells.isBlank_eq_false])
    · exact .blank hfront.1

/-- Trimming a text does not change the tokens that it spells. -/
theorem spellsAll_trim {cs : List Char} {kinds : List Kind} :
    SpellsAll (Text.trim cs) kinds ↔ SpellsAll cs kinds := by
  obtain ⟨front, back, hfront, hback, hsplit⟩ := Text.exists_append_trim cs
  conv_rhs => rw [hsplit]
  exact (spellsAll_append hfront hback).symm

/-! ## Blanks between tokens -/

/-- The text of a first gap and of tokens as they are written, each in front of a gap. -/
def laidOut (lead : List Char) (pieces : List (Token × List Char)) : List Char :=
  lead ++ pieces.flatMap fun piece => piece.1.lexeme.toList ++ piece.2

/-- The gaps consist of blanks, and there may be none between two tokens only next to a mark. -/
structure AreGaps (lead : List Char) (pieces : List (Token × List Char)) : Prop where
  /-- The first gap is blank. -/
  lead : ∀ c ∈ lead, Text.isBlank c = true
  /-- The gap behind each token is blank. -/
  blank : ∀ piece ∈ pieces, ∀ c ∈ piece.2, Text.isBlank c = true
  /-- Tokens that are no marks are set apart. -/
  apart : pieces.IsChain fun piece next =>
    piece.2 ≠ [] ∨ piece.1.kind.isMark = true ∨ next.1.kind.isMark = true

/-- The text of a token spells its kind. -/
def IsSpelled (token : Token) : Prop :=
  ∃ c taken, token.lexeme.toList = c :: taken ∧ Spells c taken token.kind

/-- The tokens that start with a delimiter are the marks. -/
theorem Spells.isDelimiter_eq {c : Char} {cs : List Char} {kind : Kind} (h : Spells c cs kind) :
    isDelimiter c = kind.isMark := by
  cases h with
  | word hw => exact hw.2 c List.mem_cons_self
  | quoted hquote _ => rcases hquote with rfl | rfl <;> rfl
  | _ => rfl

/-- Behind a gap a word ends if there is a blank in the gap or it ends anyway. -/
theorem endsWord_blanks_append {gap : List Char} (hgap : ∀ c ∈ gap, Text.isBlank c = true)
    {rest : List Char} : EndsWord (gap ++ rest) ↔ gap ≠ [] ∨ EndsWord rest := by
  cases gap with
  | nil => simp
  | cons c gap => simp [isDelimiter, hgap c List.mem_cons_self]

/-- Blanks in front of a text do not matter. -/
theorem SpellsAll.blanks {gap : List Char} (hgap : ∀ c ∈ gap, Text.isBlank c = true)
    {cs : List Char} {kinds : List Kind} (h : SpellsAll cs kinds) :
    SpellsAll (gap ++ cs) kinds := by
  induction gap with
  | nil => exact h
  | cons c gap ih =>
    rw [List.forall_mem_cons] at hgap
    exact .blank hgap.1 (ih hgap.2)

section Laid

variable {pieces : List (Token × List Char)} (hspelled : ∀ piece ∈ pieces, piece.1.IsSpelled)

include hspelled

/-- Behind a token a word ends at a gap or at a mark. -/
theorem endsWord_laidOut_iff {gap : List Char} (hgap : ∀ c ∈ gap, Text.isBlank c = true) :
    EndsWord (laidOut gap pieces) ↔
      gap ≠ [] ∨ ∀ next ∈ pieces.head?, next.1.kind.isMark = true := by
  rw [laidOut, endsWord_blanks_append hgap]
  refine or_congr_right ?_
  cases pieces with
  | nil => simp
  | cons next others =>
    obtain ⟨c, taken, hlexeme, hspells⟩ := hspelled next List.mem_cons_self
    simp [hlexeme, hspells.isDelimiter_eq]

/-- A text in which tokens stand apart as gaps set them spells these tokens. -/
theorem spellsAll_laidOut {lead : List Char} (h : AreGaps lead pieces) :
    SpellsAll (laidOut lead pieces) (pieces.map fun piece => piece.1.kind) := by
  induction pieces generalizing lead with
  | nil => exact SpellsAll.nil.blanks h.lead
  | cons piece others ih =>
    rw [List.forall_mem_cons] at hspelled
    obtain ⟨⟨c, taken, hlexeme, hspells⟩, hothers⟩ := hspelled
    obtain ⟨hgap, hblank⟩ := List.forall_mem_cons.mp h.blank
    obtain ⟨hapart, hchain⟩ := List.isChain_cons.mp h.apart
    -- Behind this token the gap of the token is the first one.
    have hrest : SpellsAll (laidOut piece.2 others) _ := ih hothers ⟨hgap, hblank, hchain⟩
    have hends : piece.1.kind.isMark = true ∨ EndsWord (laidOut piece.2 others) := by
      rw [endsWord_laidOut_iff hothers hgap]
      by_cases hmark : piece.1.kind.isMark = true
      · exact .inl hmark
      · by_cases hempty : piece.2 = []
        · exact .inr (.inr fun next hnext =>
            ((hapart next hnext).resolve_left (not_not.mpr hempty)).resolve_left hmark)
        · exact .inr (.inl hempty)
    have hall := SpellsAll.token hspells hends hrest
    rw [← hlexeme, laidOut, ← List.append_assoc] at hall
    rw [laidOut, List.flatMap_cons]
    exact hall.blanks h.lead

end Laid

/-- A text that is split consists of its tokens with gaps between them. -/
theorem exists_laidOut_of_tokensFrom {start : Nat} {cs : List Char} {tokens : List Token}
    (h : tokensFrom start cs = .ok tokens) :
    ∃ lead pieces, AreGaps lead pieces ∧ pieces.map Prod.fst = tokens ∧
      cs = laidOut lead pieces := by
  fun_induction tokensFrom start cs generalizing tokens with
  | case1 =>
    cases h
    exact ⟨[], [], ⟨by simp, by simp, .nil⟩, rfl, rfl⟩
  | case2 start c cs hblank ih =>
    obtain ⟨lead, pieces, hgaps, htokens, rfl⟩ := ih h
    exact ⟨c :: lead, pieces, ⟨List.forall_mem_cons.mpr ⟨hblank, hgaps.lead⟩, hgaps.blank,
      hgaps.apart⟩, htokens, rfl⟩
  | case3 => cases h
  | case4 => cases h
  | case5 start c cs hblank scan lexeme kind hkind others hothers =>
    rename_i ih
    cases h
    obtain ⟨gap, pieces, hgaps, htokens, hrest⟩ := ih hothers
    have hends := endsWord_of_scanKind hkind
    have hspelled : ∀ piece ∈ pieces, piece.1.IsSpelled := fun piece hpiece =>
      spells_of_mem_tokensFrom hothers _ (htokens ▸ List.mem_map_of_mem hpiece)
    refine ⟨[], (⟨kind, start, lexeme⟩, gap) :: pieces, ⟨by simp, ?_, ?_⟩,
      by rw [List.map_cons, htokens], ?_⟩
    · exact List.forall_mem_cons.mpr ⟨hgaps.lead, hgaps.blank⟩
    · refine List.isChain_cons.mpr ⟨fun next hnext => ?_, hgaps.apart⟩
      rcases hends with hmark | hends
      · exact .inr (.inl hmark)
      · rw [hrest, endsWord_laidOut_iff hspelled hgaps.lead] at hends
        exact hends.imp_right fun hmarks => .inr (hmarks next hnext)
    · rw [cons_taken_append_drop c cs, hrest]
      simp [laidOut, lexeme, scan]

end Runbook.Token
