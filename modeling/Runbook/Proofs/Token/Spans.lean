import Mathlib.Data.String.Basic
import Runbook.Proofs.Token.Layout

/-!
# The spans of tokens

The tokens of a text stand in it one behind the other, each from a byte where a character starts up
to a byte where a character ends, and all that is outside of them is blank. Where a text is not
split, the piece that the error shows stands in it behind a text that is split.

## Main definitions

* `Token.IsSlice`: a piece stands in a text from one byte up to another;
* `Token.Tiles`: tokens tile a text, with blanks between them;
* `Token.Partition`: the spans of tokens partition a text.

## Main results

* `Token.isSlice_iff`: a slice is a part of the text, and its bytes are counted from the front;
* `Token.tiles_of_tokensFrom`: tokens tile the text that they are split from;
* `Token.Tiles.partition`: the spans of tokens that tile a text partition it;
* `Token.spans_partition`: the spans of the tokens of a text partition it, and an error shows a
  slice of the text.
-/

namespace Runbook.Token

/-! ## Slices -/

/-- The piece stands in the text from one byte up to another, and both are boundaries of characters
in the text. -/
structure IsSlice (text : String) (start stop : Nat) (piece : String) : Prop where
  /-- The bytes are in order. -/
  le : start ≤ stop
  /-- The first byte is a boundary of a character, or the end of the text. -/
  isValid_start : String.Pos.Raw.IsValid text ⟨start⟩
  /-- The last byte is a boundary of a character, or the end of the text. -/
  isValid_stop : String.Pos.Raw.IsValid text ⟨stop⟩
  /-- What stands between them is the piece. -/
  extract : String.Pos.Raw.extract text ⟨start⟩ ⟨stop⟩ = piece

/-- A part of a text stands behind the bytes before it. -/
theorem isSlice_append (before piece after : String) :
    IsSlice (before ++ piece ++ after) before.utf8ByteSize
      (before.utf8ByteSize + piece.utf8ByteSize) piece where
  le := Nat.le_add_right _ _
  isValid_start := String.Pos.Raw.isValid_iff_exists_append.mpr
    ⟨before, piece ++ after, String.append_assoc, rfl⟩
  isValid_stop := String.Pos.Raw.isValid_iff_exists_append.mpr
    ⟨before ++ piece, after, rfl, by
      rw [String.Pos.Raw.ext_iff, String.byteIdx_rawEndPos, String.utf8ByteSize_append]⟩
  extract := by
    have h := String.extract_of_valid before.toList piece.toList after.toList
    simpa only [String.ofList_append, String.ofList_toList, ← String.utf8ByteSize_ofList] using h

/-- Of two parts at the front of a text, the one with fewer bytes is at the front of the other. -/
theorem exists_append_of_utf8ByteSize_le {front rest front' rest' : List Char}
    (h : front ++ rest = front' ++ rest')
    (hle : (String.ofList front).utf8ByteSize ≤ (String.ofList front').utf8ByteSize) :
    ∃ middle, front' = front ++ middle ∧ rest = middle ++ rest' := by
  rcases List.append_eq_append_iff.mp h with hsplit | ⟨middle, rfl, rfl⟩
  · exact hsplit
  · have hempty : middle = [] := by
      rw [String.ofList_append, String.utf8ByteSize_append] at hle
      exact String.ofList_eq_empty_iff.mp (String.utf8ByteSize_eq_zero_iff.mp (by omega))
    exact ⟨[], by simp [hempty], by simp [hempty]⟩

/-- A slice is a part of the text, and its bytes are counted from the front of the text. -/
theorem isSlice_iff {text : String} {start stop : Nat} {piece : String} :
    IsSlice text start stop piece ↔ ∃ before after, text = before ++ piece ++ after ∧
      start = before.utf8ByteSize ∧ stop = before.utf8ByteSize + piece.utf8ByteSize := by
  constructor
  · intro h
    obtain ⟨before, behind, htext, hstart⟩ :=
      String.Pos.Raw.isValid_iff_exists_append.mp h.isValid_start
    obtain ⟨front, after, htext', hstop⟩ :=
      String.Pos.Raw.isValid_iff_exists_append.mp h.isValid_stop
    obtain rfl : start = before.utf8ByteSize := congrArg String.Pos.Raw.byteIdx hstart
    obtain rfl : stop = front.utf8ByteSize := congrArg String.Pos.Raw.byteIdx hstop
    obtain ⟨middle, rfl⟩ : ∃ middle, front = before ++ middle := by
      have hlists : before.toList ++ behind.toList = front.toList ++ after.toList := by
        rw [← String.toList_append, ← String.toList_append, ← htext, htext']
      obtain ⟨middle, hfront, -⟩ := exists_append_of_utf8ByteSize_le hlists
        (by simpa only [String.ofList_toList] using h.le)
      exact ⟨String.ofList middle, String.toList_inj.mp (by simp [hfront])⟩
    have hpiece : piece = middle := by
      have hextract := (isSlice_append before middle after).extract
      rw [← h.extract, htext', String.utf8ByteSize_append, hextract]
    exact ⟨before, after, by rw [htext', hpiece], rfl, by rw [String.utf8ByteSize_append, hpiece]⟩
  · rintro ⟨before, after, rfl, rfl, rfl⟩
    exact isSlice_append before piece after

/-- What is left of a slice behind its first part is a slice. -/
theorem IsSlice.behind {text : String} {start stop : Nat} {front piece : String}
    (h : IsSlice text start stop (front ++ piece)) :
    IsSlice text (start + front.utf8ByteSize) stop piece := by
  obtain ⟨before, after, rfl, rfl, rfl⟩ := isSlice_iff.mp h
  refine isSlice_iff.mpr ⟨before ++ front, after, ?_, ?_, ?_⟩
  · rw [String.append_assoc, String.append_assoc, String.append_assoc, String.append_assoc]
  · rw [String.utf8ByteSize_append]
  · rw [String.utf8ByteSize_append, String.utf8ByteSize_append, Nat.add_assoc]

/-! ## Tilings -/

/-- The tokens tile a text in front of which a number of bytes stand. Each is written as its kind
may be and starts where the one before it and the blanks behind that end. -/
inductive Tiles : Nat → List Char → List Token → Prop
  | nil {start : Nat} : Tiles start [] []
  | blank {start : Nat} {c : Char} {cs : List Char} {tokens : List Token} :
      Text.isBlank c = true → Tiles (start + c.utf8Size) cs tokens → Tiles start (c :: cs) tokens
  | token {token : Token} {cs : List Char} {tokens : List Token} :
      token.IsSpelled → Tiles token.stop cs tokens →
        Tiles token.start (token.lexeme.toList ++ cs) (token :: tokens)

/-- Tokens tile the text that they are split from. -/
theorem tiles_of_tokensFrom {start : Nat} {cs : List Char} {tokens : List Token}
    (h : tokensFrom start cs = .ok tokens) : Tiles start cs tokens := by
  fun_induction tokensFrom start cs generalizing tokens with
  | case1 => cases h; exact .nil
  | case2 start c cs hblank ih => exact .blank hblank (ih h)
  | case3 => cases h
  | case4 => cases h
  | case5 start c cs hblank scan lexeme kind hkind others hothers =>
    rename_i ih
    cases h
    have hlexeme : lexeme.toList = c :: scan.taken := String.toList_ofList
    have hspelled : IsSpelled ⟨kind, start, lexeme⟩ :=
      ⟨c, scan.taken, hlexeme, spells_of_scanKind (Bool.not_eq_true _ ▸ hblank) hkind⟩
    have htiles := Tiles.token hspelled (ih hothers)
    rwa [hlexeme, ← cons_taken_append_drop c cs] at htiles

/-- A token takes at least one byte. -/
theorem IsSpelled.start_lt_stop {token : Token} (h : token.IsSpelled) :
    token.start < token.stop := by
  obtain ⟨c, taken, hlexeme, -⟩ := h
  have hpos : token.lexeme.utf8ByteSize ≠ 0 :=
    mt String.utf8ByteSize_eq_zero_iff.mp (ne_empty_of_toList_eq_cons hlexeme)
  rw [stop]
  omega

section Tiles

variable {start : Nat} {cs : List Char} {tokens : List Token}

/-- The tokens that tile a text are spelled as their kinds may be. -/
theorem Tiles.isSpelled (h : Tiles start cs tokens) : ∀ token ∈ tokens, token.IsSpelled := by
  induction h with
  | nil => exact fun _ ht => absurd ht List.not_mem_nil
  | blank _ _ ih => exact ih
  | token hspelled _ ih => exact List.forall_mem_cons.mpr ⟨hspelled, ih⟩

/-- No token starts before the text that it tiles. -/
theorem Tiles.le_start (h : Tiles start cs tokens) : ∀ token ∈ tokens, start ≤ token.start := by
  induction h with
  | nil => exact fun _ ht => absurd ht List.not_mem_nil
  | blank _ _ ih => exact fun token ht => le_trans (Nat.le_add_right _ _) (ih token ht)
  | token hspelled _ ih =>
    exact List.forall_mem_cons.mpr
      ⟨le_rfl, fun later ht => le_trans hspelled.start_lt_stop.le (ih later ht)⟩

/-- Every token ends before the later ones start. -/
theorem Tiles.pairwise (h : Tiles start cs tokens) :
    tokens.Pairwise fun token later => token.stop ≤ later.start := by
  induction h with
  | nil => exact .nil
  | blank _ _ ih => exact ih
  | token _ hrest ih => exact List.pairwise_cons.mpr ⟨hrest.le_start, ih⟩

/-- Every token stands in the text as it is written. -/
theorem Tiles.isSlice (h : Tiles start cs tokens) (before : String)
    (hstart : start = before.utf8ByteSize) :
    ∀ token ∈ tokens,
      IsSlice (before ++ String.ofList cs) token.start token.stop token.lexeme := by
  induction h generalizing before with
  | nil => exact fun _ ht => absurd ht List.not_mem_nil
  | @blank start c cs tokens _ _ ih =>
    have hsplit : before ++ String.ofList (c :: cs) =
        before ++ String.singleton c ++ String.ofList cs := by
      rw [String.append_assoc, String.singleton_eq_ofList, ← String.ofList_append]
      rfl
    rw [hsplit]
    exact ih _ (by rw [hstart, String.utf8ByteSize_append, String.utf8ByteSize_singleton])
  | @token token cs tokens _ _ ih =>
    have hsplit : before ++ String.ofList (token.lexeme.toList ++ cs) =
        before ++ token.lexeme ++ String.ofList cs := by
      rw [String.ofList_append, String.ofList_toList, String.append_assoc]
    have hstop : token.stop = before.utf8ByteSize + token.lexeme.utf8ByteSize := by
      rw [stop, hstart]
    rw [hsplit]
    refine List.forall_mem_cons.mpr ⟨?_, ih _ (hstop.trans (String.utf8ByteSize_append ..).symm)⟩
    rw [hstop, hstart]
    exact isSlice_append before token.lexeme (String.ofList cs)

/-- What no token covers is blank. -/
theorem Tiles.isBlank (h : Tiles start cs tokens) {front back : List Char} {c : Char}
    (hcs : cs = front ++ c :: back)
    (houtside : ∀ token ∈ tokens, start + (String.ofList front).utf8ByteSize < token.start ∨
      token.stop ≤ start + (String.ofList front).utf8ByteSize) :
    Text.isBlank c = true := by
  induction h generalizing front with
  | nil => simp at hcs
  | @blank start d cs tokens hd _ ih =>
    cases front with
    | nil =>
      obtain ⟨rfl, -⟩ := List.cons.inj hcs
      exact hd
    | cons b front =>
      obtain ⟨rfl, hrest⟩ := List.cons.inj hcs
      have hsize : (String.ofList (d :: front)).utf8ByteSize =
          d.utf8Size + (String.ofList front).utf8ByteSize := by
        rw [← List.singleton_append, String.ofList_append, String.utf8ByteSize_append,
          ← String.singleton_eq_ofList, String.utf8ByteSize_singleton]
      rw [hsize, ← Nat.add_assoc] at houtside
      exact ih hrest houtside
  | @token token cs tokens _ _ ih =>
    obtain ⟨hhead, htail⟩ := List.forall_mem_cons.mp houtside
    -- The token covers all that is in front of its end, so `c` stands behind it.
    have hle : token.lexeme.utf8ByteSize ≤ (String.ofList front).utf8ByteSize := by
      rw [stop] at hhead
      omega
    obtain ⟨middle, rfl, hrest⟩ := exists_append_of_utf8ByteSize_le hcs (by simpa using hle)
    rw [String.ofList_append, String.ofList_toList, String.utf8ByteSize_append,
      ← Nat.add_assoc] at htail
    exact ih hrest htail

end Tiles

/-! ## Partitions -/

/-- The text of a token determines its kind. -/
theorem IsSpelled.tokenize_lexeme {token : Token} (h : token.IsSpelled) :
    tokenize token.lexeme = .ok [{ token with start := 0 }] := by
  obtain ⟨c, taken, hlexeme, hspells⟩ := h
  have hone := tokensFrom_of_spells hspells (.inr endsWord_nil) 0
  rw [List.append_nil, ← hlexeme, String.ofList_toList] at hone
  rw [tokenize, hone, tokensFrom]
  rfl

/-- A reference is written as `$` and its name. -/
theorem IsSpelled.lexeme_of_reference {token : Token} (h : token.IsSpelled) {name : String}
    (hkind : token.kind = .reference name) : token.lexeme = "$" ++ name := by
  obtain ⟨c, taken, hlexeme, hspells⟩ := h
  rw [hkind] at hspells
  cases hspells with
  | reference => exact String.toList_inj.mp (by simp [hlexeme])

/-- The spans of the tokens partition the text: they stand in it apart and in order, and all that is
outside of them is blank. -/
structure Partition (text : String) (tokens : List Token) : Prop where
  /-- The span of each token is written as the token is. -/
  slice : ∀ token ∈ tokens, IsSlice text token.start token.stop token.lexeme
  /-- No span is empty. -/
  nonempty : ∀ token ∈ tokens, token.start < token.stop
  /-- Every span ends before the later ones start. -/
  ordered : tokens.Pairwise fun token later => token.stop ≤ later.start
  /-- A character that stands in no span is blank. -/
  blank : ∀ position c, IsSlice text position (position + c.utf8Size) (String.singleton c) →
    (∀ token ∈ tokens, position < token.start ∨ token.stop ≤ position) → Text.isBlank c = true

/-- The spans of tokens that tile a text partition it. -/
theorem Tiles.partition {text : String} {tokens : List Token} (h : Tiles 0 text.toList tokens) :
    Partition text tokens where
  slice := by
    have hslice := h.isSlice "" rfl
    rwa [String.empty_append, String.ofList_toList] at hslice
  nonempty token htoken := (h.isSpelled token htoken).start_lt_stop
  ordered := h.pairwise
  blank position c hslice houtside := by
    obtain ⟨before, after, htext, rfl, -⟩ := isSlice_iff.mp hslice
    have hcs : text.toList = before.toList ++ c :: after.toList := by simp [htext]
    exact h.isBlank hcs (by simpa using houtside)

/-! ## Texts and errors -/

/-- The spans of the tokens of a text partition it, and the text of each span determines its token.
Where a text is not split, the piece that the error shows is a slice of it, behind a text that is
split, and the name in a malformed reference is a slice as well. -/
theorem spans_partition (text : String) :
    (∀ tokens, tokenize text = .ok tokens →
      Partition text tokens ∧
        ∀ token ∈ tokens, token.IsSpelled ∧
          tokenize token.lexeme = .ok [{ token with start := 0 }] ∧
          ∀ name, token.kind = .reference name → IsSlice text (token.start + 1) token.stop name) ∧
    ∀ e, tokenize text = .error e →
      e.line = 1 ∧ ∃ start stop, start < stop ∧ IsSlice text start stop e.token ∧
        (e.fault = .malformedReference →
          ∃ name, e.token = "$" ++ name ∧ IsSlice text (start + 1) stop name) ∧
        ∃ before tokens, IsSlice text 0 start before ∧ tokenize before = .ok tokens := by
  constructor
  · intro tokens htokens
    have htiles : Tiles 0 text.toList tokens := tiles_of_tokensFrom htokens
    refine ⟨htiles.partition, fun token htoken => ?_⟩
    have hspelled := htiles.isSpelled token htoken
    refine ⟨hspelled, hspelled.tokenize_lexeme, fun name hkind => ?_⟩
    have hslice := htiles.partition.slice token htoken
    rw [hspelled.lexeme_of_reference hkind] at hslice
    exact hslice.behind
  · intro e he
    obtain ⟨hline, hne, hdollar, front, back, tokens, htext, hfront⟩ :=
      exists_piece_of_tokensFrom_eq_error he
    let before := String.ofList front
    have hsplit : text = before ++ e.token ++ String.ofList back :=
      String.toList_inj.mp (by simp [before, htext])
    have hslice : IsSlice text before.utf8ByteSize (before.utf8ByteSize + e.token.utf8ByteSize)
        e.token := isSlice_iff.mpr ⟨before, String.ofList back, hsplit, rfl, rfl⟩
    have hpos : e.token.utf8ByteSize ≠ 0 := mt String.utf8ByteSize_eq_zero_iff.mp hne
    refine ⟨hline, before.utf8ByteSize, _, by omega, hslice, ?_, before, tokens, ?_, ?_⟩
    · intro hfault
      obtain ⟨name, hname⟩ := hdollar hfault
      rw [hname] at hslice ⊢
      exact ⟨name, rfl, hslice.behind⟩
    · refine isSlice_iff.mpr ⟨"", e.token ++ String.ofList back, ?_, rfl, ?_⟩
      · rw [hsplit, String.empty_append, String.append_assoc]
      · simp
    · rw [tokenize, String.toList_ofList]
      exact hfront

private def accentedText : String :=
  "größe=\"ü\\\"\" nach=$ziel"

private def accentedTokens : List Token :=
  [⟨.word "größe", 0, "größe"⟩, ⟨.equals, 7, "="⟩, ⟨.quoted "ü\"", 8, "\"ü\\\"\""⟩,
    ⟨.word "nach", 15, "nach"⟩, ⟨.equals, 19, "="⟩, ⟨.reference "ziel", 20, "$ziel"⟩]

/-- Spans count bytes where characters take two of them, in a text that is split and in one that
ends with a malformed reference. -/
theorem spans_partition_accented :
    (tokenize accentedText = .ok accentedTokens ∧ Partition accentedText accentedTokens ∧
      IsSlice accentedText 21 25 "ziel") ∧
    (tokenize "größe=$9" = .error ⟨1, "$9", .malformedReference⟩ ∧
      ∃ start stop, IsSlice "größe=$9" start stop "$9" ∧
        IsSlice "größe=$9" (start + 1) stop "9") := by
  have htokens : tokenize accentedText = .ok accentedTokens := by decide +kernel
  have herror : tokenize "größe=$9" = .error ⟨1, "$9", .malformedReference⟩ := by decide +kernel
  obtain ⟨hpartition, htoken⟩ := (spans_partition accentedText).1 _ htokens
  have hname := (htoken ⟨.reference "ziel", 20, "$ziel"⟩ (by decide)).2.2 "ziel" rfl
  obtain ⟨-, start, stop, -, hslice, hreference, -⟩ := (spans_partition "größe=$9").2 _ herror
  obtain ⟨name, hsplit, hbehind⟩ := hreference rfl
  obtain rfl : "9" = name := (String.append_right_inj "$").mp hsplit
  exact ⟨⟨htokens, hpartition, hname⟩, herror, start, stop, hslice, hbehind⟩

end Runbook.Token
