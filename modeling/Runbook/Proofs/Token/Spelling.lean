import Runbook.Proofs.Name
import Runbook.Token.Scan

/-!
# The spelling of tokens

Each kind of token has its spellings. A spelling that stands where a word may end is split off
the text that starts with it, whatever follows.

## Main definitions

* `Token.Spells`: how a token of a kind may be written;
* `Token.EndsWord`: the texts in front of which a word, a reference, a hole or a quoted text ends;
* `Token.Scans`: the kinds of the tokens that a text is split into.

## Main results

* `Token.scanKind_of_spells`: the scan of a spelling gives its kind and consumes it;
* `Token.tokensFrom_of_spells`: a spelling gives one token in front of those of the rest;
* `Token.Scans.spelling`: the same for the kinds of the tokens;
* `Token.spells_of_mem_tokensFrom`: every token of a text is one of the spellings of its kind.
-/

namespace Runbook.Token

/-- The text does not go on with a character of a word. -/
def EndsWord : List Char → Prop
  | [] => True
  | c :: _ => isDelimiter c = true

@[simp]
theorem endsWord_nil : EndsWord [] := trivial

@[simp]
theorem endsWord_cons {c : Char} {cs : List Char} : EndsWord (c :: cs) ↔ isDelimiter c = true :=
  Iff.rfl

/-- A text without delimiters whose first character does not start a token of another kind. -/
def IsWord : List Char → Prop
  | [] => False
  | c :: cs => c ∉ ['"', '\'', '$', '{'] ∧ ∀ d ∈ c :: cs, isDelimiter d = false

/-- How a text is written between quotes. -/
inductive Quotes (quote : Char) : List Char → List Char → Prop
  | nil : Quotes quote [] []
  | escaped {e c : Char} {written text : List Char} :
      unescape? e = some c → Quotes quote written text →
        Quotes quote ('\\' :: e :: written) (c :: text)
  | plain {c : Char} {written text : List Char} :
      c ≠ '\\' → c ≠ quote → Quotes quote written text → Quotes quote (c :: written) (c :: text)

/-- The tokens that end by themselves, whatever follows. -/
def Kind.isMark : Kind → Bool
  | .equals | .comma | .listOpen | .listClose => true
  | .word _ | .quoted _ | .reference _ | .hole _ => false

/-- How a token of a kind may be written: its first character, and the other ones. -/
inductive Spells : Char → List Char → Kind → Prop
  | equals : Spells '=' [] .equals
  | comma : Spells ',' [] .comma
  | listOpen : Spells '[' [] .listOpen
  | listClose : Spells ']' [] .listClose
  | word {c : Char} {cs : List Char} :
      IsWord (c :: cs) → Spells c cs (.word (String.ofList (c :: cs)))
  | quoted {quote : Char} {written text : List Char} :
      quote = '"' ∨ quote = '\'' → Quotes quote written text →
        Spells quote (written ++ [quote]) (.quoted (String.ofList text))
  | reference {name : List Char} :
      Name.isIdentifier name = true → Spells '$' name (.reference (String.ofList name))
  | hole {name : List Char} :
      Name.isKey name = true → Spells '{' (name ++ ['}']) (.hole (String.ofList name))

/-- No token starts with a blank. -/
theorem Spells.isBlank_eq_false {c : Char} {cs : List Char} {kind : Kind} (h : Spells c cs kind) :
    Text.isBlank c = false := by
  cases h with
  | word hw => exact isBlank_of_isDelimiter (hw.2 c (by simp))
  | quoted hq _ => rcases hq with rfl | rfl <;> decide
  | _ => decide

/-! ## Scans -/

/-- The rest of a word ends where the text ends a word. -/
theorem restOfWord_append {w rest : List Char} (hw : ∀ c ∈ w, isDelimiter c = false)
    (hrest : EndsWord rest) : restOfWord (w ++ rest) = w := by
  rw [restOfWord, List.takeWhile_append_of_pos (by simpa using hw)]
  cases rest with
  | nil => simp
  | cons c cs =>
    have hc : isDelimiter c = true := hrest
    simp [hc]

/-- A quoted text is read up to its closing quote. -/
theorem scanText_of_quotes {quote : Char} (hquote : quote ≠ '\\') {written text : List Char}
    (h : Quotes quote written text) (rest : List Char) :
    scanText quote (written ++ quote :: rest) = ⟨written ++ [quote], .ok text⟩ := by
  induction h with
  | nil =>
    -- The closing quote is a character like the others to the scan, so the equation of `scanText`
    -- is split by hand: only its last case can be the one taken.
    rw [List.nil_append, scanText.eq_def]
    split
    next heq => cases heq
    next heq => exact absurd (List.cons.inj heq).1 hquote
    next heq => exact absurd (List.cons.inj heq).1 hquote
    next heq =>
      obtain ⟨rfl, rfl⟩ := List.cons.inj heq
      simp
  | escaped he _ ih =>
    simp only [List.cons_append, scanText, he, ih]
    rfl
  | plain hslash hne _ ih =>
    rw [List.cons_append, scanText.eq_def]
    split
    next heq => cases heq
    next heq => exact absurd (List.cons.inj heq).1 hslash
    next heq => exact absurd (List.cons.inj heq).1 hslash
    next heq =>
      obtain ⟨rfl, rfl⟩ := List.cons.inj heq
      rw [if_neg hne, ih]
      rfl

/-- A hole is read up to its closing brace. -/
theorem scanHole_append {name : List Char} (h : Name.isKey name = true) (rest : List Char) :
    scanHole (name ++ '}' :: rest) = ⟨name ++ ['}'], .ok (String.ofList name)⟩ := by
  have hname : ∀ c ∈ name, (c != '}' && !Text.isBlank c) = true := by
    intro c hc
    have hplain := (Name.isPlain_of_isKey h).2 c hc
    have hblank := isBlank_of_isDelimiter (isDelimiter_of_isPlain hplain)
    simp only [isPlain, Bool.and_eq_true] at hplain
    simp [hplain.2, hblank]
  have htake : (name ++ '}' :: rest).takeWhile (fun c => c != '}' && !Text.isBlank c) = name := by
    rw [List.takeWhile_append_of_pos hname]
    simp
  rw [scanHole]
  simp only [htake, List.drop_left, h, if_true]

/-- A scan that leaves a text that ends a word is not cut short. -/
theorem Scan.bounded_append {α : Type} (taken rest : List Char) (value : α)
    (hrest : EndsWord rest) :
    (Scan.mk taken (.ok value)).bounded (taken ++ rest) = ⟨taken, .ok value⟩ := by
  rw [Scan.bounded]
  simp only [List.drop_left]
  cases rest with
  | nil => rfl
  | cons c cs =>
    have hc : isDelimiter c = true := hrest
    simp [hc]

private theorem ne_marks_of_isDelimiter {c : Char} (h : isDelimiter c = false) :
    c ≠ '=' ∧ c ≠ ',' ∧ c ≠ '[' ∧ c ≠ ']' := by
  refine ⟨?_, ?_, ?_, ?_⟩ <;>
  · rintro rfl
    exact absurd h (by decide)

/-- The scan of a spelling gives its kind and consumes it. -/
theorem scanKind_of_spells {c : Char} {cs rest : List Char} {kind : Kind} (h : Spells c cs kind)
    (hrest : kind.isMark = true ∨ EndsWord rest) :
    scanKind c (cs ++ rest) = ⟨cs, .ok kind⟩ := by
  cases h with
  | equals => rfl
  | comma => rfl
  | listOpen => rfl
  | listClose => rfl
  -- Only a mark may stand in front of anything; the other kinds need the rest to end a word.
  | word hw =>
    have hends : EndsWord rest := hrest.resolve_left (by simp [Kind.isMark])
    -- `scanKind` decides on the first character, so each of its tests is refuted in turn.
    obtain ⟨heq, hcomma, hopen, hclose⟩ := ne_marks_of_isDelimiter (hw.2 c (by simp))
    have hsigil := hw.1
    simp only [List.mem_cons, List.not_mem_nil, or_false, not_or] at hsigil
    obtain ⟨hdouble, hsingle, hdollar, hbrace⟩ := hsigil
    have hword : restOfWord (cs ++ rest) = cs :=
      restOfWord_append (fun d hd => hw.2 d (List.mem_cons_of_mem c hd)) hends
    rw [scanKind, if_neg heq, if_neg hcomma, if_neg hopen, if_neg hclose,
      if_neg (not_or.mpr ⟨hdouble, hsingle⟩), if_neg hdollar, if_neg hbrace, hword]
  | quoted hquote hwritten =>
    have hends : EndsWord rest := hrest.resolve_left (by simp [Kind.isMark])
    have hslash : c ≠ '\\' := by rcases hquote with rfl | rfl <;> decide
    have hmarks : c ≠ '=' ∧ c ≠ ',' ∧ c ≠ '[' ∧ c ≠ ']' := by
      rcases hquote with rfl | rfl <;> decide
    rw [scanKind, if_neg hmarks.1, if_neg hmarks.2.1, if_neg hmarks.2.2.1, if_neg hmarks.2.2.2,
      if_pos hquote, List.append_assoc, List.singleton_append, scanText_of_quotes hslash hwritten]
    rw [show ∀ written rest : List Char, written ++ c :: rest = (written ++ [c]) ++ rest by simp]
    exact Scan.bounded_append _ rest _ hends
  | reference hname =>
    have hends : EndsWord rest := hrest.resolve_left (by simp [Kind.isMark])
    have hword : restOfWord (cs ++ rest) = cs :=
      restOfWord_append
        (fun d hd => isDelimiter_of_isPlain ((Name.isPlain_of_isIdentifier hname).2 d hd)) hends
    have hscan : scanReference (cs ++ rest) = ⟨cs, .ok (String.ofList cs)⟩ := by
      rw [scanReference]
      simp only [hword, hname, if_true]
    have hkind : scanKind '$' (cs ++ rest) = (scanReference (cs ++ rest)).map .reference := rfl
    rw [hkind, hscan]
    rfl
  | @hole name hname =>
    have hends : EndsWord rest := hrest.resolve_left (by simp [Kind.isMark])
    have hkind : scanKind '{' (name ++ ['}'] ++ rest) =
        ((scanHole (name ++ ['}'] ++ rest)).map .hole).bounded (name ++ ['}'] ++ rest) := rfl
    have hscan : scanHole (name ++ ['}'] ++ rest) = ⟨name ++ ['}'], .ok (String.ofList name)⟩ := by
      rw [List.append_assoc, List.singleton_append]
      exact scanHole_append hname rest
    rw [hkind, hscan]
    exact Scan.bounded_append _ rest _ hends

/-- A spelling gives one token in front of those of the rest. -/
theorem tokensFrom_of_spells {c : Char} {cs rest : List Char} {kind : Kind} (h : Spells c cs kind)
    (hrest : kind.isMark = true ∨ EndsWord rest) (start : Nat) :
    tokensFrom start (c :: cs ++ rest) =
      (tokensFrom (start + (String.ofList (c :: cs)).utf8ByteSize) rest).map
        (⟨kind, start, String.ofList (c :: cs)⟩ :: ·) := by
  rw [List.cons_append, tokensFrom, if_neg (by simp [h.isBlank_eq_false])]
  simp only [scanKind_of_spells h hrest, List.drop_left]
  cases tokensFrom (start + (String.ofList (c :: cs)).utf8ByteSize) rest <;> rfl

/-! ## What is scanned -/

theorem Scan.exists_of_map_eq_ok {α β : Type} {f : α → β} {s : Scan α} {value : β}
    (h : (s.map f).result = .ok value) : ∃ source, s.result = .ok source ∧ f source = value := by
  rw [Scan.map] at h
  cases hs : s.result with
  | error fault => rw [hs] at h; cases h
  | ok source => rw [hs] at h; exact ⟨source, rfl, Except.ok.inj h⟩

/-- A scan that is not cut short is as it was. -/
theorem Scan.eq_of_bounded_eq_ok {α : Type} {cs : List Char} {s : Scan α} {value : α}
    (h : (s.bounded cs).result = .ok value) : s.bounded cs = s := by
  rw [Scan.bounded] at h ⊢
  split
  next c others hresult hrest =>
    rw [hresult, hrest] at h
    simp only at h
    -- Being cut short gives an error, so the test inside `bounded` has passed.
    split at h
    next hdelimiter => rw [if_pos hdelimiter]
    next => cases h
  next => rfl

/-- A quoted text that is read was written up to its closing quote. -/
theorem quotes_of_scanText {quote : Char} {cs text : List Char}
    (h : (scanText quote cs).result = .ok text) :
    ∃ written, (scanText quote cs).taken = written ++ [quote] ∧ Quotes quote written text := by
  fun_induction scanText quote cs generalizing text with
  | case1 => cases h
  | case2 => cases h
  | case3 e cs c he ih =>
    obtain ⟨others, hrest, rfl⟩ := Scan.exists_of_map_eq_ok h
    obtain ⟨written, htaken, hwritten⟩ := ih hrest
    exact ⟨'\\' :: e :: written, by simp [Scan.after, Scan.map, htaken], .escaped he hwritten⟩
  | case4 => cases h
  | case5 c cs hslash =>
    cases h
    exact ⟨[], rfl, .nil⟩
  | case6 c cs hslash hescape hquote ih =>
    obtain ⟨others, hrest, rfl⟩ := Scan.exists_of_map_eq_ok h
    obtain ⟨written, htaken, hwritten⟩ := ih hrest
    -- The scan takes a backslash in its first cases, with or without a character behind it.
    have hne : c ≠ '\\' := by
      rintro rfl
      cases cs with
      | nil => exact hslash rfl rfl
      | cons e cs => exact hescape e cs rfl rfl
    exact ⟨c :: written, by simp [Scan.after, Scan.map, htaken], .plain hne hquote hwritten⟩

/-- A hole that is read was written up to its closing brace. -/
theorem isKey_of_scanHole {cs : List Char} {name : String} (h : (scanHole cs).result = .ok name) :
    (scanHole cs).taken = name.toList ++ ['}'] ∧ Name.isKey name.toList = true := by
  rw [scanHole] at h ⊢
  split at h
  next rest hrest =>
    split at h
    next hkey =>
      cases h
      simp [hkey]
    next => cases h
  next => cases h
  next => cases h

/-- A reference that is read was written as its name. -/
theorem isIdentifier_of_scanReference {cs : List Char} {name : String}
    (h : (scanReference cs).result = .ok name) :
    (scanReference cs).taken = name.toList ∧ Name.isIdentifier name.toList = true := by
  rw [scanReference] at h ⊢
  split at h
  next hidentifier =>
    cases h
    simp [hidentifier]
  next => cases h

/-- A token that is scanned is one of the spellings of its kind. -/
theorem spells_of_scanKind {c : Char} {cs : List Char} {kind : Kind}
    (hblank : Text.isBlank c = false) (h : (scanKind c cs).result = .ok kind) :
    Spells c (scanKind c cs).taken kind := by
  rw [scanKind] at h ⊢
  split_ifs at h ⊢ with heq hcomma hopen hclose hquote hdollar hbrace
  · cases h; subst heq; exact .equals
  · cases h; subst hcomma; exact .comma
  · cases h; subst hopen; exact .listOpen
  · cases h; subst hclose; exact .listClose
  · have hscan := Scan.eq_of_bounded_eq_ok h
    rw [hscan] at h ⊢
    obtain ⟨text, htext, rfl⟩ := Scan.exists_of_map_eq_ok h
    obtain ⟨written, htaken, hwritten⟩ := quotes_of_scanText htext
    rw [Scan.map, htaken]
    exact .quoted hquote hwritten
  · obtain ⟨name, hname, rfl⟩ := Scan.exists_of_map_eq_ok h
    subst hdollar
    obtain ⟨htaken, hidentifier⟩ := isIdentifier_of_scanReference hname
    have := Spells.reference hidentifier
    rw [String.ofList_toList] at this
    rwa [Scan.map, htaken]
  · have hscan := Scan.eq_of_bounded_eq_ok h
    rw [hscan] at h ⊢
    obtain ⟨name, hname, rfl⟩ := Scan.exists_of_map_eq_ok h
    obtain ⟨htaken, hkey⟩ := isKey_of_scanHole hname
    subst hbrace
    have := Spells.hole hkey
    rw [String.ofList_toList] at this
    rwa [Scan.map, htaken]
  · cases h
    have hdelimiter : isDelimiter c = false := by
      simp [isDelimiter, hblank, heq, hcomma, hopen, hclose]
    refine .word ⟨?_, List.forall_mem_cons.mpr ⟨hdelimiter, fun d hd => ?_⟩⟩
    · simp only [not_or] at hquote
      simp [hquote, hdollar, hbrace]
    · simpa using List.mem_takeWhile_imp hd

/-- Every token of a text is one of the spellings of its kind. -/
theorem spells_of_mem_tokensFrom {start : Nat} {cs : List Char} {tokens : List Token}
    (h : tokensFrom start cs = .ok tokens) :
    ∀ token ∈ tokens, ∃ c taken, token.lexeme.toList = c :: taken ∧ Spells c taken token.kind := by
  -- The cases are those of `tokensFrom`: the end, a blank, a fault here or later, and a token.
  fun_induction tokensFrom start cs generalizing tokens with
  | case1 => cases h; exact fun _ ht => absurd ht List.not_mem_nil
  | case2 start c cs hblank ih => exact ih h
  | case3 => cases h
  | case4 => cases h
  | case5 start c cs hblank scan lexeme kind hkind others hothers =>
    rename_i ih
    cases h
    have hspells := spells_of_scanKind (Bool.not_eq_true _ ▸ hblank) hkind
    refine List.forall_mem_cons.mpr ⟨⟨c, scan.taken, ?_, hspells⟩, ih hothers⟩
    exact String.toList_ofList

/-! ## The kinds of the tokens of a text -/

/-- The text is split into tokens of these kinds, wherever it stands. -/
def Scans (cs : List Char) (kinds : List Kind) : Prop :=
  ∀ start, ∃ tokens, tokensFrom start cs = .ok tokens ∧ tokens.map Token.kind = kinds

theorem scans_nil : Scans [] [] :=
  fun start => ⟨[], by rw [tokensFrom], rfl⟩

/-- A blank separates tokens and is none. -/
theorem Scans.blank {c : Char} {cs : List Char} {kinds : List Kind} (h : Scans cs kinds)
    (hc : Text.isBlank c = true) : Scans (c :: cs) kinds := by
  intro start
  rw [tokensFrom, if_pos hc]
  exact h (start + c.utf8Size)

/-- A spelling gives one token in front of those of the rest. -/
theorem Scans.spelling {c : Char} {cs rest : List Char} {kind : Kind} {kinds : List Kind}
    (h : Scans rest kinds) (hspells : Spells c cs kind)
    (hrest : kind.isMark = true ∨ EndsWord rest) : Scans (c :: cs ++ rest) (kind :: kinds) := by
  intro start
  obtain ⟨tokens, htokens, hkinds⟩ := h (start + (String.ofList (c :: cs)).utf8ByteSize)
  refine ⟨⟨kind, start, String.ofList (c :: cs)⟩ :: tokens, ?_, by rw [List.map_cons, hkinds]⟩
  rw [tokensFrom_of_spells hspells hrest, htokens]
  rfl

theorem isWord_of_isPlain {w : List Char} (hne : w ≠ []) (h : ∀ c ∈ w, isPlain c = true) :
    IsWord w := by
  cases w with
  | nil => exact hne rfl
  | cons c cs =>
    refine ⟨?_, fun d hd => isDelimiter_of_isPlain (h d hd)⟩
    have hsigil := isSigil_of_isPlain (h c (by simp))
    simp only [Literal.isSigil, Bool.or_eq_false_iff, beq_eq_false_iff_ne] at hsigil
    simp [hsigil]

theorem Scans.word {w rest : List Char} {kinds : List Kind} (h : Scans rest kinds) (hw : IsWord w)
    (hrest : EndsWord rest) : Scans (w ++ rest) (.word (String.ofList w) :: kinds) := by
  cases w with
  | nil => exact hw.elim
  | cons c cs => exact h.spelling (.word hw) (Or.inr hrest)

end Runbook.Token
