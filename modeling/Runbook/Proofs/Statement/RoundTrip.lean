import Runbook.Proofs.Statement.Grammar
import Runbook.Proofs.Text.Tidy
import Runbook.Proofs.WellFormed

/-!
# Reading the text of a statement

The canonical text of a well-formed statement is split into the tokens of that statement: a text
is written bare only where the word that it makes up stands for it, and between quotes every
character stands for itself or is escaped.

## Main results

* `Literal.scans_chars`, `Value.scans_chars`, `Command.scans_chars`, `Statement.scans_chars`: the
  canonical text gives the tokens of what is read from it;
* `Statement.isTidy_chars`: it is one line without blanks at its ends;
* `Statement.ofText_text`: the text of a well-formed statement is read;
* `Statement.isWellFormed_of_ofText`: what is read is well formed and has not run.
-/

namespace Runbook

open Token (Kind Scans EndsWord)

/-! ## Literals -/

namespace Literal

theorem isWord_of_isBare {cs : List Char} (h : isBare cs = true) : Token.IsWord cs := by
  cases cs with
  | nil => cases h
  | cons c cs =>
    simp only [isBare, isSigil, Bool.and_eq_true, Bool.not_eq_true', Bool.or_eq_false_iff,
      beq_eq_false_iff_ne, List.any_eq_false] at h
    obtain ⟨⟨⟨⟨⟨⟨hdollar, hbrace⟩, hdouble⟩, hsingle⟩, -⟩, hdelimiter⟩, -⟩ := h
    exact ⟨by simp [hdollar, hbrace, hdouble, hsingle], by simpa using hdelimiter⟩

/-- A text that is written bare is what the word stands for. -/
theorem ofWord_of_isBare {cs : List Char} (h : isBare cs = true) :
    ofWord cs = .text (String.ofList cs) := by
  cases cs with
  | nil => cases h
  | cons c cs =>
    rw [isBare, Bool.and_eq_true] at h
    have hsome := h.2
    -- `isBare` runs the classification that `ofWord` runs, so both go the same way: to a text.
    rw [ofWord] at hsome ⊢
    split at hsome
    · cases hsome
    · split at hsome
      · cases hsome
      · split at hsome
        · cases hsome
        · simp only [*, if_false]

/-- An escaped character stands for itself between double quotes. -/
private theorem quotes_escape (c : Char) {written text : List Char}
    (h : Token.Quotes '"' written text) : Token.Quotes '"' (escape c ++ written) (c :: text) := by
  -- `escape` and `unescape?` agree on five characters; every other one stands for itself.
  by_cases hquote : c = '"'
  · subst hquote; exact .escaped rfl h
  by_cases hslash : c = '\\'
  · subst hslash; exact .escaped rfl h
  by_cases hfeed : c = '\n'
  · subst hfeed; exact .escaped rfl h
  by_cases htab : c = '\t'
  · subst htab; exact .escaped rfl h
  by_cases hreturn : c = '\r'
  · subst hreturn; exact .escaped rfl h
  rw [escape, if_neg hquote, if_neg hslash, if_neg hfeed, if_neg htab, if_neg hreturn]
  exact .plain hslash hquote h

/-- Every text can be written between double quotes. -/
theorem quotes_flatMap_escape (cs : List Char) : Token.Quotes '"' (cs.flatMap escape) cs := by
  induction cs with
  | nil => exact .nil
  | cons c cs ih => exact quotes_escape c ih

/-- Escaping leaves no line ends. -/
private theorem not_mem_escape (c : Char) : '\n' ∉ escape c ∧ '\r' ∉ escape c := by
  by_cases hfeed : c = '\n'
  · subst hfeed; decide
  by_cases hreturn : c = '\r'
  · subst hreturn; decide
  rw [escape, if_neg hfeed, if_neg hreturn]
  split
  · decide
  split
  · decide
  split
  · decide
  simp [Ne.symm hfeed, Ne.symm hreturn]

theorem isWord_numberChars (n : Number) : Token.IsWord n.chars :=
  Token.isWord_of_isPlain n.chars_ne_nil fun _ hc =>
    isPlain_of_isSymbol (Number.isSymbol_of_mem_chars hc)

/-- A literal that is no list is written as one token. -/
theorem scans_chars_of_isScalar {l : Literal} (hl : l.isList = false) {rest : List Char}
    {kinds : List Kind} (h : Scans rest kinds) (hrest : EndsWord rest) :
    ∃ kind, Kind.IsScalar kind l.reread ∧ Scans (l.chars ++ rest) (kind :: kinds) := by
  have hword {w : List Char} (hw : Token.IsWord w) :
      ∃ kind, Kind.IsScalar kind (ofWord w) ∧ Scans (w ++ rest) (kind :: kinds) := by
    refine ⟨.word (String.ofList w), ?_, h.word hw hrest⟩
    have hscalar := Kind.IsScalar.word (String.ofList w)
    rwa [String.toList_ofList] at hscalar
  cases l with
  | text s =>
    by_cases hbare : isBare s.toList = true
    · have := hword (isWord_of_isBare hbare)
      rw [ofWord_of_isBare hbare, String.ofList_toList] at this
      rwa [reread, chars, if_pos hbare]
    · have hquotes := h.spelling (.quoted (.inl rfl) (quotes_flatMap_escape s.toList)) (.inr hrest)
      rw [String.ofList_toList] at hquotes
      refine ⟨.quoted s, .quoted s, ?_⟩
      rwa [chars, if_neg hbare]
  | number n => exact hword (isWord_numberChars n)
  | flag b =>
    cases b with
    | true =>
      exact hword (w := ['t', 'r', 'u', 'e'])
        (Token.isWord_of_isPlain (by decide) (List.all_eq_true.mp (by decide)))
    | false =>
      exact hword (w := ['f', 'a', 'l', 's', 'e'])
        (Token.isWord_of_isPlain (by decide) (List.all_eq_true.mp (by decide)))
  | list items => cases hl

theorem itemsChars_cons_cons (item second : Literal) (others : List Literal) :
    itemsChars (item :: second :: others) =
      item.chars ++ ',' :: itemsChars (second :: others) := rfl

/-- The items of a list are written as the tokens between its brackets. -/
theorem scans_itemsChars {items : List Literal} (hne : items ≠ [])
    (hitems : ∀ item ∈ items, item.isList = false) {rest : List Char} {kinds : List Kind}
    (h : Scans rest kinds) :
    ∃ inner, Kind.AreItems inner (rereadItems items) ∧
      Scans (itemsChars items ++ ']' :: rest) (inner ++ kinds) := by
  -- What follows is split first, so the induction builds the tokens from the right end.
  induction items with
  | nil => exact absurd rfl hne
  | cons item others ih =>
    have hitem := hitems item List.mem_cons_self
    cases others with
    | nil =>
      have hclosing : Scans (']' :: rest) (.listClose :: kinds) := h.spelling .listClose (.inl rfl)
      obtain ⟨kind, hscalar, hscans⟩ :=
        scans_chars_of_isScalar hitem hclosing (Token.endsWord_cons.mpr (by decide))
      exact ⟨[kind, .listClose], .last hscalar, hscans⟩
    | cons second others =>
      obtain ⟨inner, hinner, hscans⟩ := ih (List.cons_ne_nil _ _) fun other hother =>
        hitems other (List.mem_cons_of_mem item hother)
      have hcomma := hscans.spelling .comma (.inl rfl)
      obtain ⟨kind, hscalar, hscans⟩ :=
        scans_chars_of_isScalar hitem hcomma (Token.endsWord_cons.mpr (by decide))
      refine ⟨kind :: .comma :: inner, .cons hscalar hinner, ?_⟩
      rw [itemsChars_cons_cons, List.append_assoc]
      exact hscans

/-- A literal that is no list is written without line ends and without blanks at its ends. -/
theorem isTidy_chars_of_isScalar {l : Literal} (hl : l.isList = false) :
    Text.IsTidy l.chars := by
  have hword {w : List Char} (hw : Token.IsWord w) : Text.IsTidy w := by
    cases w with
    | nil => exact hw.elim
    | cons c cs =>
      exact Text.isTidy_of_forall (List.cons_ne_nil c cs) fun d hd =>
        isBlank_of_isDelimiter (hw.2 d hd)
  cases l with
  | text s =>
    by_cases hbare : isBare s.toList = true
    · rw [chars, if_pos hbare]
      exact hword (isWord_of_isBare hbare)
    · have hquote : Text.IsTidy ['"'] := Text.isTidy_of_all (by decide) (by decide)
      rw [chars, if_neg hbare]
      refine hquote.append (s.toList.flatMap escape) ?_ ?_ hquote
      · rw [List.mem_flatMap]
        rintro ⟨c, -, hc⟩
        exact (not_mem_escape c).1 hc
      · rw [List.mem_flatMap]
        rintro ⟨c, -, hc⟩
        exact (not_mem_escape c).2 hc
  | number n => exact hword (isWord_numberChars n)
  | flag b => cases b <;> exact Text.isTidy_of_all (by decide) (by decide)
  | list items => cases hl

/-- Items that are no lists are written without line ends. -/
theorem not_mem_itemsChars {items : List Literal} (h : ∀ item ∈ items, item.isList = false) :
    '\n' ∉ itemsChars items ∧ '\r' ∉ itemsChars items := by
  -- The separators are no line ends, so it is enough that the items have none.
  induction items with
  | nil => exact ⟨List.not_mem_nil, List.not_mem_nil⟩
  | cons item others ih =>
    have hitem := isTidy_chars_of_isScalar (h item List.mem_cons_self)
    obtain ⟨hfeed, hreturn⟩ := ih fun other hother => h other (List.mem_cons_of_mem item hother)
    cases others with
    | nil => exact ⟨hitem.lineFeed, hitem.carriageReturn⟩
    | cons second others =>
      rw [itemsChars_cons_cons]
      simp [hitem.lineFeed, hitem.carriageReturn, hfeed, hreturn]

end Literal

/-! ## Values -/

namespace Value

private theorem isList_of_isFlat {items : List Literal} (h : (Literal.list items).isFlat = true) :
    ∀ item ∈ items, item.isList = false := by
  simpa [Literal.isFlat] using h

/-- A well-formed value is written as the tokens of what is read from it. -/
theorem scans_chars {v : Value} (hv : v.IsWellFormed) {rest : List Char} {kinds : List Kind}
    (h : Scans rest kinds) (hrest : EndsWord rest) :
    ∃ inner, Kind.IsValue inner v.reread ∧ Scans (v.chars ++ rest) (inner ++ kinds) := by
  cases v with
  | reference name =>
    have hscans := h.spelling (.reference hv) (.inr hrest)
    rw [String.ofList_toList] at hscans
    exact ⟨[.reference name], .reference name, hscans⟩
  | hole name =>
    have hscans := h.spelling (.hole hv) (.inr hrest)
    rw [String.ofList_toList] at hscans
    exact ⟨[.hole name], .hole name, hscans⟩
  | literal l =>
    by_cases hl : l.isList = true
    · obtain ⟨items, rfl⟩ : ∃ items, l = .list items := by
        cases l with
        | list items => exact ⟨items, rfl⟩
        | _ => cases hl
      cases items with
      | nil =>
        refine ⟨[.listOpen, .listClose], .emptyList, ?_⟩
        exact (h.spelling .listClose (.inl rfl)).spelling .listOpen (.inl rfl)
      | cons item items =>
        obtain ⟨inner, hinner, hscans⟩ :=
          Literal.scans_itemsChars (List.cons_ne_nil item items) (isList_of_isFlat hv) h
        refine ⟨.listOpen :: inner, .list hinner, ?_⟩
        rw [chars, Literal.chars, List.cons_append, List.cons_append, List.append_assoc,
          List.singleton_append]
        exact hscans.spelling .listOpen (.inl rfl)
    · obtain ⟨kind, hscalar, hscans⟩ :=
        Literal.scans_chars_of_isScalar (Bool.not_eq_true _ ▸ hl) h hrest
      exact ⟨[kind], .scalar hscalar, hscans⟩

/-- A well-formed value is written without line ends and without blanks at its ends. -/
theorem isTidy_chars {v : Value} (hv : v.IsWellFormed) : Text.IsTidy v.chars := by
  have hplain {cs : List Char} (h : ∀ c ∈ cs, isPlain c = true) {opening : Char}
      (hopening : Text.isBlank opening = false) : Text.IsTidy (opening :: cs) := by
    apply Text.isTidy_of_forall (List.cons_ne_nil opening cs)
    intro c hc
    rcases List.mem_cons.mp hc with rfl | hc
    · exact hopening
    · exact isBlank_of_isDelimiter (isDelimiter_of_isPlain (h c hc))
  cases v with
  | reference name => exact hplain (Name.isPlain_of_isIdentifier hv).2 (by decide)
  | hole name =>
    have hbrace : Text.IsTidy ['}'] := Text.isTidy_of_all (by decide) (by decide)
    have hname : Text.IsTidy ('{' :: name.toList) :=
      hplain (Name.isPlain_of_isKey hv).2 (by decide)
    have := hname.append [] List.not_mem_nil List.not_mem_nil hbrace
    rwa [List.append_nil] at this
  | literal l =>
    by_cases hl : l.isList = true
    · obtain ⟨items, rfl⟩ : ∃ items, l = .list items := by
        cases l with
        | list items => exact ⟨items, rfl⟩
        | _ => cases hl
      have hopening : Text.IsTidy ['['] := Text.isTidy_of_all (by decide) (by decide)
      have hclosing : Text.IsTidy [']'] := Text.isTidy_of_all (by decide) (by decide)
      obtain ⟨hfeed, hreturn⟩ := Literal.not_mem_itemsChars (isList_of_isFlat hv)
      exact hopening.append (Literal.itemsChars items) hfeed hreturn hclosing
    · exact Literal.isTidy_chars_of_isScalar (Bool.not_eq_true _ ▸ hl)

end Value

/-! ## Commands -/

namespace Command

/-- Each parameter of a well-formed command has a key and a value that can be written. -/
theorem IsWellFormed.parameters {c : Command} (h : c.IsWellFormed) :
    ∀ p ∈ c.parameters.entries, Name.isKey p.1.toList = true ∧ p.2.IsWellFormed := fun p hp =>
  ⟨h.keys p.1 (List.mem_map_of_mem hp), h.values p.2 (List.mem_map_of_mem hp)⟩

/-- Parameters start with a space, which ends a word. -/
theorem endsWord_flatMap_parameterChars (entries : List (String × Value)) :
    EndsWord (entries.flatMap parameterChars) := by
  cases entries with
  | nil => trivial
  | cons p others => exact Token.endsWord_cons.mpr (by decide)

private theorem scans_name {name : String}
    (h : name.toList ≠ [] ∧ ∀ c ∈ name.toList, isPlain c = true) {rest : List Char}
    {kinds : List Kind} (hscans : Scans rest kinds) (hrest : EndsWord rest) :
    Scans (name.toList ++ rest) (.word name :: kinds) := by
  have := hscans.word (Token.isWord_of_isPlain h.1 h.2) hrest
  rwa [String.ofList_toList] at this

/-- Parameters are written as the tokens of what is read from them. -/
theorem scans_parameterChars {entries : List (String × Value)}
    (h : ∀ p ∈ entries, Name.isKey p.1.toList = true ∧ p.2.IsWellFormed) :
    ∃ kinds, Kind.AreParameters kinds (entries.map fun p => (p.1, p.2.reread)) ∧
      Scans (entries.flatMap parameterChars) kinds := by
  -- As for items, the last parameter comes first: each value needs to know what follows it.
  induction entries with
  | nil => exact ⟨[], .nil, Token.scans_nil⟩
  | cons p others ih =>
    obtain ⟨hkey, hvalue⟩ := h p List.mem_cons_self
    obtain ⟨kinds, hkinds, hscans⟩ := ih fun q hq => h q (List.mem_cons_of_mem p hq)
    obtain ⟨inner, hinner, hscans⟩ :=
      p.2.scans_chars hvalue hscans (endsWord_flatMap_parameterChars others)
    have hequals := hscans.spelling .equals (.inl rfl)
    have hname := scans_name (Name.isPlain_of_isKey hkey) hequals
      (Token.endsWord_cons.mpr (by decide))
    refine ⟨.word p.1 :: .equals :: inner ++ kinds, .cons hkey hinner hkinds, ?_⟩
    rw [List.flatMap_cons, parameterChars, List.cons_append, List.cons_append, List.append_assoc]
    exact hname.blank (by decide)

/-- A well-formed command is written as the tokens of what is read from it. -/
theorem scans_chars {c : Command} (h : c.IsWellFormed) :
    ∃ kinds, Kind.IsCommand kinds c.reread ∧ Scans c.chars kinds := by
  obtain ⟨kinds, hkinds, hscans⟩ := scans_parameterChars h.parameters
  have hentity := scans_name (Name.isPlain_of_isActionWord h.entity) hscans
    (endsWord_flatMap_parameterChars _)
  have haction := scans_name (Name.isPlain_of_isActionWord h.action)
    (hentity.blank (c := ' ') (by decide)) (Token.endsWord_cons.mpr (by decide))
  refine ⟨.word c.action :: .word c.entity :: kinds, .mk h.action h.entity hkinds, ?_⟩
  rw [chars, List.append_assoc]
  exact haction

private theorem isTidy_name {name : List Char} (h : name ≠ [] ∧ ∀ c ∈ name, isPlain c = true) :
    Text.IsTidy name :=
  Text.isTidy_of_forall h.1 fun c hc => isBlank_of_isDelimiter (isDelimiter_of_isPlain (h.2 c hc))

/-- Parameters behind a tidy text leave it tidy. -/
private theorem isTidy_append_parameterChars {front : List Char} (hfront : Text.IsTidy front)
    {entries : List (String × Value)}
    (h : ∀ p ∈ entries, Name.isKey p.1.toList = true ∧ p.2.IsWellFormed) :
    Text.IsTidy (front ++ entries.flatMap parameterChars) := by
  -- Everything in front of the last parameter is the tidy text that this one is put behind.
  induction entries generalizing front with
  | nil => rwa [List.flatMap_nil, List.append_nil]
  | cons p others ih =>
    obtain ⟨hkey, hvalue⟩ := h p List.mem_cons_self
    have hname := isTidy_name (Name.isPlain_of_isKey hkey)
    have hparameter := hname.append ['='] (by decide) (by decide) (p.2.isTidy_chars hvalue)
    have hfront' := hfront.append [' '] (by decide) (by decide) hparameter
    have := ih hfront' fun q hq => h q (List.mem_cons_of_mem p hq)
    simpa [parameterChars] using this

/-- A well-formed command is written on one line without blanks at its ends. -/
theorem isTidy_chars {c : Command} (h : c.IsWellFormed) : Text.IsTidy c.chars := by
  have haction := isTidy_name (Name.isPlain_of_isActionWord h.action)
  have hentity := isTidy_name (Name.isPlain_of_isActionWord h.entity)
  have hfront := haction.append [' '] (by decide) (by decide) hentity
  have := isTidy_append_parameterChars hfront h.parameters
  simpa [chars] using this

end Command

/-! ## Statements -/

namespace Statement

/-- A well-formed statement is written as the tokens of what is read from it. -/
theorem scans_chars {s : Statement} (h : s.IsWellFormed) :
    ∃ kinds, Kind.IsStatement kinds s.reread ∧ Scans s.chars kinds := by
  obtain ⟨kinds, hkinds, hscans⟩ := s.command.scans_chars h.command
  cases hname : s.name with
  | none =>
    refine ⟨kinds, ?_, by rwa [chars, hname]⟩
    rw [reread, hname]
    exact .command hkinds
  | some name =>
    have hidentifier := h.name name hname
    have hequals := (hscans.blank (c := ' ') (by decide)).spelling .equals (.inl rfl)
    have hdeclared := Command.scans_name (Name.isPlain_of_isIdentifier hidentifier)
      (hequals.blank (c := ' ') (by decide)) (Token.endsWord_cons.mpr (by decide))
    refine ⟨.word name :: .equals :: kinds, ?_, by rwa [chars, hname]⟩
    rw [reread, hname]
    exact .declaration hidentifier hkinds

/-- A well-formed statement is written on one line without blanks at its ends. -/
theorem isTidy_chars {s : Statement} (h : s.IsWellFormed) : Text.IsTidy s.chars := by
  have hcommand := s.command.isTidy_chars h.command
  cases hname : s.name with
  | none => rwa [chars, hname]
  | some name =>
    have hdeclared := Command.isTidy_name (Name.isPlain_of_isIdentifier (h.name name hname))
    have := hdeclared.append [' ', '=', ' '] (by decide) (by decide) hcommand
    rw [chars, hname]
    simpa using this

/-- A statement starts with a character of a word. -/
theorem exists_cons_chars {s : Statement} (h : s.IsWellFormed) :
    ∃ c cs, s.chars = c :: cs ∧ isPlain c = true := by
  have hword {name rest : List Char} (hname : name ≠ [] ∧ ∀ c ∈ name, isPlain c = true) :
      ∃ c cs, name ++ rest = c :: cs ∧ isPlain c = true := by
    obtain ⟨c, cs, rfl⟩ := List.exists_cons_of_ne_nil hname.1
    exact ⟨c, cs ++ rest, rfl, hname.2 c List.mem_cons_self⟩
  cases hname : s.name with
  | none =>
    rw [chars, hname]
    simp only [Command.chars, List.append_assoc]
    exact hword (Name.isPlain_of_isActionWord h.command.action)
  | some name =>
    rw [chars, hname]
    exact hword (Name.isPlain_of_isIdentifier (h.name name hname))

/-- The text of a well-formed statement is read, with every number read anew. -/
theorem ofText_text {s : Statement} (h : s.IsWellFormed) : ofText s.text = .ok s.reread := by
  obtain ⟨kinds, hkinds, hscans⟩ := s.scans_chars h
  exact ofText_of_scans (by rwa [text, String.toList_ofList]) hkinds

/-- So is the text of a well-formed command by itself. -/
theorem ofText_text_command {c : Command} (h : c.IsWellFormed) :
    ofText c.text = .ok ⟨none, c.reread⟩ :=
  ofText_text (s := ⟨none, c⟩) ⟨fun _ hname => (nomatch hname), h⟩

/-! ## What is read -/

/-- The items of a list are no lists. -/
private theorem isList_of_areItems {kinds : List Kind} {items : List Literal}
    (h : Kind.AreItems kinds items) : ∀ item ∈ items, item.isList = false := by
  have hscalar {kind : Kind} {item : Literal} (h : kind.IsScalar item) : item.isList = false := by
    cases h with
    | word text => exact Literal.isList_ofWord text.toList
    | quoted text => rfl
  induction h with
  | last hitem => simpa using hscalar hitem
  | cons hitem _ ih => exact List.forall_mem_cons.mpr ⟨hscalar hitem, ih⟩

/-- Values that are read from spelled tokens are well formed. -/
private theorem isWellFormed_of_isValue {kinds : List Kind} {value : Value}
    (h : Kind.IsValue kinds value)
    (hspells : ∀ kind ∈ kinds, ∃ c taken, Token.Spells c taken kind) : value.IsWellFormed := by
  cases h with
  | reference name =>
    -- The grammar allows any name; that it is one is known from the spelling of its token.
    obtain ⟨c, taken, hname⟩ := hspells _ List.mem_cons_self
    generalize hkind : Kind.reference name = kind at hname
    cases hname with
    | reference hidentifier =>
      cases hkind
      rwa [Value.IsWellFormed, String.toList_ofList]
    | _ => cases hkind
  | hole name =>
    obtain ⟨c, taken, hname⟩ := hspells _ List.mem_cons_self
    generalize hkind : Kind.hole name = kind at hname
    cases hname with
    | hole hkey =>
      cases hkind
      rwa [Value.IsWellFormed, String.toList_ofList]
    | _ => cases hkind
  | scalar hscalar =>
    cases hscalar with
    | word text => exact Literal.isFlat_of_isList (Literal.isList_ofWord text.toList)
    | quoted text => rfl
  | emptyList => rfl
  | list hitems =>
    rw [Value.IsWellFormed, Literal.isFlat, List.all_eq_true]
    intro item hitem
    rw [isList_of_areItems hitems item hitem]
    rfl

/-- Parameters that are read from spelled tokens have keys and values that can be written. -/
private theorem isWellFormed_of_areParameters {kinds : List Kind}
    {parameters : List (String × Value)} (h : Kind.AreParameters kinds parameters)
    (hspells : ∀ kind ∈ kinds, ∃ c taken, Token.Spells c taken kind) :
    ∀ p ∈ parameters, Name.isKey p.1.toList = true ∧ p.2.IsWellFormed := by
  induction h with
  | nil => exact fun _ hp => absurd hp List.not_mem_nil
  | cons hkey hvalue _ ih =>
    simp only [List.cons_append, List.forall_mem_cons, List.forall_mem_append] at hspells
    obtain ⟨-, -, hinner, hothers⟩ := hspells
    exact List.forall_mem_cons.mpr ⟨⟨hkey, isWellFormed_of_isValue hvalue hinner⟩, ih hothers⟩

/-- A command that is read from spelled tokens is well formed and has not run. -/
private theorem isWellFormed_of_isCommand {kinds : List Kind} {command : Command}
    (h : Kind.IsCommand kinds command)
    (hspells : ∀ kind ∈ kinds, ∃ c taken, Token.Spells c taken kind) :
    command.IsWellFormed ∧ command.outcome = .pending := by
  obtain ⟨haction, hentity, hparameters⟩ := h
  simp only [List.forall_mem_cons] at hspells
  have hwell := isWellFormed_of_areParameters hparameters hspells.2.2
  refine ⟨⟨haction, hentity, fun key hkey => ?_, fun value hvalue => ?_⟩, rfl⟩
  · obtain ⟨p, hp, rfl⟩ := List.mem_map.mp hkey
    exact (hwell p hp).1
  · obtain ⟨p, hp, rfl⟩ := List.mem_map.mp hvalue
    exact (hwell p hp).2

/-- A statement that is read is well formed and has not run. -/
theorem isWellFormed_of_ofText {text : String} {s : Statement} (h : ofText text = .ok s) :
    s.IsWellFormed ∧ s.command.outcome = .pending := by
  rw [ofText] at h
  split at h
  · cases h
  rename_i tokens htokens
  have hspells : ∀ kind ∈ tokens.map Token.kind, ∃ c taken, Token.Spells c taken kind := by
    intro kind hkind
    obtain ⟨token, htoken, rfl⟩ := List.mem_map.mp hkind
    obtain ⟨c, taken, -, hspells⟩ := Token.spells_of_mem_tokensFrom htokens token htoken
    exact ⟨c, taken, hspells⟩
  have hstatement := isStatement_of_ofTokens h
  generalize tokens.map Token.kind = kinds at hstatement hspells
  cases hstatement with
  | command hcommand =>
    obtain ⟨hwell, hpending⟩ := isWellFormed_of_isCommand hcommand hspells
    exact ⟨⟨fun _ hname => (nomatch hname), hwell⟩, hpending⟩
  | declaration hname hcommand =>
    simp only [List.forall_mem_cons] at hspells
    obtain ⟨hwell, hpending⟩ := isWellFormed_of_isCommand hcommand hspells.2.2
    exact ⟨⟨fun other hother => Option.some.inj hother ▸ hname, hwell⟩, hpending⟩

end Statement

end Runbook
