import Mathlib.Data.List.TakeWhile
import Runbook.Proofs.Json.Text
import Runbook.Proofs.Number.Layout

/-!
# Reading the text of JSON values

The text of a value in a layout that sets its parts apart by spaces spells one document: the
value with every number as the numeral that it is written as.

## Main definitions

* `Json.Layout.IsSpaced`: a layout sets parts apart by spaces only;
* `Json.Document.ofJson`: the document that the text of a value spells.

## Main results

* `Json.value?_chars`: the text of a value is read as its document, whatever follows;
* `Json.Document.ofBytes?_text`: the bytes of the text spell that document.
-/

namespace Runbook

/-- The numeral that a number is written as. -/
def Number.numeral (n : Number) : Numeral :=
  (Numeral.ofChars? n.chars).getD ⟨false, [], [], none⟩

namespace Json

open Text (Symbol)

namespace Document

mutual

/-- The document that the text of a value spells. -/
def ofJson : Json → Document
  | .null => .null
  | .bool b => .bool b
  | .number n => .number n.numeral
  | .string s => .string (some s)
  | .array items => .array (ofItems items)
  | .object members => .object (ofMembers members)

/-- The documents that the texts of items spell. -/
def ofItems : List Json → List Document
  | [] => []
  | item :: rest => ofJson item :: ofItems rest

/-- The documents that the texts of members spell, with their names. -/
def ofMembers : List (String × Json) → List (Option String × Document)
  | [] => []
  | (name, value) :: rest => (some name, ofJson value) :: ofMembers rest

end

end Document

/-! ## Spaces -/

/-- The layout sets parts apart by spaces only, but for the colon behind a name. -/
structure Layout.IsSpaced (layout : Layout) : Prop where
  /-- What stands before an item is spaces. -/
  lineBreak : ∀ depth, ∀ c ∈ layout.lineBreak depth, isSpace (some c) = true
  /-- What stands behind a name is a colon and spaces. -/
  colon : ∃ spaces, layout.colon = ':' :: spaces ∧ ∀ c ∈ spaces, isSpace (some c) = true

theorem Layout.isSpaced_compact : Layout.compact.IsSpaced where
  lineBreak _ _ hc := absurd hc List.not_mem_nil
  colon := ⟨[], rfl, fun _ hc => absurd hc List.not_mem_nil⟩

theorem Layout.isSpaced_indented : Layout.indented.IsSpaced where
  lineBreak depth c hc := by
    rcases List.mem_cons.mp hc with rfl | hc
    · decide
    · rw [(List.mem_replicate.mp hc).2]
      decide
  colon := ⟨[' '], rfl, List.forall_mem_singleton.mpr rfl⟩

theorem skipSpaces_append {spaces : List Char} (h : ∀ c ∈ spaces, isSpace (some c) = true)
    (rest : List Symbol) : skipSpaces (spaces.map some ++ rest) = skipSpaces rest :=
  List.dropWhile_append_of_pos fun s hs => by
    obtain ⟨c, hc, rfl⟩ := List.mem_map.mp hs
    exact h c hc

theorem skipSpaces_cons {c : Char} (h : isSpace (some c) = false) (rest : List Symbol) :
    skipSpaces (some c :: rest) = some c :: rest :=
  List.dropWhile_cons_of_neg (by simp [h])

/-- Spaces in front of a value are skipped. -/
theorem value?_append {spaces : List Char} (h : ∀ c ∈ spaces, isSpace (some c) = true)
    (fuel : Nat) (rest : List Symbol) :
    value? fuel (spaces.map some ++ rest) = value? fuel rest := by
  cases fuel with
  | zero => rw [value?, value?]
  | succ fuel => rw [value?, value?, skipSpaces_append h]

/-! ## Numbers -/

/-- What follows a number does not go on with a character of a numeral. -/
def EndsNumeral : List Symbol → Prop
  | [] => True
  | s :: _ => isNumeralSymbol s = false

theorem endsNumeral_nil : EndsNumeral [] := trivial

@[simp]
theorem endsNumeral_cons {s : Symbol} {rest : List Symbol} :
    EndsNumeral (s :: rest) ↔ isNumeralSymbol s = false := Iff.rfl

theorem endsNumeral_append {spaces : List Char} (h : ∀ c ∈ spaces, isSpace (some c) = true)
    {rest : List Symbol} (hrest : EndsNumeral rest) : EndsNumeral (spaces.map some ++ rest) := by
  cases spaces with
  | nil => exact hrest
  | cons c spaces =>
    have hc := h c List.mem_cons_self
    -- None of the four spaces is a character of a numeral.
    simp only [isSpace, Bool.or_eq_true, beq_iff_eq, Option.some.injEq] at hc
    rcases hc with ((rfl | rfl) | rfl) | rfl <;> rfl

/-- A character of a numeral neither is a space nor starts a value of another kind. -/
private theorem ne_of_isSymbol {c : Char} (h : Numeral.isSymbol c = true) :
    isSpace (some c) = false ∧ c ∉ ['n', 't', 'f', '"', '[', '{', ']', '}'] := by
  constructor
  · rw [Bool.eq_false_iff]
    intro hspace
    simp only [isSpace, Bool.or_eq_true, beq_iff_eq, Option.some.injEq] at hspace
    rcases hspace with ((rfl | rfl) | rfl) | rfl <;> exact absurd h (by decide)
  · simp only [List.mem_cons, List.not_mem_nil, or_false, not_or]
    refine ⟨?_, ?_, ?_, ?_, ?_, ?_, ?_, ?_⟩ <;>
    · rintro rfl
      exact absurd h (by decide)

/-- A number is read up to its last character. -/
theorem numeral?_chars (n : Number) {rest : List Symbol} (hrest : EndsNumeral rest) :
    numeral? (n.chars.map some ++ rest) = some (.number n.numeral, rest) := by
  have hsymbol : ∀ s ∈ n.chars.map some, isNumeralSymbol s = true := by
    intro s hs
    obtain ⟨c, hc, rfl⟩ := List.mem_map.mp hs
    exact Number.isSymbol_of_mem_chars hc
  -- All of the number and nothing of what follows is taken: its characters are of numerals and
  -- the first one behind it is not.
  have htake : (n.chars.map some ++ rest).takeWhile isNumeralSymbol = n.chars.map some := by
    rw [List.takeWhile_append_of_pos hsymbol]
    cases rest with
    | nil => simp
    | cons s rest => rw [List.takeWhile_cons_of_neg (by simpa using hrest), List.append_nil]
  have hdrop : (n.chars.map some ++ rest).dropWhile isNumeralSymbol = rest := by
    rw [List.dropWhile_append_of_pos hsymbol]
    cases rest with
    | nil => rfl
    | cons s rest => exact List.dropWhile_cons_of_neg (by simpa using hrest)
  have hfilter : (n.chars.map some).filterMap id = n.chars := by simp
  obtain ⟨numeral, hnumeral⟩ := Option.isSome_iff_exists.mp n.isSome_ofChars?
  rw [numeral?, htake, hdrop, hfilter, Number.numeral, hnumeral]
  rfl

/-- A text that starts with a character of a numeral is read as a numeral. -/
theorem value?_of_isSymbol {c : Char} (h : Numeral.isSymbol c = true) (fuel : Nat)
    (cs : List Symbol) : value? (fuel + 1) (some c :: cs) = numeral? (some c :: cs) := by
  obtain ⟨hspace, hne⟩ := ne_of_isSymbol h
  simp only [List.mem_cons, List.not_mem_nil, or_false, not_or] at hne
  obtain ⟨hnull, htrue, hfalse, hquote, hbracket, hbrace, -, -⟩ := hne
  rw [value?, skipSpaces_cons hspace]
  -- The reader decides on the first character, and it is none of those that it looks for.
  split
  next heq => cases heq; exact absurd rfl hnull
  next heq => cases heq; exact absurd rfl htrue
  next heq => cases heq; exact absurd rfl hfalse
  next heq => cases heq; exact absurd rfl hquote
  next heq => cases heq; exact absurd rfl hbracket
  next heq => cases heq; exact absurd rfl hbrace
  next => rfl

/-! ## Values -/

/-- A value neither starts with a space nor with a closing bracket or brace. -/
theorem exists_cons_chars (layout : Layout) (depth : Nat) (json : Json) :
    ∃ c cs, json.chars layout depth = c :: cs ∧ isSpace (some c) = false ∧ c ≠ ']' := by
  cases json with
  | null => exact ⟨_, _, rfl, by decide, by decide⟩
  | bool b => cases b <;> exact ⟨_, _, rfl, by decide, by decide⟩
  | string s => exact ⟨_, _, rfl, by decide, by decide⟩
  | array items => cases items <;> exact ⟨_, _, rfl, by decide, by decide⟩
  | object members => cases members <;> exact ⟨_, _, rfl, by decide, by decide⟩
  | number n =>
    obtain ⟨c, cs, hcs⟩ := List.exists_cons_of_ne_nil n.chars_ne_nil
    have hc : c ∈ n.chars := hcs ▸ List.mem_cons_self
    obtain ⟨hspace, hne⟩ := ne_of_isSymbol (Number.isSymbol_of_mem_chars hc)
    exact ⟨c, cs, hcs, hspace, fun h => hne (by simp [h])⟩

/-! ## Steps of the reader -/

theorem value?_array {fuel : Nat} {cs rest : List Symbol} {items : List Document}
    (hopen : ∀ rest', skipSpaces cs ≠ some ']' :: rest')
    (hitems : items? fuel cs = some (items, rest)) :
    value? (fuel + 1) (some '[' :: cs) = some (.array items, rest) := by
  have hskip : skipSpaces (some '[' :: cs) = some '[' :: cs := skipSpaces_cons (by decide) cs
  simp only [value?, hskip, hitems]
  rfl

theorem value?_object {fuel : Nat} {cs rest : List Symbol}
    {members : List (Option String × Document)}
    (hopen : ∀ rest', skipSpaces cs ≠ some '}' :: rest')
    (hmembers : members? fuel cs = some (members, rest)) :
    value? (fuel + 1) (some '{' :: cs) = some (.object members, rest) := by
  have hskip : skipSpaces (some '{' :: cs) = some '{' :: cs := skipSpaces_cons (by decide) cs
  simp only [value?, hskip, hmembers]
  rfl

theorem items?_last {fuel : Nat} {cs behind rest : List Symbol} {item : Document}
    (hitem : value? fuel cs = some (item, behind)) (hclose : skipSpaces behind = some ']' :: rest) :
    items? (fuel + 1) cs = some ([item], rest) := by
  simp only [items?, hitem, Option.bind_eq_bind, Option.bind_some, hclose]
  rfl

theorem items?_cons {fuel : Nat} {cs behind rest : List Symbol} {item : Document}
    {items : List Document} (hitem : value? fuel cs = some (item, some ',' :: behind))
    (hitems : items? fuel behind = some (items, rest)) :
    items? (fuel + 1) cs = some (item :: items, rest) := by
  have hcomma : skipSpaces (some ',' :: behind) = some ',' :: behind :=
    skipSpaces_cons (by decide) _
  simp only [items?, hitem, Option.bind_eq_bind, Option.bind_some, hcomma, hitems]
  rfl

theorem members?_last {fuel : Nat} {cs text value behind rest : List Symbol} {name : String}
    {document : Document} (hquote : skipSpaces cs = some '"' :: text)
    (hname : textBody? text = some (some name, some ':' :: value))
    (hvalue : value? fuel value = some (document, behind))
    (hclose : skipSpaces behind = some '}' :: rest) :
    members? (fuel + 1) cs = some ([(some name, document)], rest) := by
  have hcolon : skipSpaces (some ':' :: value) = some ':' :: value := skipSpaces_cons (by decide) _
  simp only [members?, hquote, hname, Option.bind_eq_bind, Option.bind_some, hcolon, hvalue, hclose]
  rfl

theorem members?_cons {fuel : Nat} {cs text value behind rest : List Symbol} {name : String}
    {document : Document} {members : List (Option String × Document)}
    (hquote : skipSpaces cs = some '"' :: text)
    (hname : textBody? text = some (some name, some ':' :: value))
    (hvalue : value? fuel value = some (document, some ',' :: behind))
    (hmembers : members? fuel behind = some (members, rest)) :
    members? (fuel + 1) cs = some ((some name, document) :: members, rest) := by
  have hcolon : skipSpaces (some ':' :: value) = some ':' :: value := skipSpaces_cons (by decide) _
  have hcomma : skipSpaces (some ',' :: behind) = some ',' :: behind :=
    skipSpaces_cons (by decide) _
  simp only [members?, hquote, hname, Option.bind_eq_bind, Option.bind_some, hcolon, hvalue, hcomma,
    hmembers]
  rfl

/-! ## Reading values -/

section Layouts

variable {layout : Layout}

/-- Twice the length of a text is more than no fuel. -/
private theorem exists_fuel {depth : Nat} {json : Json} {fuel : Nat}
    (h : 2 * (json.chars layout depth).length ≤ fuel) : ∃ less, fuel = less + 1 := by
  obtain ⟨c, cs, hcs, -, -⟩ := exists_cons_chars layout depth json
  rw [hcs, List.length_cons] at h
  exact Nat.exists_eq_add_one.mpr (by omega)

theorem itemsChars_cons_cons (depth : Nat) (item second : Json) (rest : List Json) :
    itemsChars layout depth (item :: second :: rest) =
      layout.lineBreak depth ++ item.chars layout depth ++
        ',' :: itemsChars layout depth (second :: rest) := rfl

theorem membersChars_cons_cons (depth : Nat) (name : String) (value : Json)
    (second : String × Json) (rest : List (String × Json)) :
    membersChars layout depth ((name, value) :: second :: rest) =
      layout.lineBreak depth ++ quoted name ++ layout.colon ++ value.chars layout depth ++
        ',' :: membersChars layout depth (second :: rest) := rfl

/-- The items of an array start with something else than a closing bracket. -/
private theorem skipSpaces_itemsChars_ne (hlayout : layout.IsSpaced) (depth : Nat) (item : Json)
    (items : List Json) (behind rest : List Symbol) :
    skipSpaces ((itemsChars layout depth (item :: items)).map some ++ behind) ≠
      some ']' :: rest := by
  obtain ⟨c, cs, hcs, hspace, hne⟩ := exists_cons_chars layout depth item
  obtain ⟨tail, htail⟩ : ∃ tail, itemsChars layout depth (item :: items) =
      layout.lineBreak depth ++ c :: tail := by
    cases items with
    | nil => exact ⟨cs, by rw [itemsChars, hcs]⟩
    | cons second items => exact ⟨_, by rw [itemsChars_cons_cons, hcs, List.append_assoc]; rfl⟩
  rw [htail, List.map_append, List.append_assoc, skipSpaces_append (hlayout.lineBreak depth),
    List.map_cons, List.cons_append, skipSpaces_cons hspace]
  intro heq
  exact hne (Option.some.inj (List.cons.inj heq).1)

/-- The members of an object start with a quote. -/
private theorem skipSpaces_membersChars (hlayout : layout.IsSpaced) (depth : Nat)
    (member : String × Json) (members : List (String × Json)) (behind : List Symbol) :
    ∃ tail, skipSpaces ((membersChars layout depth (member :: members)).map some ++ behind) =
      some '"' :: tail := by
  obtain ⟨tail, htail⟩ : ∃ tail, membersChars layout depth (member :: members) =
      layout.lineBreak depth ++ '"' :: tail := by
    cases members with
    | nil => exact ⟨_, by rw [membersChars, quoted, List.append_assoc, List.append_assoc]; rfl⟩
    | cons second members =>
      exact ⟨_, by
        rw [membersChars_cons_cons, quoted, List.append_assoc, List.append_assoc,
          List.append_assoc]
        rfl⟩
  rw [htail, List.map_append, List.append_assoc, skipSpaces_append (hlayout.lineBreak depth),
    List.map_cons, List.cons_append, skipSpaces_cons (by decide)]
  exact ⟨_, rfl⟩

/-- What stands behind the opening quote of a name is the name, a colon and the value. -/
private theorem textBody?_name (hlayout : layout.IsSpaced) (name : String) (rest : List Symbol) :
    ∃ spaces : List Char, (∀ c ∈ spaces, isSpace (some c) = true) ∧ ∃ text,
      (quoted name ++ layout.colon).map some ++ rest = some '"' :: text ∧
        textBody? text = some (some name, some ':' :: (spaces.map some ++ rest)) := by
  obtain ⟨spaces, hcolon, hspaces⟩ := hlayout.colon
  refine ⟨spaces, hspaces, (name.toList.flatMap escape).map some ++
    some '"' :: (some ':' :: (spaces.map some ++ rest)), ?_, textBody?_quoted name _⟩
  simp [quoted, hcolon]

-- The three readers call each other with one unit of fuel less each time, so the induction is
-- on the value and the fuel is bounded by twice the length of its text: an item takes at most two
-- calls, and its text is at least one character long.
mutual

/-- The text of a value is read as its document, whatever follows. -/
theorem value?_chars (hlayout : layout.IsSpaced) : (json : Json) →
    ∀ (depth fuel : Nat) {rest : List Symbol}, EndsNumeral rest →
      2 * (json.chars layout depth).length ≤ fuel →
        value? fuel ((json.chars layout depth).map some ++ rest) = some (.ofJson json, rest)
  | .null, depth, fuel, rest, _, hfuel => by
    obtain ⟨fuel, rfl⟩ := exists_fuel hfuel
    rfl
  | .bool true, depth, fuel, rest, _, hfuel => by
    obtain ⟨fuel, rfl⟩ := exists_fuel hfuel
    rfl
  | .bool false, depth, fuel, rest, _, hfuel => by
    obtain ⟨fuel, rfl⟩ := exists_fuel hfuel
    rfl
  | .number n, depth, fuel, rest, hrest, hfuel => by
    obtain ⟨c, cs, hcs⟩ := List.exists_cons_of_ne_nil n.chars_ne_nil
    have hsymbol : Numeral.isSymbol c = true :=
      Number.isSymbol_of_mem_chars (n := n) (hcs ▸ List.mem_cons_self)
    obtain ⟨fuel, rfl⟩ := exists_fuel hfuel
    have hread := numeral?_chars n hrest
    rw [chars, Document.ofJson]
    rw [hcs, List.map_cons, List.cons_append] at hread ⊢
    rw [value?_of_isSymbol hsymbol, hread]
  | .string s, depth, fuel, rest, _, hfuel => by
    obtain ⟨fuel, rfl⟩ := exists_fuel hfuel
    rw [chars, quoted, List.cons_append, List.map_cons, List.map_append, List.cons_append,
      List.append_assoc, List.map_singleton, List.singleton_append, value?,
      skipSpaces_cons (by decide)]
    -- The match on the first character, a quote, has been decided.
    change (textBody? _).map _ = _
    rw [textBody?_quoted s rest]
    rfl
  | .array [], depth, fuel, rest, _, hfuel => by
    obtain ⟨fuel, rfl⟩ := exists_fuel hfuel
    rfl
  | .array (item :: items), depth, fuel, rest, _, hfuel => by
    have hchars : (chars layout depth (.array (item :: items))).map some ++ rest =
        some '[' :: ((itemsChars layout (depth + 1) (item :: items)).map some ++
          ((layout.lineBreak depth).map some ++ some ']' :: rest)) := by
      simp [chars]
    obtain ⟨fuel, rfl⟩ := exists_fuel hfuel
    simp only [chars, List.length_append, List.length_cons] at hfuel
    have hitems := items?_itemsChars hlayout (item :: items) (List.cons_ne_nil _ _) (depth + 1)
      fuel rest (hlayout.lineBreak depth) (by omega)
    rw [hchars, value?_array (skipSpaces_itemsChars_ne hlayout _ item items _) hitems,
      Document.ofJson]
  | .object [], depth, fuel, rest, _, hfuel => by
    obtain ⟨fuel, rfl⟩ := exists_fuel hfuel
    rfl
  | .object (member :: members), depth, fuel, rest, _, hfuel => by
    have hchars : (chars layout depth (.object (member :: members))).map some ++ rest =
        some '{' :: ((membersChars layout (depth + 1) (member :: members)).map some ++
          ((layout.lineBreak depth).map some ++ some '}' :: rest)) := by
      simp [chars]
    obtain ⟨fuel, rfl⟩ := exists_fuel hfuel
    simp only [chars, List.length_append, List.length_cons] at hfuel
    have hmembers := members?_membersChars hlayout (member :: members) (List.cons_ne_nil _ _)
      (depth + 1) fuel rest (hlayout.lineBreak depth) (by omega)
    have hopen : ∀ rest', skipSpaces ((membersChars layout (depth + 1) (member :: members)).map
        some ++ ((layout.lineBreak depth).map some ++ some '}' :: rest)) ≠ some '}' :: rest' := by
      intro rest'
      obtain ⟨tail, htail⟩ := skipSpaces_membersChars hlayout (depth + 1) member members
        ((layout.lineBreak depth).map some ++ some '}' :: rest)
      rw [htail]
      intro heq
      exact absurd (Option.some.inj (List.cons.inj heq).1) (by decide)
    rw [hchars, value?_object hopen hmembers, Document.ofJson]

/-- The items of an array are read up to its closing bracket. -/
theorem items?_itemsChars (hlayout : layout.IsSpaced) : (items : List Json) → items ≠ [] →
    ∀ (depth fuel : Nat) {closing : List Char} (rest : List Symbol),
      (∀ c ∈ closing, isSpace (some c) = true) →
      2 * (itemsChars layout depth items).length + 1 ≤ fuel →
        items? fuel ((itemsChars layout depth items).map some ++
          (closing.map some ++ some ']' :: rest)) = some (Document.ofItems items, rest)
  | [], hne, _, _, _, _, _, _ => absurd rfl hne
  | [item], _, depth, fuel, closing, rest, hclosing, hfuel => by
    obtain ⟨fuel, rfl⟩ := Nat.exists_eq_add_one.mpr (by omega : 0 < fuel)
    rw [itemsChars, List.length_append] at hfuel
    have hends : EndsNumeral (closing.map some ++ some ']' :: rest) :=
      endsNumeral_append hclosing (endsNumeral_cons.mpr (by decide))
    have hvalue := value?_chars hlayout item depth fuel hends (by omega)
    rw [itemsChars, List.map_append, List.append_assoc]
    refine items?_last ((value?_append (hlayout.lineBreak depth) _ _).trans hvalue) ?_
    rw [skipSpaces_append hclosing, skipSpaces_cons (by decide)]
  | item :: second :: items, _, depth, fuel, closing, rest, hclosing, hfuel => by
    obtain ⟨fuel, rfl⟩ := Nat.exists_eq_add_one.mpr (by omega : 0 < fuel)
    rw [itemsChars_cons_cons, List.length_append, List.length_append, List.length_cons] at hfuel
    have hends : EndsNumeral (some ',' :: ((itemsChars layout depth (second :: items)).map some ++
        (closing.map some ++ some ']' :: rest))) := endsNumeral_cons.mpr (by decide)
    have hvalue := value?_chars hlayout item depth fuel hends (by omega)
    have hitems := items?_itemsChars hlayout (second :: items) (List.cons_ne_nil _ _) depth
      fuel rest hclosing (by omega)
    rw [itemsChars_cons_cons, List.map_append, List.map_append, List.append_assoc,
      List.append_assoc]
    exact items?_cons ((value?_append (hlayout.lineBreak depth) _ _).trans hvalue) hitems

/-- The members of an object are read up to its closing brace. -/
theorem members?_membersChars (hlayout : layout.IsSpaced) : (members : List (String × Json)) →
    members ≠ [] →
    ∀ (depth fuel : Nat) {closing : List Char} (rest : List Symbol),
      (∀ c ∈ closing, isSpace (some c) = true) →
      2 * (membersChars layout depth members).length + 1 ≤ fuel →
        members? fuel ((membersChars layout depth members).map some ++
          (closing.map some ++ some '}' :: rest)) = some (Document.ofMembers members, rest)
  | [], hne, _, _, _, _, _, _ => absurd rfl hne
  | [(name, value)], _, depth, fuel, closing, rest, hclosing, hfuel => by
    obtain ⟨fuel, rfl⟩ := Nat.exists_eq_add_one.mpr (by omega : 0 < fuel)
    rw [membersChars, List.length_append] at hfuel
    have hends : EndsNumeral (closing.map some ++ some '}' :: rest) :=
      endsNumeral_append hclosing (endsNumeral_cons.mpr (by decide))
    have hvalue := value?_chars hlayout value depth fuel hends (by omega)
    -- The colon may have spaces behind it, which the reader of the value skips.
    obtain ⟨spaces, hspaces, text, htext, hname⟩ := textBody?_name hlayout name
      ((value.chars layout depth).map some ++ (closing.map some ++ some '}' :: rest))
    have hchars : (membersChars layout depth [(name, value)]).map some ++
        (closing.map some ++ some '}' :: rest) =
          (layout.lineBreak depth).map some ++ some '"' :: text := by
      rw [← htext]
      simp [membersChars]
    have hquote : skipSpaces ((layout.lineBreak depth).map some ++ some '"' :: text) =
        some '"' :: text := by
      rw [skipSpaces_append (hlayout.lineBreak depth), skipSpaces_cons (by decide)]
    rw [hchars]
    refine members?_last hquote hname ((value?_append hspaces _ _).trans hvalue) ?_
    rw [skipSpaces_append hclosing, skipSpaces_cons (by decide)]
  | (name, value) :: second :: members, _, depth, fuel, closing, rest, hclosing, hfuel => by
    obtain ⟨fuel, rfl⟩ := Nat.exists_eq_add_one.mpr (by omega : 0 < fuel)
    rw [membersChars_cons_cons, List.length_append, List.length_append, List.length_cons] at hfuel
    let behind := some ',' :: ((membersChars layout depth (second :: members)).map some ++
      (closing.map some ++ some '}' :: rest))
    have hends : EndsNumeral behind := endsNumeral_cons.mpr (by decide)
    have hvalue := value?_chars hlayout value depth fuel hends (by omega)
    have hmembers := members?_membersChars hlayout (second :: members) (List.cons_ne_nil _ _)
      depth fuel rest hclosing (by omega)
    obtain ⟨spaces, hspaces, text, htext, hname⟩ := textBody?_name hlayout name
      ((value.chars layout depth).map some ++ behind)
    have hchars : (membersChars layout depth ((name, value) :: second :: members)).map some ++
        (closing.map some ++ some '}' :: rest) =
          (layout.lineBreak depth).map some ++ some '"' :: text := by
      rw [← htext, membersChars_cons_cons]
      simp [behind]
    have hquote : skipSpaces ((layout.lineBreak depth).map some ++ some '"' :: text) =
        some '"' :: text := by
      rw [skipSpaces_append (hlayout.lineBreak depth), skipSpaces_cons (by decide)]
    rw [hchars]
    exact members?_cons hquote hname ((value?_append hspaces _ _).trans hvalue) hmembers

end

/-- The bytes of the text of a value, with spaces behind it, spell its document. -/
theorem Document.ofBytes?_text (hlayout : layout.IsSpaced) (json : Json)
    {suffix : String} (hsuffix : ∀ c ∈ suffix.toList, isSpace (some c) = true) :
    ofBytes? (json.text layout ++ suffix).toUTF8 = some (ofJson json) := by
  have hsymbols : Text.symbols (json.text layout ++ suffix).toUTF8 =
      (json.chars layout 0).map some ++ suffix.toList.map some := by
    rw [String.toUTF8_eq_toByteArray, Text.symbols_toByteArray, String.toList_append, text,
      String.toList_ofList, List.map_append]
  have hends : EndsNumeral (suffix.toList.map some) := by
    have := endsNumeral_append hsuffix endsNumeral_nil
    rwa [List.append_nil] at this
  have hrest : skipSpaces (suffix.toList.map some) = [] := by
    have := skipSpaces_append hsuffix []
    rwa [List.append_nil] at this
  rw [ofBytes?, hsymbols, ofSymbols?, value?_chars hlayout json 0 _ hends]
  · simp only [hrest, List.isEmpty_nil, if_true]
  · rw [List.length_append, List.length_map]
    omega

end Layouts

end Json

end Runbook
