import Runbook.Name
import Runbook.Proofs.Number.Spelling
import Runbook.Template

/-!
# Well-formed templates and what is read from their text

A template is well formed if its names are in their lexical classes and its lists hold no lists.
Every such template has a text that is read. What is read differs from the template in two ways:
outcomes are not written, and each number is read anew from its spelling, so that a
double-precision number may change.

## Main definitions

* `Command.IsWellFormed`, `Statement.IsWellFormed`: the names are names and the lists are flat;
* `Literal.floats`, `Command.floats`: the double-precision numbers that are written;
* `Literal.reread`, `Command.reread`, `Template.reread`: what is read from the canonical text.

## Main results

* `Command.reread_eq_self`: a command that has not run and whose numbers read back is read as
  itself.
-/

namespace Runbook

/-! ## Well-formed templates -/

/-- The literal can be written, or the name is one of its class. -/
def Value.IsWellFormed : Value → Prop
  | .literal l => l.isFlat = true
  | .reference name => Name.isIdentifier name.toList = true
  | .hole name => Name.isKey name.toList = true

instance : DecidablePred Value.IsWellFormed
  | .literal l => inferInstanceAs (Decidable (l.isFlat = true))
  | .reference name => inferInstanceAs (Decidable (Name.isIdentifier name.toList = true))
  | .hole name => inferInstanceAs (Decidable (Name.isKey name.toList = true))

/-- Action, entity and keys are names of their classes, and the values are well formed. -/
structure Command.IsWellFormed (c : Command) : Prop where
  /-- The action is a word for actions. -/
  action : Name.isActionWord c.action.toList = true
  /-- The entity is a word for entities. -/
  entity : Name.isActionWord c.entity.toList = true
  /-- The parameters are named by keys. -/
  keys : ∀ key ∈ c.parameters.keys, Name.isKey key.toList = true
  /-- The values can be written. -/
  values : ∀ value ∈ c.parameters.values, value.IsWellFormed

instance (c : Command) : Decidable c.IsWellFormed :=
  decidable_of_iff
    (Name.isActionWord c.action.toList = true ∧ Name.isActionWord c.entity.toList = true ∧
      (∀ key ∈ c.parameters.keys, Name.isKey key.toList = true) ∧
      ∀ value ∈ c.parameters.values, value.IsWellFormed)
    ⟨fun ⟨h₁, h₂, h₃, h₄⟩ => ⟨h₁, h₂, h₃, h₄⟩, fun h => ⟨h.action, h.entity, h.keys, h.values⟩⟩

/-- The name that is declared is an identifier, and the command is well formed. -/
structure Statement.IsWellFormed (s : Statement) : Prop where
  /-- The declared name is an identifier. -/
  name : ∀ name ∈ s.name, Name.isIdentifier name.toList = true
  /-- The command is well formed. -/
  command : s.command.IsWellFormed

instance (s : Statement) : Decidable s.IsWellFormed :=
  decidable_of_iff
    ((∀ name ∈ s.name, Name.isIdentifier name.toList = true) ∧ s.command.IsWellFormed)
    ⟨fun ⟨h₁, h₂⟩ => ⟨h₁, h₂⟩, fun h => ⟨h.name, h.command⟩⟩

/-! ## Literals read anew -/

namespace Literal

mutual

/-- The double-precision numbers in a literal. -/
def floats : Literal → List Binary64
  | .text _ | .flag _ => []
  | .number n => n.floats
  | .list items => itemsFloats items

/-- The double-precision numbers in the items of a list. -/
def itemsFloats : List Literal → List Binary64
  | [] => []
  | item :: rest => floats item ++ itemsFloats rest

end

mutual

/-- The literal with every number read anew from its text; a number out of range becomes a text. -/
def reread : Literal → Literal
  | .text s => .text s
  | .number n => ofWord n.chars
  | .flag b => .flag b
  | .list items => .list (rereadItems items)

/-- The items of a list with every number read anew. -/
def rereadItems : List Literal → List Literal
  | [] => []
  | item :: rest => reread item :: rereadItems rest

end

theorem rereadItems_eq_map (items : List Literal) : rereadItems items = items.map reread := by
  induction items with
  | nil => rfl
  | cons item rest ih => rw [rereadItems, ih, List.map_cons]

/-- A word that is a numeral in range stands for its number. -/
theorem ofWord_of_ofChars? {word : List Char} {n : Number} (h : Number.ofChars? word = some n) :
    ofWord word = .number n := by
  have htrue : word ≠ ['t', 'r', 'u', 'e'] := by
    rintro rfl
    exact absurd h (by rw [show Number.ofChars? _ = none by decide]; simp)
  have hfalse : word ≠ ['f', 'a', 'l', 's', 'e'] := by
    rintro rfl
    exact absurd h (by rw [show Number.ofChars? _ = none by decide]; simp)
  -- So neither of the words that stand for flags comes first.
  rw [ofWord, if_neg htrue, if_neg hfalse, h]

/-- A word never stands for a list. -/
theorem isList_ofWord (word : List Char) : (ofWord word).isList = false := by
  rw [ofWord]
  split
  · rfl
  · split
    · rfl
    · split <;> rfl

/-- Reading anew turns nothing into a list and no list into anything else. -/
@[simp]
theorem isList_reread (l : Literal) : l.reread.isList = l.isList := by
  cases l with
  | number n => exact isList_ofWord n.chars
  | _ => rfl

/-- A literal that is no list is flat. -/
theorem isFlat_of_isList {l : Literal} (h : l.isList = false) : l.isFlat = true := by
  cases l with
  | list items => cases h
  | _ => rfl

/-- Reading anew keeps lists of lists apart from other literals. -/
@[simp]
theorem isFlat_reread (l : Literal) : l.reread.isFlat = l.isFlat := by
  cases l with
  | number n => rw [reread, isFlat_of_isList (isList_ofWord n.chars)]; rfl
  | list items =>
    rw [reread, rereadItems_eq_map]
    simp only [isFlat, List.all_map, Function.comp_def, isList_reread]
  | _ => rfl

mutual

/-- A literal whose double-precision numbers read back is read as itself. -/
theorem reread_eq_self : (l : Literal) → (∀ x ∈ l.floats, x.ReadsBack) → l.reread = l
  | .text _, _ => rfl
  | .flag _, _ => rfl
  | .number n, h => by
    rw [reread]
    exact ofWord_of_ofChars? (Number.ofChars?_chars h)
  | .list items, h => by rw [reread, rereadItems_eq_self items h]

/-- Items whose double-precision numbers read back are read as themselves. -/
theorem rereadItems_eq_self :
    (items : List Literal) → (∀ x ∈ itemsFloats items, x.ReadsBack) → rereadItems items = items
  | [], _ => rfl
  | item :: rest, h => by
    have hitem := reread_eq_self item fun x hx => h x (List.mem_append_left _ hx)
    have hrest := rereadItems_eq_self rest fun x hx => h x (List.mem_append_right _ hx)
    rw [rereadItems, hitem, hrest]

end

end Literal

/-! ## Templates read anew -/

namespace Value

/-- The double-precision numbers in a value. -/
def floats : Value → List Binary64
  | .literal l => l.floats
  | .reference _ | .hole _ => []

/-- The value with every number read anew from its text. -/
def reread : Value → Value
  | .literal l => .literal l.reread
  | .reference name => .reference name
  | .hole name => .hole name

/-- A value that can be written can be written again after reading. -/
theorem IsWellFormed.reread {v : Value} (h : v.IsWellFormed) : v.reread.IsWellFormed := by
  cases v with
  | literal l => exact (Literal.isFlat_reread l).trans h
  | reference name => exact h
  | hole name => exact h

theorem reread_eq_self {v : Value} (h : ∀ x ∈ v.floats, x.ReadsBack) : v.reread = v := by
  cases v with
  | literal l => rw [reread, l.reread_eq_self h]
  | reference name => rfl
  | hole name => rfl

end Value

namespace Command

/-- The double-precision numbers in the parameters of a command. -/
def floats (c : Command) : List Binary64 :=
  c.parameters.values.flatMap Value.floats

/-- The command that is read from the text of a command. -/
def reread (c : Command) : Command :=
  .new c.action c.entity (c.parameters.map Value.reread)

/-- A command that can be written can be written again after reading. -/
theorem IsWellFormed.reread {c : Command} (h : c.IsWellFormed) : c.reread.IsWellFormed where
  action := h.action
  entity := h.entity
  keys := by
    show ∀ key ∈ (c.parameters.map Value.reread).keys, Name.isKey key.toList = true
    rw [OrderedMap.keys_map]
    exact h.keys
  values := by
    show ∀ value ∈ (c.parameters.map Value.reread).values, value.IsWellFormed
    rw [OrderedMap.values_map, List.forall_mem_map]
    intro v hv
    exact (h.values v hv).reread

/-- A command that has not run and whose double-precision numbers read back is read as itself. -/
theorem reread_eq_self {c : Command} (hpending : c.outcome = .pending)
    (hfloats : ∀ x ∈ c.floats, x.ReadsBack) : c.reread = c := by
  have hvalues : ∀ v ∈ c.parameters.values, v.reread = id v := fun v hv =>
    v.reread_eq_self fun x hx => hfloats x (List.mem_flatMap.mpr ⟨v, hv, hx⟩)
  have hparameters : c.parameters.map Value.reread = c.parameters :=
    (OrderedMap.map_congr hvalues).trans c.parameters.map_id
  cases c
  cases hpending
  exact congrArg (Command.mk _ _ · .pending) hparameters

end Command

namespace Statement

/-- The double-precision numbers in the parameters of a statement. -/
def floats (s : Statement) : List Binary64 :=
  s.command.floats

/-- The statement that is read from the text of a statement. -/
def reread (s : Statement) : Statement :=
  ⟨s.name, s.command.reread⟩

theorem reread_eq_self {s : Statement} (hpending : s.command.outcome = .pending)
    (hfloats : ∀ x ∈ s.floats, x.ReadsBack) : s.reread = s := by
  rw [reread, Command.reread_eq_self hpending hfloats]

end Statement

namespace Template

/-- The template that is read from the text of a template. -/
def reread (t : Template) : Template :=
  ⟨t.statements.map Statement.reread⟩

@[simp]
theorem commands_reread (t : Template) : t.reread.commands = t.commands.map Command.reread := by
  rw [reread, commands, commands, List.map_map, List.map_map]
  rfl

@[simp]
theorem reread_ofCommands (commands : List Command) :
    (ofCommands commands).reread = ofCommands (commands.map Command.reread) := by
  rw [reread, ofCommands, ofCommands, List.map_map, List.map_map]
  rfl

theorem reread_eq_self {t : Template}
    (hpending : ∀ s ∈ t.statements, s.command.outcome = .pending)
    (hfloats : ∀ s ∈ t.statements, ∀ x ∈ s.floats, x.ReadsBack) : t.reread = t := by
  have hself : ∀ s ∈ t.statements, s.reread = id s := fun s hs =>
    Statement.reread_eq_self (hpending s hs) (hfloats s hs)
  rw [reread, List.map_congr_left hself, List.map_id]

end Template

end Runbook
