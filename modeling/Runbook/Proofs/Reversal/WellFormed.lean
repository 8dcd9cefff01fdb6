import Runbook.Proofs.Record.Decoding
import Runbook.Proofs.Record.Reload
import Runbook.Proofs.Reversal.Inverses
import Runbook.Proofs.Template.RoundTrip

/-!
# The text of a reversal

A reversal is made of names and values of the template that it undoes: its values are literals of
that template, results with a text form, flat fillers and holes. So a template that can be written
has reversals that can be written, and as these refer to nothing their text is read.

## Main definitions

* `Policy.IsWellFormed`: the inverses of a policy are words for actions.

## Main results

* `Template.isWellFormed_of_reversed`: the commands of a reversal can be written and refer to
  nothing;
* `Template.ofText_text_of_reversed`: the text of a reversal is read, with every number read anew.
-/

namespace Runbook

/-- The inverses that the policy gives are words for actions. -/
def Policy.IsWellFormed (p : Policy) : Prop :=
  ∀ action entity inverse, p.inverse? action entity = some inverse →
    Name.isActionWord inverse.action.toList = true

namespace Template

variable {t : Template} {fillers : Option Fillers}

/-- A value that is frozen for a reversal can be written and is no reference. -/
theorem isWellFormed_of_frozen {v w : Value} (hv : v.IsWellFormed)
    (h : t.frozen fillers v = .ok w) : w.IsWellFormed ∧ w.reference? = none := by
  cases v with
  | literal l => cases h; exact ⟨hv, rfl⟩
  | reference name =>
    rw [frozen] at h
    split at h
    next l hl =>
      cases h
      obtain ⟨c, -, hc⟩ := Option.bind_eq_some_iff.mp hl
      obtain ⟨json, -, hjson⟩ := Option.bind_eq_some_iff.mp hc
      exact ⟨Literal.isFlat_of_ofJson? hjson, rfl⟩
    next => cases h
  | hole name =>
    cases fillers with
    | none => cases h; exact ⟨hv, rfl⟩
    | some given =>
      cases h
      refine ⟨isWellFormed_executed (t := t) hv, ?_⟩
      rcases given.fill_eq name with hhole | ⟨l, hl⟩
      · rw [hhole]; rfl
      · rw [hl]; rfl

/-- The parameters of an inverse have keys, and values that can be written and refer to nothing. -/
theorem isWellFormed_of_inverseParameters {c : Command} (hc : c.IsWellFormed) {carry : Carry}
    {parameters : OrderedMap Value} (h : t.inverseParameters fillers c carry = .ok parameters) :
    (∀ key ∈ parameters.keys, Name.isKey key.toList = true) ∧
      ∀ v ∈ parameters.values, v.IsWellFormed ∧ v.reference? = none := by
  cases carry with
  | result =>
    rw [inverseParameters] at h
    split at h
    next l hl =>
      cases h
      obtain ⟨json, -, hjson⟩ := Option.bind_eq_some_iff.mp hl
      refine ⟨List.forall_mem_singleton.mpr (show Name.isKey "id".toList = true by decide), ?_⟩
      exact List.forall_mem_singleton.mpr ⟨Literal.isFlat_of_ofJson? hjson, rfl⟩
    next => cases h
  | parameters =>
    have htraverse : c.parameters.traverse (t.frozen fillers) = .ok parameters := h
    refine ⟨?_, fun w hw => ?_⟩
    · rw [OrderedMap.keys_of_traverse htraverse]
      exact hc.keys
    · obtain ⟨v, hv, hfrozen⟩ := OrderedMap.mem_of_traverse htraverse w hw
      exact isWellFormed_of_frozen (hc.values v hv) hfrozen

/-- The inverse of a well-formed command is well formed and refers to nothing. -/
theorem isWellFormed_of_inverse {policy : Policy} (hpolicy : policy.IsWellFormed) {c undo : Command}
    (hc : c.IsWellFormed) (h : t.inverse policy fillers c = .ok undo) :
    undo.IsWellFormed ∧ undo.references = [] := by
  obtain ⟨inverse, hinverse, parameters, hparameters, rfl⟩ := inverse_eq_ok_iff.mp h
  obtain ⟨hkeys, hvalues⟩ := isWellFormed_of_inverseParameters hc hparameters
  refine ⟨⟨hpolicy _ _ _ hinverse, hc.entity, hkeys, fun v hv => (hvalues v hv).1⟩, ?_⟩
  exact List.filterMap_eq_nil_iff.mpr fun v hv => (hvalues v hv).2

variable {policy : Policy} (hpolicy : policy.IsWellFormed)
  (ht : ∀ c ∈ t.commands, c.IsWellFormed) {reversal : Template}
  (h : t.reversed policy fillers = .ok reversal)

include hpolicy ht h

/-- The commands of a reversal are well formed and refer to nothing. -/
theorem isWellFormed_of_reversed :
    ∀ c ∈ reversal.commands, c.IsWellFormed ∧ c.references = [] := by
  obtain ⟨-, inverses, hinverses, rfl⟩ := reversed_eq_ok_iff.mp h
  rw [commands_ofCommands]
  intro undo hundo
  obtain ⟨c, hc, hinverse⟩ := exists_of_forall₂ (inverses_eq_ok_iff.mp hinverses) hundo
  have hmem := List.mem_reverse.mp (List.mem_of_mem_filter hc)
  exact isWellFormed_of_inverse hpolicy (ht c hmem) hinverse

/-- The text of a reversal is read, with every number read anew. -/
theorem ofText_text_of_reversed : ofText reversal.text = .ok reversal.reread := by
  have hcommands := isWellFormed_of_reversed hpolicy ht h
  obtain ⟨-, inverses, -, rfl⟩ := reversed_eq_ok_iff.mp h
  exact ofText_text_of_bare (List.forall_mem_map.mpr fun _ _ => rfl) hcommands

end Template

end Runbook
