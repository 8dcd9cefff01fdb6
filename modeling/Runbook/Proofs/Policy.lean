import Runbook.Name
import Runbook.Policy

/-!
# Inverses in policies

Every inverse that a policy gives stands in one of its lists. So what holds of the entries of the
standard policy holds of all inverses that it gives.
-/

namespace Runbook.Policy

/-- An inverse is one for the action on the entity or one for the action. -/
theorem mem_of_inverse? {p : Policy} {action entity : String} {inverse : Inverse}
    (h : p.inverse? action entity = some inverse) :
    ((action, entity), inverse) ∈ p.special ∨ (action, inverse) ∈ p.general := by
  rw [inverse?] at h
  split at h
  next found hfound =>
    obtain ⟨before, after, hsplit, -⟩ := List.lookup_eq_some_iff.mp (hfound.trans h)
    exact .inl (by simp [hsplit])
  next =>
    obtain ⟨before, after, hsplit, -⟩ := List.lookup_eq_some_iff.mp h
    exact .inr (by simp [hsplit])

/-- The inverses of the standard policy are words for actions. -/
theorem isActionWord_of_standard {action entity : String} {inverse : Inverse}
    (h : standard.inverse? action entity = some inverse) :
    Name.isActionWord inverse.action.toList = true := by
  have hspecial : ∀ entry ∈ standard.special,
      Name.isActionWord entry.2.action.toList = true := by decide
  have hgeneral : ∀ entry ∈ standard.general,
      Name.isActionWord entry.2.action.toList = true := by decide
  rcases mem_of_inverse? h with hmem | hmem
  · exact hspecial _ hmem
  · exact hgeneral _ hmem

/-- Only the inverses of creations need the result in the standard policy. -/
theorem eq_create_of_standard {action entity : String} {inverse : Inverse}
    (h : standard.inverse? action entity = some inverse) (hcarry : inverse.carry = .result) :
    action = "create" := by
  have hspecial : ∀ entry ∈ standard.special, entry.2.carry ≠ .result := by decide
  have hgeneral : ∀ entry ∈ standard.general, entry.2.carry = .result → entry.1 = "create" := by
    decide
  rcases mem_of_inverse? h with hmem | hmem
  · exact absurd hcarry (hspecial _ hmem)
  · exact hgeneral _ hmem hcarry

/-- Only the inverses of creations delete in the standard policy. -/
theorem eq_create_of_delete {action entity : String} {inverse : Inverse}
    (h : standard.inverse? action entity = some inverse) (hdelete : inverse.action = "delete") :
    action = "create" := by
  have hspecial : ∀ entry ∈ standard.special, entry.1.1 = "create" := by decide
  have hgeneral : ∀ entry ∈ standard.general, entry.2.action = "delete" → entry.1 = "create" := by
    decide
  rcases mem_of_inverse? h with hmem | hmem
  · exact hspecial _ hmem
  · exact hgeneral _ hmem hdelete

/-- What is created is deleted by its result in the standard policy, unless it is a tag. -/
theorem inverse?_create {entity : String} (h : entity ≠ "tag") :
    standard.inverse? "create" entity = some ⟨"delete", .result⟩ := by
  have hspecial : standard.special.lookup ("create", entity) = none :=
    List.lookup_eq_none_iff.mpr <| List.forall_mem_singleton.mpr <|
      bne_iff_ne.mpr fun hsame => h (Prod.mk.inj hsame).2
  rw [inverse?, hspecial]
  rfl

end Runbook.Policy
