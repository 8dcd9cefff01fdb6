import Runbook.Proofs.Number.ReadBack
import Runbook.Proofs.Template.RoundTrip

/-!
# The canonical text of a template that was read

A template that was read can be written and read again. It comes back unchanged exactly if each of
its double-precision numbers reads back from its shortest text, which not all of them do: the two
texts of some pairs of neighbours are each read as the other one.

## Main results

* `Template.reread_eq_self_iff`: a template is read as itself if and only if its numbers read back;
* `Template.canonical_text_read`: the canonical text of a template that was read is read, as the
  template itself under that condition, which numbers of few digits in a moderate range meet;
* `Template.canonical_text_alternates`: without it the canonical text need not be one.
-/

namespace Runbook

namespace Literal

/-- A word stands for a number if and only if it spells the number. -/
theorem ofWord_eq_number_iff {word : List Char} {n : Number} :
    ofWord word = .number n ↔ Number.ofChars? word = some n := by
  refine ⟨fun h => ?_, ofWord_of_ofChars?⟩
  rw [ofWord] at h
  split at h
  · cases h
  · split at h
    · cases h
    · split at h
      next n' hn =>
        rw [hn, (Literal.number.inj h)]
      next => cases h

mutual

/-- The double-precision numbers of a literal that is read as itself read back. -/
theorem readsBack_of_reread_eq_self :
    (l : Literal) → l.reread = l → ∀ x ∈ l.floats, x.ReadsBack
  | .text _, _ => fun _ hx => absurd hx List.not_mem_nil
  | .flag _, _ => fun _ hx => absurd hx List.not_mem_nil
  | .number (.integer ..), _ => fun _ hx => absurd hx List.not_mem_nil
  | .number (.float x), h => List.forall_mem_singleton.mpr (ofWord_eq_number_iff.mp h)
  | .list items, h => by
    rw [reread] at h
    exact readsBack_of_rereadItems_eq_self items (Literal.list.inj h)

/-- The double-precision numbers of items that are read as themselves read back. -/
theorem readsBack_of_rereadItems_eq_self :
    (items : List Literal) → rereadItems items = items → ∀ x ∈ itemsFloats items, x.ReadsBack
  | [], _ => fun _ hx => absurd hx List.not_mem_nil
  | item :: rest, h => by
    rw [rereadItems] at h
    obtain ⟨hitem, hrest⟩ := List.cons.inj h
    rw [itemsFloats, List.forall_mem_append]
    exact ⟨readsBack_of_reread_eq_self item hitem, readsBack_of_rereadItems_eq_self rest hrest⟩

end

end Literal

/-- A value is read as itself if and only if its double-precision numbers read back. -/
theorem Value.reread_eq_self_iff {v : Value} : v.reread = v ↔ ∀ x ∈ v.floats, x.ReadsBack := by
  refine ⟨fun h => ?_, reread_eq_self⟩
  cases v with
  | literal l => exact l.readsBack_of_reread_eq_self (Value.literal.inj h)
  | reference name => exact fun _ hx => absurd hx List.not_mem_nil
  | hole name => exact fun _ hx => absurd hx List.not_mem_nil

/-- A command that has not run is read as itself if and only if its double-precision numbers read
back. -/
theorem Command.reread_eq_self_iff {c : Command} (hpending : c.outcome = .pending) :
    c.reread = c ↔ ∀ x ∈ c.floats, x.ReadsBack := by
  refine ⟨fun h => ?_, reread_eq_self hpending⟩
  have hparameters : (c.parameters.map Value.reread).values = c.parameters.values :=
    congrArg (fun c => c.parameters.values) h
  rw [OrderedMap.values_map] at hparameters
  intro x hx
  obtain ⟨v, hv, hx⟩ := List.mem_flatMap.mp hx
  have hvalue : v.reread = id v :=
    List.map_inj_left.mp (hparameters.trans (List.map_id _).symm) v hv
  exact Value.reread_eq_self_iff.mp hvalue x hx

namespace Template

/-- A template that has not run is read as itself if and only if its double-precision numbers read
back. -/
theorem reread_eq_self_iff {t : Template}
    (hpending : ∀ s ∈ t.statements, s.command.outcome = .pending) :
    t.reread = t ↔ ∀ c ∈ t.commands, ∀ x ∈ c.floats, x.ReadsBack := by
  rw [commands, List.forall_mem_map]
  refine ⟨fun h s hs => ?_, reread_eq_self hpending⟩
  have hstatements : t.statements.map Statement.reread = t.statements :=
    congrArg Template.statements h
  have hstatement : s.reread = id s :=
    List.map_inj_left.mp (hstatements.trans (List.map_id _).symm) s hs
  exact (Command.reread_eq_self_iff (hpending s hs)).mp (congrArg Statement.command hstatement)

/-- The canonical text of a template that was read is always read. What is read is the template
with every number read anew, so it is the template itself, with the same canonical text, if and only
if each double-precision number in it is read from its shortest text as itself. This is so for
numbers that were read from numerals of at most fifteen digits in a moderate range. -/
theorem canonical_text_read {text : String} {t : Template} (h : ofText text = .ok t) :
    ofText t.text = .ok t.reread ∧
      (ofText t.text = .ok t ↔ ∀ c ∈ t.commands, ∀ x ∈ c.floats, x.ReadsBack) ∧
      ((∀ c ∈ t.commands, ∀ x ∈ c.floats, x.IsModerate) → ofText t.text = .ok t) := by
  have hread := forall_of_ofText (fun _ _ => Statement.isWellFormed_of_ofText) h
  have hreread : ofText t.text = .ok t.reread :=
    ofText_text (fun s hs => (hread s hs).1) (isScoped_of_ofText h)
  have hself : ofText t.text = .ok t ↔ ∀ c ∈ t.commands, ∀ x ∈ c.floats, x.ReadsBack := by
    rw [hreread, Except.ok.injEq]
    exact reread_eq_self_iff fun s hs => (hread s hs).2
  exact ⟨hreread, hself, fun hfloats =>
    hself.mpr fun c hc x hx => (hfloats c hc x hx).readsBack⟩

/-- Numbers that are not canonical are read as those of the canonical text, which is read as the
same template. -/
theorem canonical_text_read_network :
    ∃ t, ofText "# nets\n\n net= create  vpc cost=0.150E1 size=-0\nattach gate to=$net" = .ok t ∧
      t.text = "net = create vpc cost=1.5 size=-0.0\nattach gate to=$net\n" ∧
      ofText t.text = .ok t := by
  have hread : ofText "# nets\n\n net= create  vpc cost=0.150E1 size=-0\nattach gate to=$net" =
      .ok ⟨[⟨some "net", .new "create" "vpc" (.ofList
        [("cost", .literal (.number (.float ⟨false, ⟨0x18000000000000, -52⟩⟩))),
          ("size", .literal (.number (.float ⟨true, .zero⟩)))])⟩,
        ⟨none, .new "attach" "gate" (.ofList [("to", .reference "net")])⟩]⟩ := by
    decide +kernel
  have hcost : Binary64.IsModerate ⟨false, ⟨0x18000000000000, -52⟩⟩ :=
    ⟨⟨false, ['0'], ['1', '5', '0'], some (false, ['1'])⟩,
      ⟨by decide, .inr (by decide +kernel)⟩, by decide +kernel⟩
  have hsize : Binary64.IsModerate ⟨true, .zero⟩ :=
    ⟨⟨true, ['0'], [], none⟩, ⟨by decide, .inl rfl⟩, by decide +kernel⟩
  refine ⟨_, hread, by decide +kernel, (canonical_text_read hread).2.2 fun c hc x hx => ?_⟩
  rcases List.mem_pair.mp hc with rfl | rfl
  · rcases List.mem_pair.mp hx with rfl | rfl
    · exact hcost
    · exact hsize
  · cases hx

/-- A template with one number, nearly a quadrillionth of a billionth. -/
private def volume (significand : Nat) : Template :=
  .ofCommands [.new "create" "volume"
    (.ofList [("size", .literal (.number (.float ⟨false, ⟨significand, -132⟩⟩)))])]

/-- Every canonical text of a template is one of the others. -/
theorem canonical_text_alternates :
    ofText "create volume size=1e-24" = .ok (volume 5444517870735016) ∧
      (volume 5444517870735016).text = "create volume size=1.0000000000000001e-24\n" ∧
      ofText (volume 5444517870735016).text = .ok (volume 5444517870735015) ∧
      (volume 5444517870735015).text = "create volume size=1e-24\n" ∧
      ofText (volume 5444517870735015).text = .ok (volume 5444517870735016) ∧
      volume 5444517870735015 ≠ volume 5444517870735016 := by
  decide +kernel

end Template

end Runbook
