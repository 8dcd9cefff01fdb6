import Mathlib.Data.List.Forall2
import Runbook.Reversal
import Runbook.Tally

/-!
# Reversals and their inverses

A template is reversed exactly if all its commands have inverses and all those that succeeded can
be undone; its reversal consists of what undoes these, in reverse order.

## Main results

* `Template.inverses_eq_ok_iff`: commands have inverses in order if each has one;
* `Template.reversed_eq_ok_iff`: when a template is reversed, and what its reversal is;
* `Template.reversed_map`, `Template.reversed_congr`: templates whose commands are undone alike are
  reversed alike.
-/

namespace Runbook

namespace Template

variable {t : Template} {policy : Policy} {fillers : Option Fillers}

theorem isReversible_iff :
    t.isReversible policy = true ↔
      ∀ c ∈ t.commands, ∃ inverse, policy.inverse? c.action c.entity = some inverse := by
  simp only [isReversible, List.all_eq_true, Option.isSome_iff_exists]

/-- A command is undone by the inverse of its action, with the parameters that the inverse has. -/
theorem inverse_eq_ok_iff {c undo : Command} :
    t.inverse policy fillers c = .ok undo ↔
      ∃ inverse, policy.inverse? c.action c.entity = some inverse ∧
        ∃ parameters, t.inverseParameters fillers c inverse.carry = .ok parameters ∧
          undo = .new inverse.action c.entity parameters := by
  rw [Template.inverse]
  cases policy.inverse? c.action c.entity with
  | none => simp
  | some inverse =>
    cases hparameters : t.inverseParameters fillers c inverse.carry with
    | error cause => simp [hparameters]
    | ok parameters => simp [hparameters, eq_comm]

/-- Commands have inverses in order if each of them has one. -/
theorem inverses_eq_ok_iff {commands inverses : List Command} :
    t.inverses policy fillers commands = .ok inverses ↔
      List.Forall₂ (fun c inverse => t.inverse policy fillers c = .ok inverse)
        commands inverses := by
  -- The first command that has no inverse decides, so each step looks at one command and goes on.
  induction commands generalizing inverses with
  | nil =>
    rw [Template.inverses, List.forall₂_nil_left_iff, Except.ok.injEq]
    exact eq_comm
  | cons c rest ih =>
    rw [Template.inverses, List.forall₂_cons_left_iff]
    cases t.inverse policy fillers c with
    | error e => simp
    | ok inverse =>
      cases hrest : t.inverses policy fillers rest with
      | error e =>
        simp only [reduceCtorEq, false_iff, not_exists, not_and]
        rintro _ others - hothers -
        rw [← ih, hrest] at hothers
        cases hothers
      | ok others =>
        simp only [hrest, Except.ok.injEq] at ih ⊢
        constructor
        · rintro rfl
          exact ⟨inverse, others, rfl, ih.mp rfl, rfl⟩
        · rintro ⟨_, _, rfl, hothers, rfl⟩
          rw [ih.mpr hothers]

/-- Where each command has an inverse there are inverses in order. -/
theorem exists_inverses {commands : List Command}
    (h : ∀ c ∈ commands, ∃ inverse, t.inverse policy fillers c = .ok inverse) :
    ∃ inverses, t.inverses policy fillers commands = .ok inverses := by
  induction commands with
  | nil => exact ⟨[], rfl⟩
  | cons c rest ih =>
    obtain ⟨inverse, hinverse⟩ := h c List.mem_cons_self
    obtain ⟨inverses, hinverses⟩ := ih fun c hc => h c (List.mem_cons_of_mem _ hc)
    refine ⟨inverse :: inverses, ?_⟩
    rw [Template.inverses, hinverse, hinverses]

/-- Inverses fail if one of them does. -/
theorem exists_error_of_inverses {commands : List Command} {c : Command} (hc : c ∈ commands)
    {e : ReversalError} (h : t.inverse policy fillers c = .error e) :
    ∃ e', t.inverses policy fillers commands = .error e' := by
  cases hinverses : t.inverses policy fillers commands with
  | error e' => exact ⟨e', rfl⟩
  | ok inverses =>
    -- If there were inverses the command would have one in its place.
    obtain ⟨i, hi, rfl⟩ := List.getElem_of_mem hc
    have hall := inverses_eq_ok_iff.mp hinverses
    have hinverse := hall.get hi (hall.length_eq ▸ hi)
    rw [List.get_eq_getElem, h] at hinverse
    cases hinverse

/-- A template is reversed exactly if all commands have inverses and those that succeeded can be
undone; the reversal declares nothing. -/
theorem reversed_eq_ok_iff {reversal : Template} :
    t.reversed policy fillers = .ok reversal ↔
      t.isReversible policy = true ∧ ∃ inverses,
        t.inverses policy fillers (t.commands.reverse.filter fun c => c.outcome.succeeded) =
          .ok inverses ∧ reversal = ofCommands inverses := by
  rw [reversed]
  -- Commands without an inverse are looked for before any command is undone, also among those
  -- that did not succeed.
  cases hfound : t.commands.find? fun c => (policy.inverse? c.action c.entity).isNone with
  | some c =>
    have hnone : (policy.inverse? c.action c.entity).isNone = true := by
      simpa using List.find?_some hfound
    simp only [reduceCtorEq, false_iff, not_and]
    intro hreversible
    obtain ⟨inverse, hinverse⟩ :=
      isReversible_iff.mp hreversible c (List.mem_of_find?_eq_some hfound)
    rw [hinverse] at hnone
    cases hnone
  | none =>
    have hreversible : t.isReversible policy = true := by
      simpa [isReversible, Option.isSome_iff_ne_none] using List.find?_eq_none.mp hfound
    simp only [hreversible, true_and]
    cases t.inverses policy fillers _ with
    | error e => simp [Except.map]
    | ok inverses => simp [Except.map, eq_comm]

/-- A template is not reversed if some command has no inverse. -/
theorem exists_error_of_isReversible_eq_false (h : t.isReversible policy = false) :
    ∃ error, t.reversed policy fillers = .error error := by
  cases hreversed : t.reversed policy fillers with
  | error error => exact ⟨error, rfl⟩
  | ok reversal =>
    rw [(reversed_eq_ok_iff.mp hreversed).1] at h
    cases h

/-- Inverses that are images of others, command by command, are their images in order. -/
theorem inverses_map {t' : Template} {fillers' : Option Fillers} {f g : Command → Command}
    {commands : List Command}
    (h : ∀ c ∈ commands, t'.inverse policy fillers' (f c) = (t.inverse policy fillers c).map g) :
    t'.inverses policy fillers' (commands.map f) =
      (t.inverses policy fillers commands).map (List.map g) := by
  induction commands with
  | nil => rfl
  | cons c rest ih =>
    rw [List.forall_mem_cons] at h
    rw [List.map_cons, inverses, inverses, h.1, ih h.2]
    cases t.inverse policy fillers c with
    | error e => rfl
    | ok inverse => cases t.inverses policy fillers rest <;> rfl

/-- Reversals of which the inverses are images of others, command by command, are their images;
the commands that are reversed agree in action, entity and success. -/
theorem reversed_map {t' : Template} {fillers' : Option Fillers} {f g : Command → Command}
    (hcommands : t'.commands = t.commands.map f)
    (hkind : ∀ c, (f c).action = c.action ∧ (f c).entity = c.entity ∧
      (f c).outcome.succeeded = c.outcome.succeeded)
    (h : ∀ c ∈ t.commands, c.outcome.succeeded = true →
      t'.inverse policy fillers' (f c) = (t.inverse policy fillers c).map g) :
    t'.reversed policy fillers' =
      (t.reversed policy fillers).map fun reversal => ofCommands (reversal.commands.map g) := by
  -- `f` changes neither which command is found nor which ones are undone.
  have hnone : (fun c => (policy.inverse? c.action c.entity).isNone) ∘ f =
      fun c => (policy.inverse? c.action c.entity).isNone := by
    funext c
    obtain ⟨haction, hentity, -⟩ := hkind c
    rw [Function.comp_apply, haction, hentity]
  have hsucceeded : (fun c : Command => c.outcome.succeeded) ∘ f =
      fun c => c.outcome.succeeded := by
    funext c
    exact (hkind c).2.2
  rw [reversed, reversed, hcommands, List.find?_map, hnone]
  cases hfound : t.commands.find? fun c => (policy.inverse? c.action c.entity).isNone with
  | some c =>
    obtain ⟨haction, hentity, -⟩ := hkind c
    simp only [Option.map_some, Command.irreversible, haction, hentity]
    rfl
  | none =>
    have hinverses : t'.inverses policy fillers'
        ((t.commands.reverse.filter fun c => c.outcome.succeeded).map f) =
          (t.inverses policy fillers (t.commands.reverse.filter fun c => c.outcome.succeeded)).map
            (List.map g) := by
      apply inverses_map
      intro c hc
      obtain ⟨hmem, hsucceeded⟩ := List.mem_filter.mp hc
      exact h c (List.mem_reverse.mp hmem) hsucceeded
    simp only [Option.map_none]
    rw [← List.map_reverse, List.filter_map, hsucceeded, hinverses]
    cases t.inverses policy fillers _ with
    | error e => rfl
    | ok inverses => simp [Except.map]

/-- Templates whose commands have the same inverses, command by command, are reversed to the same
template or fail with the same error. -/
theorem reversed_congr {t' : Template} {fillers' : Option Fillers} {f : Command → Command}
    (hcommands : t'.commands = t.commands.map f)
    (hkind : ∀ c, (f c).action = c.action ∧ (f c).entity = c.entity ∧
      (f c).outcome.succeeded = c.outcome.succeeded)
    (h : ∀ c ∈ t.commands, c.outcome.succeeded = true →
      t'.inverse policy fillers' (f c) = t.inverse policy fillers c) :
    t'.reversed policy fillers' = t.reversed policy fillers := by
  have hmap : t'.reversed policy fillers' = (t.reversed policy fillers).map
      fun reversal => ofCommands (reversal.commands.map fun c => c) := by
    refine reversed_map hcommands hkind fun c hc hsucceeded => ?_
    rw [h c hc hsucceeded]
    cases t.inverse policy fillers c <;> rfl
  rw [hmap]
  cases hreversed : t.reversed policy fillers with
  | error error => rfl
  | ok reversal =>
    obtain ⟨-, inverses, -, rfl⟩ := reversed_eq_ok_iff.mp hreversed
    simp [Except.map]

end Template

end Runbook
