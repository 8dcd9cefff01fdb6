import Runbook.Proofs.Record.Decoding
import Runbook.Proofs.Reversal.Inverses
import Runbook.Proofs.Run.Scoping

/-!
# What can be reversed

Whether a template that ran can be reversed is told by its commands: each of them needs an inverse,
and those that succeeded need the results that their inverses are made of. What the reversal
consists of is told command by command, and so is which command is to blame if there is none.

## Main definitions

* `Template.CameTo`: the first declaration of a name came to a literal;
* `Template.FrozenTo`: what a value of a template that ran becomes in its reversal;
* `Template.Inverts`: the command that undoes a command of a template that ran;
* `Template.HasValues`, `Template.LacksValue`: the values that the inverse of a command needs are
  there, or why they are not.

## Main results

* `Template.frozen_eq_ok_iff`: a value is frozen to what it becomes;
* `Template.exists_inverse_iff`, `Template.inverts_of_inverse`: which commands can be undone, and by
  what;
* `Template.reversed_exactly`: when a template is reversed, to what, and which command is to blame
  otherwise.
-/

namespace Runbook

namespace Template

variable (t : Template)

/-- The first declaration of a name in a template that ran has a literal for a result, whether or
not it has an error as well. -/
inductive CameTo (name : String) (l : Literal) : Prop
  /-- The statement that declares the name first has the result. -/
  | intro {before after : List Statement} {s : Statement} :
      t.statements = before ++ s :: after → s.name = some name →
      (∀ earlier ∈ before, earlier.name ≠ some name) →
      s.command.outcome.result = some l.toJson → l.isFlat = true → CameTo name l

/-- What a value of a template that ran becomes in its reversal, with the fillers if they are
given. -/
inductive FrozenTo (fillers : Option Fillers) : Value → Value → Prop
  /-- A literal stays as it is. -/
  | literal (l : Literal) : FrozenTo fillers (.literal l) (.literal l)
  /-- A reference becomes the result of its declaration. -/
  | reference {name : String} {l : Literal} :
      t.CameTo name l → FrozenTo fillers (.reference name) (.literal l)
  /-- A hole becomes its filler if there is a flat one. -/
  | filled {name : String} {given : Fillers} {l : Literal} :
      fillers = some given → given.get? name = some l → l.isFlat = true →
      FrozenTo fillers (.hole name) (.literal l)
  /-- Any other hole stays. -/
  | hole {name : String} :
      (∀ given l, fillers = some given → given.get? name = some l → l.isFlat = false) →
      FrozenTo fillers (.hole name) (.hole name)

/-- The command that undoes a command of a template that ran. It has not run itself. -/
inductive Inverts (policy : Policy) (fillers : Option Fillers) (c : Command) : Command → Prop
  /-- The inverse is applied to the result of the command. -/
  | result {action : String} {l : Literal} :
      policy.inverse? c.action c.entity = some ⟨action, .result⟩ →
      c.outcome.result = some l.toJson → l.isFlat = true →
      Inverts policy fillers c (.new action c.entity (.ofList [("id", .literal l)]))
  /-- The inverse has the parameters of the command in order, as they are frozen. -/
  | parameters {action : String} {parameters : OrderedMap Value} :
      policy.inverse? c.action c.entity = some ⟨action, .parameters⟩ →
      parameters.keys = c.parameters.keys →
      List.Forall₂ (t.FrozenTo fillers) c.parameters.values parameters.values →
      Inverts policy fillers c (.new action c.entity parameters)

/-- The values that the inverse of a command needs are there: a literal result, or one of each
declaration that the command refers to. -/
def HasValues (c : Command) : Carry → Prop
  | .result => ∃ l : Literal, c.outcome.result = some l.toJson ∧ l.isFlat = true
  | .parameters => ∀ name ∈ c.references, ∃ l, t.CameTo name l

/-- Why a value that the inverse of a command needs is not there. -/
inductive LacksValue (c : Command) : Carry → Irreversible → Prop
  /-- The command has no literal for a result. -/
  | result : (¬∃ l : Literal, c.outcome.result = some l.toJson ∧ l.isFlat = true) →
      LacksValue c .result .noResult
  /-- The command refers to a name whose declaration has none; it is the first such name. -/
  | reference {before after : List String} {name : String} :
      c.references = before ++ name :: after →
      (∀ earlier ∈ before, ∃ l, t.CameTo earlier l) → (¬∃ l, t.CameTo name l) →
      LacksValue c .parameters (.uncaptured name)

/-- If a command has an inverse, the values that it needs are there. -/
def Supplies (policy : Policy) (c : Command) : Prop :=
  ∀ inverse, policy.inverse? c.action c.entity = some inverse → t.HasValues c inverse.carry

end Template

/-! ## Values -/

/-- The literal of a result is the flat one that the result is the JSON value of. -/
theorem Outcome.resultLiteral?_eq_some_iff {o : Outcome} {l : Literal} :
    o.resultLiteral? = some l ↔ o.result = some l.toJson ∧ l.isFlat = true := by
  unfold Outcome.resultLiteral?
  rw [Option.bind_eq_some_iff]
  constructor
  · rintro ⟨json, hjson, hl⟩
    obtain ⟨hflat, rfl⟩ := Literal.ofJson?_eq_some_iff.mp hl
    exact ⟨hjson, hflat⟩
  · rintro ⟨hjson, hflat⟩
    exact ⟨l.toJson, hjson, Literal.ofJson?_toJson hflat⟩

namespace Template

variable {t : Template} {policy : Policy} {fillers : Option Fillers}

theorem cameTo_iff {name : String} {l : Literal} :
    t.CameTo name l ↔
      ((t.declaration? name).bind fun c => c.outcome.resultLiteral?) = some l := by
  unfold declaration?
  simp only [Option.bind_eq_some_iff, Option.map_eq_some_iff, Outcome.resultLiteral?_eq_some_iff,
    List.find?_eq_some_iff_append]
  constructor
  · rintro ⟨hsplit, hname, hbefore, hresult, hflat⟩
    refine ⟨_, ⟨_, ⟨by simp [hname], _, _, hsplit, fun earlier hearlier => ?_⟩, rfl⟩,
      hresult, hflat⟩
    simpa using hbefore earlier hearlier
  · rintro ⟨_, ⟨s, ⟨hname, before, after, hsplit, hbefore⟩, rfl⟩, hresult, hflat⟩
    exact .intro hsplit (by simpa using hname) (by simpa using hbefore) hresult hflat

/-- A reference is frozen to what its declaration came to. -/
theorem frozen_of_cameTo {name : String} {l : Literal} (h : t.CameTo name l) :
    t.frozen fillers (.reference name) = .ok (.literal l) := by
  rw [frozen, cameTo_iff.mp h]

/-- A reference whose declaration came to no literal cannot be frozen. -/
theorem frozen_of_not_cameTo {name : String} (h : ¬∃ l, t.CameTo name l) :
    t.frozen fillers (.reference name) = .error (.uncaptured name) := by
  have hnone : ((t.declaration? name).bind fun c => c.outcome.resultLiteral?) = none := by
    rw [Option.eq_none_iff_forall_ne_some]
    exact fun l hl => h ⟨l, cameTo_iff.mpr hl⟩
  rw [frozen, hnone]

/-- Nothing but a reference can fail to be frozen. -/
theorem frozen_eq_error_iff {v : Value} {cause : Irreversible} :
    t.frozen fillers v = .error cause ↔
      ∃ name, v = .reference name ∧ cause = .uncaptured name ∧ ¬∃ l, t.CameTo name l := by
  cases v with
  | literal l => simp [frozen]
  | reference name =>
    by_cases hname : ∃ l, t.CameTo name l
    · obtain ⟨l, hl⟩ := hname
      rw [frozen_of_cameTo hl]
      simp only [reduceCtorEq, Value.reference.injEq, false_iff, not_exists, not_and]
      rintro _ rfl -
      exact fun hnone => hnone l hl
    · rw [frozen_of_not_cameTo hname]
      constructor
      · rintro ⟨⟩
        exact ⟨name, rfl, rfl, hname⟩
      · rintro ⟨_, ⟨⟩, rfl, -⟩
        rfl
  | hole name => cases fillers <;> simp [frozen]

/-- A hole becomes its filler if there is a flat one, and stays otherwise. -/
theorem frozenTo_fill (given : Fillers) (name : String) :
    t.FrozenTo (some given) (.hole name) (given.fill name) := by
  unfold Fillers.fill
  cases hl : given.get? name with
  | none => exact .hole fun _ l hgiven hsome => by cases hgiven; cases hl.symm.trans hsome
  | some l =>
    cases hflat : l.isFlat with
    | true => simpa [hflat] using FrozenTo.filled rfl hl hflat
    | false =>
      simp only [hflat, Bool.false_eq_true, if_false]
      refine .hole fun _ other hgiven hsome => ?_
      cases hgiven
      cases hl.symm.trans hsome
      exact hflat

/-- A hole becomes one value only. -/
theorem FrozenTo.eq_fill {given : Fillers} {name : String} {w : Value}
    (h : t.FrozenTo (some given) (.hole name) w) : w = given.fill name := by
  cases h with
  | filled hgiven hl hflat =>
    cases hgiven
    exact (Fillers.fill_of_get? hl hflat).symm
  | hole hkept =>
    unfold Fillers.fill
    cases hl : given.get? name with
    | none => rfl
    | some l => simp [hkept given l rfl hl]

/-- A value is frozen to what it becomes in the reversal. -/
theorem frozen_eq_ok_iff {v w : Value} :
    t.frozen fillers v = .ok w ↔ t.FrozenTo fillers v w := by
  constructor
  · intro h
    cases v with
    | literal l =>
      cases h
      exact .literal l
    | reference name =>
      by_cases hname : ∃ l, t.CameTo name l
      · obtain ⟨l, hl⟩ := hname
        rw [frozen_of_cameTo hl] at h
        cases h
        exact .reference hl
      · rw [frozen_of_not_cameTo hname] at h
        cases h
    | hole name =>
      cases fillers with
      | none =>
        cases h
        exact .hole fun _ _ hnone => by cases hnone
      | some given =>
        cases h
        exact frozenTo_fill given name
  · intro h
    cases v with
    | literal l =>
      cases h
      rfl
    | reference name =>
      cases h with
      | reference hl => exact frozen_of_cameTo hl
    | hole name =>
      cases fillers with
      | none =>
        cases h with
        | filled hgiven => cases hgiven
        | hole => rfl
      | some given => rw [h.eq_fill, frozen]

/-- What a value is frozen to refers to nothing. -/
theorem FrozenTo.reference?_eq_none {v w : Value} (h : t.FrozenTo fillers v w) :
    w.reference? = none := by
  cases h <;> rfl

/-! ## Commands -/

section Command

variable {c : Command} {carry : Carry}

/-- The parameters of an inverse can be made if the values that it needs are there. -/
theorem exists_inverseParameters_iff :
    (∃ parameters, t.inverseParameters fillers c carry = .ok parameters) ↔
      t.HasValues c carry := by
  cases carry with
  | result =>
    unfold HasValues
    simp only [← Outcome.resultLiteral?_eq_some_iff]
    rw [inverseParameters]
    cases c.outcome.resultLiteral? <;> simp
  | parameters =>
    have htraverse : t.inverseParameters fillers c .parameters =
      c.parameters.traverse (t.frozen fillers) := rfl
    rw [htraverse]
    constructor
    · rintro ⟨parameters, hparameters⟩ name hname
      obtain ⟨w, -, hw⟩ := OrderedMap.exists_of_traverse hparameters _
        (Command.mem_references_iff.mp hname)
      cases frozen_eq_ok_iff.mp hw with
      | reference hl => exact ⟨_, hl⟩
    · intro hvalues
      apply OrderedMap.exists_traverse
      intro v hv
      -- Only a reference without a value could be in the way.
      cases hfrozen : t.frozen fillers v with
      | ok w => exact ⟨w, rfl⟩
      | error cause =>
        obtain ⟨name, rfl, -, hnone⟩ := frozen_eq_error_iff.mp hfrozen
        exact absurd (hvalues name (Command.mem_references_iff.mpr hv)) hnone

/-- Where the parameters of an inverse cannot be made, the first value that is not there is the
cause. -/
theorem lacksValue_of_inverseParameters {cause : Irreversible}
    (h : t.inverseParameters fillers c carry = .error cause) : t.LacksValue c carry cause := by
  have hnone : ¬t.HasValues c carry := by
    intro hvalues
    have hmade : ∃ parameters, t.inverseParameters fillers c carry = .ok parameters :=
      exists_inverseParameters_iff.mpr hvalues
    rw [h] at hmade
    obtain ⟨_, ⟨⟩⟩ := hmade
  cases carry with
  | result =>
    rw [inverseParameters] at h
    split at h
    · cases h
    · cases h
      exact .result hnone
  | parameters =>
    have htraverse : c.parameters.traverse (t.frozen fillers) = .error cause := h
    obtain ⟨before, key, v, after, hsplit, hbefore, hv⟩ :=
      OrderedMap.traverse_eq_error_iff.mp htraverse
    obtain ⟨name, rfl, rfl, hname⟩ := frozen_eq_error_iff.mp hv
    -- The references split where the parameters do, and those in front were all frozen.
    have hreferences : c.references =
        before.filterMap (fun entry => entry.2.reference?) ++
          name :: after.filterMap (fun entry => entry.2.reference?) := by
      simp [Command.references, OrderedMap.values, hsplit, Value.reference?, Function.comp_def]
    refine .reference hreferences (fun earlier hearlier => ?_) hname
    obtain ⟨entry, hentry, hreference⟩ := List.mem_filterMap.mp hearlier
    obtain ⟨w, hw⟩ := hbefore entry hentry
    have hfrozen := frozen_eq_ok_iff.mp hw
    cases hvalue : entry.2 with
    | reference other =>
      rw [hvalue] at hreference hfrozen
      cases hreference
      cases hfrozen with
      | reference hl => exact ⟨_, hl⟩
    | literal l => rw [hvalue] at hreference; cases hreference
    | hole other => rw [hvalue] at hreference; cases hreference

/-- A command can be undone if it has an inverse and the values that this needs are there. -/
theorem exists_inverse_iff :
    (∃ undo, t.inverse policy fillers c = .ok undo) ↔
      (∃ inverse, policy.inverse? c.action c.entity = some inverse) ∧ t.Supplies policy c := by
  simp only [inverse_eq_ok_iff]
  constructor
  · rintro ⟨undo, inverse, hinverse, parameters, hparameters, -⟩
    refine ⟨⟨inverse, hinverse⟩, fun other hother => ?_⟩
    cases hinverse.symm.trans hother
    exact exists_inverseParameters_iff.mp ⟨parameters, hparameters⟩
  · rintro ⟨⟨inverse, hinverse⟩, hvalues⟩
    have hmade : ∃ parameters, t.inverseParameters fillers c inverse.carry = .ok parameters :=
      exists_inverseParameters_iff.mpr (hvalues inverse hinverse)
    obtain ⟨parameters, hparameters⟩ := hmade
    exact ⟨_, inverse, hinverse, parameters, hparameters, rfl⟩

/-- What a command is undone by is told by its values. -/
theorem inverts_of_inverse {undo : Command} (h : t.inverse policy fillers c = .ok undo) :
    t.Inverts policy fillers c undo := by
  obtain ⟨⟨action, carry⟩, hinverse, parameters, hparameters, rfl⟩ := inverse_eq_ok_iff.mp h
  cases carry with
  | result =>
    rw [inverseParameters] at hparameters
    split at hparameters
    next l hl =>
      cases hparameters
      obtain ⟨hresult, hflat⟩ := Outcome.resultLiteral?_eq_some_iff.mp hl
      exact .result hinverse hresult hflat
    next => cases hparameters
  | parameters =>
    have htraverse : c.parameters.traverse (t.frozen fillers) = .ok parameters := hparameters
    refine .parameters hinverse (OrderedMap.keys_of_traverse htraverse) ?_
    exact (OrderedMap.forall₂_values_of_traverse htraverse).imp fun _ _ => frozen_eq_ok_iff.mp

/-- Why a command cannot be undone: it has no inverse, or a value that this needs is not there. -/
theorem exists_of_inverse_eq_error {error : ReversalError}
    (h : t.inverse policy fillers c = .error error) :
    (policy.inverse? c.action c.entity = none ∧ error = c.irreversible .noInverse) ∨
      ∃ inverse cause, policy.inverse? c.action c.entity = some inverse ∧
        t.LacksValue c inverse.carry cause ∧ error = c.irreversible cause := by
  rw [Template.inverse] at h
  split at h
  next hnone =>
    cases h
    exact .inl ⟨hnone, rfl⟩
  next inverse hinverse =>
    split at h
    next cause hcause =>
      cases h
      exact .inr ⟨inverse, cause, hinverse, lacksValue_of_inverseParameters hcause, rfl⟩
    next => cases h

/-- What undoes a command has not run and refers to nothing. -/
theorem Inverts.references_eq_nil {undo : Command} (h : t.Inverts policy fillers c undo) :
    undo.outcome = .pending ∧ undo.references = [] := by
  cases h with
  | result => exact ⟨rfl, rfl⟩
  | parameters _ _ hvalues =>
    -- Every parameter is what a value was frozen to.
    refine ⟨rfl, List.filterMap_eq_nil_iff.mpr fun w hw => ?_⟩
    obtain ⟨v, -, hfrozen⟩ := exists_of_forall₂ hvalues hw
    exact hfrozen.reference?_eq_none

end Command

/-! ## Templates -/

/-- Where commands cannot be undone in order, the first one that cannot is to blame. -/
theorem exists_of_inverses_eq_error {commands : List Command} {error : ReversalError}
    (h : t.inverses policy fillers commands = .error error) :
    ∃ before c after, commands = before ++ c :: after ∧
      (∀ earlier ∈ before, ∃ undo, t.inverse policy fillers earlier = .ok undo) ∧
      t.inverse policy fillers c = .error error := by
  induction commands with
  | nil => cases h
  | cons c rest ih =>
    rw [inverses] at h
    split at h
    next e hc =>
      cases h
      exact ⟨[], c, rest, rfl, fun _ hnone => absurd hnone List.not_mem_nil, hc⟩
    next undo hundo =>
      split at h
      next e hrest =>
        cases h
        obtain ⟨before, other, after, rfl, hbefore, hother⟩ := ih hrest
        exact ⟨c :: before, other, after, rfl,
          List.forall_mem_cons.mpr ⟨⟨undo, hundo⟩, hbefore⟩, hother⟩
      next => cases h

/-- What is first among the ones that are kept in reverse is last among those that are kept, with
only others behind it. -/
theorem exists_of_filter_reverse {α : Type} {p : α → Bool} {l before after : List α} {a : α}
    (h : l.reverse.filter p = before ++ a :: after) :
    ∃ front back, l = front ++ a :: back ∧ p a = true ∧ ∀ b ∈ back, p b = true → b ∈ before := by
  obtain ⟨start, rest, hsplit, rfl, hrest⟩ := List.filter_eq_append_iff.mp h
  obtain ⟨skipped, others, rfl, hskipped, ha, -⟩ := List.filter_eq_cons_iff.mp hrest
  refine ⟨others.reverse, skipped.reverse ++ start.reverse, ?_, ha, fun b hb hpb => ?_⟩
  · rw [← List.reverse_reverse l, hsplit]
    simp
  · rcases List.mem_append.mp hb with hmem | hmem
    · exact absurd hpb (hskipped b (List.mem_reverse.mp hmem))
    · exact List.mem_filter.mpr ⟨List.mem_reverse.mp hmem, hpb⟩

/-- Where all commands have inverses, a reversal fails at the last command that succeeded and whose
inverse lacks a value. -/
theorem exists_lacksValue_of_inverses_eq_error (hreversible : t.isReversible policy = true)
    {error : ReversalError}
    (h : t.inverses policy fillers (t.commands.reverse.filter fun c => c.outcome.succeeded) =
      .error error) :
    ∃ before c after inverse cause, t.commands = before ++ c :: after ∧
      c.outcome.succeeded = true ∧ policy.inverse? c.action c.entity = some inverse ∧
      t.LacksValue c inverse.carry cause ∧ error = c.irreversible cause ∧
      ∀ later ∈ after, later.outcome.succeeded = true → t.Supplies policy later := by
  obtain ⟨before, c, after, hsplit, hbefore, hc⟩ := exists_of_inverses_eq_error h
  obtain ⟨front, back, hcommands, hsucceeded, hback⟩ := exists_of_filter_reverse hsplit
  have hmem : c ∈ t.commands := by simp [hcommands]
  obtain ⟨inverse, hinverse⟩ := isReversible_iff.mp hreversible c hmem
  rcases exists_of_inverse_eq_error hc with ⟨hnone, -⟩ | ⟨other, cause, hother, hlacks, herror⟩
  · cases hnone.symm.trans hinverse
  · refine ⟨front, c, back, other, cause, hcommands, hsucceeded, hother, hlacks, herror, ?_⟩
    intro later hlater hran
    exact (exists_inverse_iff.mp (hbefore later (hback later hlater hran))).2

/-- A template is reversed exactly if all its commands have inverses, and those of the commands that
succeeded have the values that they need. -/
theorem exists_reversed_iff :
    (∃ reversal, t.reversed policy fillers = .ok reversal) ↔
      (∀ c ∈ t.commands, ∃ inverse, policy.inverse? c.action c.entity = some inverse) ∧
        ∀ c ∈ t.commands, c.outcome.succeeded = true → t.Supplies policy c := by
  simp only [reversed_eq_ok_iff, isReversible_iff]
  constructor
  · rintro ⟨reversal, hinverse, undoing, hundoing, -⟩
    refine ⟨hinverse, fun c hc hsucceeded => ?_⟩
    have hmem : c ∈ t.commands.reverse.filter fun c => c.outcome.succeeded :=
      List.mem_filter.mpr ⟨List.mem_reverse.mpr hc, hsucceeded⟩
    cases hundo : t.inverse policy fillers c with
    | ok undo => exact (exists_inverse_iff.mp ⟨undo, hundo⟩).2
    | error e =>
      -- One command that cannot be undone is enough for there to be no reversal.
      obtain ⟨e', herror⟩ := exists_error_of_inverses hmem hundo
      cases hundoing.symm.trans herror
  · rintro ⟨hinverse, hsupplies⟩
    -- Only those that succeeded are undone, and what these need is there.
    have hall : ∀ c ∈ t.commands.reverse.filter fun c => c.outcome.succeeded,
        ∃ undo, t.inverse policy fillers c = .ok undo := by
      intro c hc
      obtain ⟨hmem, hsucceeded⟩ := List.mem_filter.mp hc
      rw [List.mem_reverse] at hmem
      exact exists_inverse_iff.mpr ⟨hinverse c hmem, hsupplies c hmem hsucceeded⟩
    obtain ⟨undoing, hundoing⟩ := exists_inverses hall
    exact ⟨_, hinverse, undoing, hundoing, rfl⟩

/-- A reversal consists of what undoes the commands that succeeded, in reverse order. -/
theorem inverts_of_reversed {reversal : Template} (h : t.reversed policy fillers = .ok reversal) :
    List.Forall₂ (t.Inverts policy fillers)
      (t.commands.filter fun c => c.outcome.succeeded).reverse reversal.commands := by
  obtain ⟨-, undoing, hundoing, rfl⟩ := reversed_eq_ok_iff.mp h
  rw [List.filter_reverse] at hundoing
  rw [commands_ofCommands]
  exact (inverses_eq_ok_iff.mp hundoing).imp fun _ _ => inverts_of_inverse

/-- The statements of a reversal declare nothing, have not run and refer to nothing. -/
theorem bare_of_reversed {reversal : Template} (h : t.reversed policy fillers = .ok reversal) :
    ∀ s ∈ reversal.statements, s.name = none ∧ s.command.outcome = .pending ∧
      s.command.references = [] := by
  have hinverts := inverts_of_reversed h
  obtain ⟨-, undoing, -, rfl⟩ := reversed_eq_ok_iff.mp h
  rw [commands_ofCommands] at hinverts
  intro s hs
  obtain ⟨undo, hundo, rfl⟩ := List.mem_map.mp hs
  obtain ⟨c, -, hc⟩ := exists_of_forall₂ hinverts hundo
  exact ⟨rfl, hc.references_eq_nil⟩

/-- Where a template is not reversed, the first command without an inverse is to blame, or, if there
is none, the last one that succeeded and whose inverse lacks a value. -/
theorem exists_of_reversed_eq_error {error : ReversalError}
    (h : t.reversed policy fillers = .error error) :
    (∃ before c after, t.commands = before ++ c :: after ∧
      (∀ earlier ∈ before, ∃ inverse,
        policy.inverse? earlier.action earlier.entity = some inverse) ∧
      policy.inverse? c.action c.entity = none ∧ error = c.irreversible .noInverse) ∨
    ((∀ c ∈ t.commands, ∃ inverse, policy.inverse? c.action c.entity = some inverse) ∧
      ∃ before c after inverse cause, t.commands = before ++ c :: after ∧
        c.outcome.succeeded = true ∧ policy.inverse? c.action c.entity = some inverse ∧
        t.LacksValue c inverse.carry cause ∧ error = c.irreversible cause ∧
        ∀ later ∈ after, later.outcome.succeeded = true → t.Supplies policy later) := by
  rw [reversed] at h
  -- All commands are looked up before any of them is undone.
  split at h
  next c hfound =>
    cases h
    obtain ⟨hnone, before, after, hsplit, hbefore⟩ := List.find?_eq_some_iff_append.mp hfound
    refine .inl ⟨before, c, after, hsplit, fun earlier hearlier => ?_, by simpa using hnone, rfl⟩
    simpa [Option.isSome_iff_exists] using hbefore earlier hearlier
  next hfound =>
    have hreversible : t.isReversible policy = true := by
      simpa [isReversible, Option.isSome_iff_ne_none] using List.find?_eq_none.mp hfound
    cases hundoing : t.inverses policy fillers
        (t.commands.reverse.filter fun c => c.outcome.succeeded) with
    | ok undoing =>
      rw [hundoing] at h
      cases h
    | error e =>
      rw [hundoing] at h
      cases h
      exact .inr ⟨isReversible_iff.mp hreversible,
        exists_lacksValue_of_inverses_eq_error hreversible hundoing⟩

/-- What reversing a template that ran comes to. There is a reversal exactly if every command has an
inverse, also one that failed or did not run, and the inverse of every command that succeeded has
the values that it needs. The reversal then consists of the commands that undo those that succeeded,
in reverse order; they declare nothing, have not run and refer to nothing. Otherwise the first
command without an inverse is to blame, and if there is none the last command that succeeded and
whose inverse lacks a value. -/
theorem reversed_exactly (t : Template) (policy : Policy) (fillers : Option Fillers) :
    ((∃ reversal, t.reversed policy fillers = .ok reversal) ↔
      (∀ c ∈ t.commands, ∃ inverse, policy.inverse? c.action c.entity = some inverse) ∧
        ∀ c ∈ t.commands, c.outcome.succeeded = true → t.Supplies policy c) ∧
    (∀ reversal, t.reversed policy fillers = .ok reversal →
      List.Forall₂ (t.Inverts policy fillers)
          (t.commands.filter fun c => c.outcome.succeeded).reverse reversal.commands ∧
        ∀ s ∈ reversal.statements, s.name = none ∧ s.command.outcome = .pending ∧
          s.command.references = []) ∧
    ∀ error, t.reversed policy fillers = .error error →
      (∃ before c after, t.commands = before ++ c :: after ∧
        (∀ earlier ∈ before, ∃ inverse,
          policy.inverse? earlier.action earlier.entity = some inverse) ∧
        policy.inverse? c.action c.entity = none ∧ error = c.irreversible .noInverse) ∨
      ((∀ c ∈ t.commands, ∃ inverse, policy.inverse? c.action c.entity = some inverse) ∧
        ∃ before c after inverse cause, t.commands = before ++ c :: after ∧
          c.outcome.succeeded = true ∧ policy.inverse? c.action c.entity = some inverse ∧
          t.LacksValue c inverse.carry cause ∧ error = c.irreversible cause ∧
          ∀ later ∈ after, later.outcome.succeeded = true → t.Supplies policy later) :=
  ⟨exists_reversed_iff, fun _ h => ⟨inverts_of_reversed h, bare_of_reversed h⟩,
    fun _ => exists_of_reversed_eq_error⟩

end Template

end Runbook
