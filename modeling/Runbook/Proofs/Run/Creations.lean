import Mathlib.Data.List.Nodup
import Runbook.Proofs.Policy
import Runbook.Proofs.Reversal.Criterion
import Runbook.Proofs.Reversal.Reload
import Runbook.Proofs.Run.Simulation

/-!
# What simulated runs create

A simulated run numbers what it creates. Creations that fail do not count, whether they reach the
runner or not, so the numbers are those from one on without gaps. The number can be read from the
end of the name, as it stands behind a character that is no digit; so no two creations have one
name, whatever their entities are called.

## Main definitions

* `Simulation.IsSerial`: a text is a number with at least four digits;
* `Template.creations`: the commands that created something;
* `Template.deletions`: the commands that delete something other than a tag.

## Main results

* `Simulation.eq_of_names_eq`: names tell the numbers apart;
* `Simulation.outcome_of_creations`: what a simulated run creates is numbered in order;
* `Template.deletions_of_reversed`: the deletions of a reversal undo the creations one by one;
* `Execution.creations_never_collide`: what is created has names of its own, and reversals delete
  each one once.
-/

namespace Runbook

namespace Command

/-- Whether a command created something. -/
def hasCreated (c : Command) : Bool :=
  c.action == "create" && c.outcome.succeeded

/-- Whether a command deletes something other than a tag, which has no name of its own. -/
def deletes (c : Command) : Bool :=
  c.action == "delete" && c.entity != "tag"

end Command

namespace Template

/-- The commands that created something, in order. -/
def creations (t : Template) : List Command :=
  t.commands.filter Command.hasCreated

/-- The commands that delete something other than a tag, in order. -/
def deletions (t : Template) : List Command :=
  t.commands.filter Command.deletes

/-- Commands that have not run created nothing. -/
theorem creations_of_pending {statements : List Statement}
    (h : ∀ s ∈ statements, s.command.outcome = .pending) : creations ⟨statements⟩ = [] := by
  refine List.filter_eq_nil_iff.mpr fun c hc => ?_
  obtain ⟨s, hs, rfl⟩ := List.mem_map.mp hc
  simp [Command.hasCreated, h s hs, Outcome.pending, Outcome.succeeded, Outcome.hasRun]

end Template

/-- The creations of a run are those of its first step and those of the rest. -/
theorem Run.creations_cons {σ : Type} (step : Step) (rest : Run σ) :
    (Run.cons step rest).template.creations =
      if step.statement.command.hasCreated then
        step.statement.command :: rest.template.creations
      else rest.template.creations :=
  List.filter_cons

namespace Simulation

/-! ## Names -/

/-- A text is a number in decimal, with zeros in front up to four digits. -/
structure IsSerial (text : String) (n : Nat) : Prop where
  /-- The characters are digits. -/
  digits : ∀ c ∈ text.toList, c.isDigit = true
  /-- The digits are those of the number. -/
  value : Nat.ofDigitChars 10 text.toList 0 = n
  /-- There are at least four of them. -/
  four : 4 ≤ text.toList.length
  /-- Where there are more, the first one is no zero. -/
  leading : 4 < text.toList.length → text.toList.head? ≠ some '0'

/-- A number is padded to at least four digits. -/
theorem isSerial_padded (n : Nat) : IsSerial (padded n) n := by
  have hpadded : (padded n).toList =
      List.replicate (4 - (Nat.toDigits 10 n).length) '0' ++ Nat.toDigits 10 n := by
    rw [padded, String.toList_ofList]
  constructor <;> rw [hpadded]
  case digits =>
    intro c hc
    rcases List.mem_append.mp hc with hzero | hdigit
    · rw [List.eq_of_mem_replicate hzero]
      rfl
    · exact isDigit_of_mem_toDigits hdigit
  case value =>
    rw [Nat.ofDigitChars_append, Nat.ofDigitChars_replicate_zero, Nat.mul_zero,
      Nat.ofDigitChars_ten_toDigits]
  case four =>
    rw [List.length_append, List.length_replicate]
    omega
  case leading =>
    -- There are no zeros in front of more than four digits.
    intro hlength
    rw [List.length_append, List.length_replicate] at hlength
    have hzeros : 4 - (Nat.toDigits 10 n).length = 0 := by omega
    rw [hzeros, List.replicate_zero, List.nil_append]
    intro hhead
    obtain ⟨others, hothers⟩ := List.head?_eq_some_iff.mp hhead
    rw [eq_nil_of_toDigits_eq_cons hothers] at hothers
    rw [hothers] at hlength
    simp at hlength

/-- The digits at the end of a name are those of the number. -/
theorem takeWhile_reverse_name (entity : String) {serial : String} {n : Nat}
    (h : IsSerial serial n) :
    (entity ++ "-sim-" ++ serial).toList.reverse.takeWhile Char.isDigit =
      serial.toList.reverse := by
  -- Seen from the end, the dash comes behind the digits, whatever is in front of it.
  have hname : (entity ++ "-sim-" ++ serial).toList.reverse =
      serial.toList.reverse ++ '-' :: (entity ++ "-sim").toList.reverse := by
    simp
  rw [hname, List.takeWhile_append_of_pos fun c hc => h.digits c (List.mem_reverse.mp hc),
    List.takeWhile_cons_of_neg (by decide), List.append_nil]

/-- Things that have one name have one number, whatever they are. -/
theorem eq_of_names_eq {entity other serial serial' : String} {n n' : Nat}
    (h : IsSerial serial n) (h' : IsSerial serial' n')
    (hnames : entity ++ "-sim-" ++ serial = other ++ "-sim-" ++ serial') : n = n' := by
  have hreverse : serial.toList.reverse = serial'.toList.reverse := by
    rw [← takeWhile_reverse_name entity h, ← takeWhile_reverse_name other h', hnames]
  calc
    n = Nat.ofDigitChars 10 serial.toList 0 := h.value.symm
    _ = Nat.ofDigitChars 10 serial'.toList 0 := by rw [List.reverse_injective hreverse]
    _ = n' := h'.value

/-! ## Runs -/

variable {failures : OrderedMap String} {stopOnError : Bool}

/-- The runner creates the next thing and counts it, or it counts nothing, and then it refused if it
was to create. -/
theorem runner_cases (failures : OrderedMap String) (call : Call) (count : Nat) :
    (call.action = "create" ∧ runner failures call count =
      (.ok (.string (created call.entity (count + 1))), count + 1)) ∨
    ((call.action = "create" → ∃ causes, (runner failures call count).1 = .error causes) ∧
      (runner failures call count).2 = count) := by
  rw [runner]
  split
  next message _ => exact .inr ⟨fun _ => ⟨[message], rfl⟩, rfl⟩
  next =>
    split
    next hcreate => exact .inl ⟨hcreate, rfl⟩
    next hother =>
      refine .inr ⟨fun hcreate => absurd hcreate hother, ?_⟩
      split <;> rfl

/-- An attempt creates the next thing, which is counted, or it creates nothing and the count
stays. -/
theorem attempt_cases (failures : OrderedMap String) (scope : Scope) (count : Nat) (c : Command) :
    let attempt := c.attempt (runner failures) scope count
    ((c.withOutcome attempt.outcome).hasCreated = true ∧ attempt.state = count + 1 ∧
      attempt.outcome = .success (.string (created c.entity (count + 1)))) ∨
    ((c.withOutcome attempt.outcome).hasCreated = false ∧ attempt.state = count) := by
  intro attempt
  have hcreated : (c.withOutcome attempt.outcome).hasCreated =
      (c.action == "create" && attempt.outcome.succeeded) := rfl
  rw [hcreated]
  cases harguments : scope.arguments c with
  | error e =>
    have hattempt : attempt = ⟨.failure e.message, none, count⟩ := by
      simp only [attempt, Command.attempt, harguments]
    rw [hattempt]
    exact .inr ⟨Bool.and_false _, rfl⟩
  | ok arguments =>
    have hattempt : attempt =
        ⟨.ofAnswer (runner failures ⟨c.action, c.entity, arguments⟩ count).1,
          some ⟨c.action, c.entity, arguments⟩,
          (runner failures ⟨c.action, c.entity, arguments⟩ count).2⟩ := by
      simp only [attempt, Command.attempt, harguments]
    rw [hattempt]
    rcases runner_cases failures ⟨c.action, c.entity, arguments⟩ count with
      ⟨hcreate, hrunner⟩ | ⟨hrefused, hcount⟩
    · rw [hrunner]
      have haction : (c.action == "create") = true := beq_iff_eq.mpr hcreate
      exact .inl ⟨by rw [haction]; rfl, rfl, rfl⟩
    -- Nothing is counted if the runner refuses to create or is asked for something else.
    · refine .inr ⟨?_, hcount⟩
      by_cases hcreate : c.action = "create"
      · obtain ⟨causes, hcauses⟩ := hrefused hcreate
        rw [hcauses]
        exact Bool.and_false _
      · rw [beq_false_of_ne hcreate, Bool.false_and]

/-- The creations of a simulated run are numbered in order, on from what was counted before. -/
theorem outcome_of_creations {scope : Scope} {count : Nat} {statements : List Statement}
    (hpending : ∀ s ∈ statements, s.command.outcome = .pending) {k : Nat} {c : Command}
    (hc : (Run.ofStatements (runner failures) stopOnError scope count
      statements).template.creations[k]? = some c) :
    c.outcome = .success (.string (created c.entity (count + k + 1))) := by
  -- The number of the next creation is the state of the runner, so the induction is for every one.
  induction statements generalizing scope count k with
  | nil => cases hc
  | cons s rest ih =>
    rw [List.forall_mem_cons] at hpending
    -- Behind an early stop nothing was created, so it makes no difference here.
    obtain ⟨others, hrun, hothers⟩ : ∃ others : Run Nat,
        Run.ofStatements (runner failures) stopOnError scope count (s :: rest) =
          .cons (s.step (runner failures) scope count) others ∧
        ∀ {k}, others.template.creations[k]? = some c → c.outcome = .success (.string (created
          c.entity ((s.command.attempt (runner failures) scope count).state + k + 1))) := by
      rw [Run.ofStatements]
      split
      next =>
        refine ⟨⟨[], rest, _⟩, rfl, fun hc => ?_⟩
        cases (congrArg (·[_]?) (Template.creations_of_pending hpending.2)).symm.trans hc
      next => exact ⟨_, rfl, ih hpending.2⟩
    rw [hrun, Run.creations_cons] at hc
    rcases attempt_cases failures scope count s.command with
      ⟨hcreated, hcount, houtcome⟩ | ⟨hcreated, hcount⟩
    · rw [if_pos (show (s.step _ _ _).statement.command.hasCreated = true from hcreated)] at hc
      cases k with
      | zero =>
        cases hc
        exact houtcome
      | succ k =>
        rw [List.getElem?_cons_succ] at hc
        rw [hothers hc, hcount, Nat.add_right_comm count 1 k]
        rfl
    · rw [if_neg (show ¬(s.step _ _ _).statement.command.hasCreated = true from
        ne_true_of_eq_false hcreated)] at hc
      rw [hothers hc, hcount]

/-- No two creations of a simulated run have the same result. -/
theorem nodup_creations {scope : Scope} {count : Nat} {statements : List Statement}
    (hpending : ∀ s ∈ statements, s.command.outcome = .pending) :
    ((Run.ofStatements (runner failures) stopOnError scope count
      statements).template.creations.map (·.outcome.result)).Nodup := by
  rw [List.Nodup, List.pairwise_map, List.pairwise_iff_getElem]
  intro i j hi hj hlt hsame
  rw [outcome_of_creations hpending (List.getElem?_eq_getElem hi),
    outcome_of_creations hpending (List.getElem?_eq_getElem hj)] at hsame
  have hnames := Json.string.inj (Option.some.inj hsame)
  have hcounts := eq_of_names_eq (isSerial_padded _) (isSerial_padded _) hnames
  omega

end Simulation

/-! ## Reversals -/

/-- A command deletes what another one created: it names the result of that one, a text. -/
inductive Command.DeletesResult (c : Command) : Command → Prop
  /-- The only argument is the name. -/
  | intro {name : String} : c.outcome.result = some (.string name) →
      DeletesResult c (.new "delete" c.entity (.ofList [("id", .literal (.text name))]))

/-- What is deleted is told by the argument. -/
theorem Command.DeletesResult.eq_result {c d undo other : Command} (hc : c.DeletesResult undo)
    (hd : d.DeletesResult other)
    (hsame : undo.parameters.get? "id" = other.parameters.get? "id") :
    c.outcome.result = d.outcome.result := by
  obtain @⟨name, hname⟩ := hc
  obtain @⟨otherName, hotherName⟩ := hd
  have hvalues : some (Value.literal (.text name)) = some (.literal (.text otherName)) := hsame
  cases hvalues
  rw [hname, hotherName]

/-- Deletions of different results have different arguments. -/
theorem nodup_of_deletesResult {commands undoing : List Command}
    (h : List.Forall₂ Command.DeletesResult commands undoing)
    (hnodup : (commands.map (·.outcome.result)).Nodup) :
    (undoing.map (·.parameters.get? "id")).Nodup := by
  induction h with
  | nil => exact List.nodup_nil
  | cons hfirst hrest ih =>
    -- A later deletion with the same argument would be one of the same result.
    rw [List.map_cons, List.nodup_cons] at hnodup ⊢
    refine ⟨fun hmem => hnodup.1 ?_, ih hnodup.2⟩
    obtain ⟨other, hother, hsame⟩ := List.mem_map.mp hmem
    obtain ⟨c, hc, hdeletes⟩ := exists_of_forall₂ hrest hother
    exact hdeletes.eq_result hfirst hsame ▸ List.mem_map_of_mem hc

namespace Template

variable {t : Template} {fillers : Option Fillers}

/-- Under the standard policy a command is undone by a deletion of something other than a tag
exactly if it created something other than a tag. -/
theorem Inverts.deletes_iff {c undo : Command} (h : t.Inverts .standard fillers c undo) :
    (c.action == "create" && c.entity != "tag") = true ↔ undo.deletes = true := by
  rw [Command.deletes]
  simp only [Bool.and_eq_true_iff, beq_iff_eq, bne_iff_ne]
  cases h with
  | result hinverse =>
    have hcreate : c.action = "create" := Policy.eq_create_of_standard hinverse rfl
    refine and_congr_left fun htag => iff_of_true hcreate ?_
    rw [hcreate, Policy.inverse?_create htag] at hinverse
    cases hinverse
    rfl
  | parameters hinverse =>
    refine and_congr_left fun htag => ?_
    -- What undoes a creation of something other than a tag does not keep the parameters.
    have hother : c.action ≠ "create" := by
      intro hcreate
      rw [hcreate, Policy.inverse?_create htag] at hinverse
      cases hinverse
    exact iff_of_false hother fun hdelete => hother (Policy.eq_create_of_delete hinverse hdelete)

/-- What undoes a creation with a textual result names that result. -/
theorem Inverts.deletesResult {c undo : Command} (h : t.Inverts .standard fillers c undo)
    (hcreate : c.action = "create") (htag : c.entity ≠ "tag") {name : String}
    (hresult : c.outcome.result = some (.string name)) : c.DeletesResult undo := by
  have hpolicy := Policy.inverse?_create htag
  rw [← hcreate] at hpolicy
  cases h with
  | result hinverse hliteral =>
    cases hinverse.symm.trans hpolicy
    rename_i l _
    have hl : l = .text name := by
      cases l <;> cases hliteral.symm.trans hresult
      rfl
    rw [hl]
    exact .intro hresult
  | parameters hinverse => cases hinverse.symm.trans hpolicy

/-- The deletions of a reversal under the standard policy undo the creations of the template that
ran, tags apart, from the last one to the first. -/
theorem deletions_of_reversed {reversal : Template}
    (hnames : ∀ c ∈ t.creations, ∃ name, c.outcome.result = some (.string name))
    (h : t.reversed .standard fillers = .ok reversal) :
    List.Forall₂ Command.DeletesResult (t.creations.filter (·.entity != "tag")).reverse
      reversal.deletions := by
  -- The commands that succeeded and the reversal correspond one by one and are filtered alike.
  have hfiltered : List.Forall₂ (t.Inverts .standard fillers)
      ((t.commands.filter (·.outcome.succeeded)).reverse.filter
        fun c => c.action == "create" && c.entity != "tag") reversal.deletions :=
    List.rel_filter (fun _ _ hinverts => hinverts.deletes_iff) (inverts_of_reversed h)
  have hcreations : (t.commands.filter (·.outcome.succeeded)).reverse.filter
      (fun c => c.action == "create" && c.entity != "tag") =
        (t.creations.filter (·.entity != "tag")).reverse := by
    rw [List.filter_reverse, creations, List.filter_filter, List.filter_filter]
    refine congrArg List.reverse (List.filter_congr fun c _ => ?_)
    rw [Command.hasCreated]
    ac_rfl
  rw [hcreations] at hfiltered
  have hmem : ∀ c ∈ (t.creations.filter (·.entity != "tag")).reverse,
      c ∈ t.creations ∧ c.entity ≠ "tag" := by
    intro c hc
    obtain ⟨hcreated, htag⟩ := List.mem_filter.mp (List.mem_reverse.mp hc)
    exact ⟨hcreated, bne_iff_ne.mp htag⟩
  refine ((List.forall₂_and_left _ _).mpr ⟨hmem, hfiltered⟩).imp ?_
  rintro c undo ⟨⟨hcreated, htag⟩, hinverts⟩
  have hcreate : c.action = "create" :=
    beq_iff_eq.mp (Bool.and_eq_true_iff.mp (List.mem_filter.mp hcreated).2).1
  obtain ⟨name, hname⟩ := hnames c hcreated
  exact hinverts.deletesResult hcreate htag hname

end Template

/-! ## Executions -/

namespace Execution

/-- In a simulated run of a template that was read, whatever its commands, its fillers and the
commands that are made to fail, the results of the commands that created something are texts that
are not empty and differ from each other. In order, they are the entities with the numbers from one
on, which have at least four digits. A reversal under the standard policy has one deletion for each
of them that is no tag, from the last one to the first, and no two of these name one thing. -/
theorem creations_never_collide {e : Execution} {text : String}
    (h : Template.ofText text = .ok e.template) (failures : OrderedMap String)
    (stopOnError : Bool) :
    let ran := e.ran (Simulation.runner failures) stopOnError 0
    let creations := ran.template.creations
    (∀ k c, creations[k]? = some c → ∃ serial name, Simulation.IsSerial serial (k + 1) ∧
      name = c.entity ++ "-sim-" ++ serial ∧ name ≠ "" ∧
        c.outcome = .success (.string name)) ∧
    (creations.map (·.outcome.result)).Nodup ∧
    ∀ reversal, ran.reversed .standard = .ok reversal →
      List.Forall₂ Command.DeletesResult (creations.filter (·.entity != "tag")).reverse
          reversal.deletions ∧
        (reversal.deletions.map (·.parameters.get? "id")).Nodup := by
  intro ran creations
  have hpending : ∀ s ∈ e.template.statements, s.command.outcome = .pending :=
    Template.pending_of_ofText h
  have hnumbered : ∀ {k : Nat} {c : Command}, creations[k]? = some c → c.outcome =
      .success (.string (Simulation.created c.entity (0 + k + 1))) :=
    Simulation.outcome_of_creations hpending
  have hnodup : (creations.map (·.outcome.result)).Nodup := Simulation.nodup_creations hpending
  refine ⟨fun k c hc => ?_, hnodup, fun reversal hreversal => ?_⟩
  · have houtcome := hnumbered hc
    rw [Nat.zero_add] at houtcome
    refine ⟨_, _, Simulation.isSerial_padded (k + 1), rfl, ?_, houtcome⟩
    rw [← String.isEmpty_eq_false_iff]
    exact Simulation.isEmpty_created c.entity (k + 1)
  · have hdeletions : List.Forall₂ Command.DeletesResult
        (creations.filter (·.entity != "tag")).reverse reversal.deletions := by
      refine Template.deletions_of_reversed (fun c hc => ?_) hreversal
      obtain ⟨k, hk⟩ := List.mem_iff_getElem?.mp hc
      exact ⟨_, congrArg Outcome.result (hnumbered hk)⟩
    refine ⟨hdeletions, nodup_of_deletesResult hdeletions ?_⟩
    rw [List.map_reverse, List.nodup_reverse]
    exact hnodup.sublist (List.filter_sublist.map _)

/-- A template that creates several things: a tag, something that is called like one that is
created, and a subnet in a zone that is not given. -/
private def cluster : Execution where
  id := "01ARZ3NDEKTSV4RRFFQ69G5FAV"
  author := ""
  source := ""
  locale := ""
  profile := ""
  fillers := .empty
  template := ⟨[⟨some "net", .new "create" "vpc" .empty⟩, ⟨none, .new "create" "vm" .empty⟩,
    ⟨none, .new "create" "subnet" (.ofList [("zone", .hole "zone")])⟩,
    ⟨none, .new "create" "tag" (.ofList [("on", .reference "net")])⟩,
    ⟨none, .new "create" "vpc-sim-0001" .empty⟩]⟩

/-- That template after a run in which no machine can be created. -/
private def ranCluster : Execution :=
  cluster.ran (Simulation.runner (.ofList [("create vm", "quota")])) false 0

/-- Of the five creations three succeed, and the last of them is the third. The reversal deletes the
two that are no tags. -/
theorem creations_never_collide_cluster :
    Template.ofText ("net = create vpc\ncreate vm\ncreate subnet zone=\x7bzone\x7d\n" ++
      "create tag on=$net\ncreate vpc-sim-0001\n") = .ok cluster.template ∧
    (∃ serial name, Simulation.IsSerial serial 3 ∧ name = "vpc-sim-0001" ++ "-sim-" ++ serial ∧
      ranCluster.template.creations[2]?.map (·.outcome) = some (.success (.string name))) ∧
    (ranCluster.template.creations.map (·.outcome.result)).Nodup ∧
    ∃ reversal, ranCluster.reversed .standard = .ok reversal ∧
      reversal.text = "delete vpc-sim-0001 id=vpc-sim-0001-sim-0003\n" ++
        "delete tag on=vpc-sim-0001\n" ++ "delete vpc id=vpc-sim-0001\n" ∧
      reversal.deletions.length = 2 ∧
      (reversal.deletions.map (·.parameters.get? "id")).Nodup := by
  have htext : Template.ofText ("net = create vpc\ncreate vm\ncreate subnet zone=\x7bzone\x7d\n" ++
      "create tag on=$net\ncreate vpc-sim-0001\n") = .ok cluster.template := by
    decide +kernel
  obtain ⟨hnumbered, hnodup, hdeleted⟩ :=
    creations_never_collide htext (.ofList [("create vm", "quota")]) false
  have hreversed : ranCluster.reversed .standard = .ok (.ofCommands
      [.new "delete" "vpc-sim-0001" (.ofList [("id", .literal (.text "vpc-sim-0001-sim-0003"))]),
        .new "delete" "tag" (.ofList [("on", .literal (.text "vpc-sim-0001"))]),
        .new "delete" "vpc" (.ofList [("id", .literal (.text "vpc-sim-0001"))])]) := by
    decide +kernel
  refine ⟨htext, ?_, hnodup, _, hreversed, by decide +kernel, rfl, (hdeleted _ hreversed).2⟩
  obtain ⟨serial, name, hserial, hname, -, houtcome⟩ := hnumbered 2 _ rfl
  exact ⟨serial, name, hserial, hname, congrArg some houtcome⟩

end Execution

end Runbook
