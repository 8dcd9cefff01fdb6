import Runbook.CommandLine
import Runbook.Proofs.Policy
import Runbook.Proofs.Reversal.Reload
import Runbook.Proofs.Run.Simulation
import Runbook.Proofs.Store.Lawful

/-!
# Reversing simulated executions

A template that `check` calls revertible can be reversed after every simulated run of it, and no
other one can. What `revert` then prints is a template again: it undoes the commands that
succeeded, from the last one to the first, and depends on nothing but its text.

## Main definitions

* `Template.IsUndoneBy`: a template undoes what succeeded in another one.

## Main results

* `CommandLine.load_save`: an execution that was saved is loaded as reloaded;
* `Invocation.isFlat_of_simulate?`: the fillers that a command line gives are flat;
* `CommandLine.revert_simulate`: reversing after a simulation does what checking promised.
-/

namespace Runbook

/-- A template undoes what succeeded in a template that ran: it consists of bare commands with
literal values, one for each command that succeeded, from the last one to the first. -/
structure Template.IsUndoneBy (t : Template) (policy : Policy) (undoing : Template) : Prop where
  /-- No statement declares a name. -/
  bare : ∀ s ∈ undoing.statements, s.name = none
  /-- All values are literals. -/
  literal : ∀ c ∈ undoing.commands, ∀ v ∈ c.parameters.values, ∃ l, v = .literal l
  /-- Each command is that of an inverse. -/
  inverses : List.Forall₂
    (fun c undo => ∃ inverse, policy.inverse? c.action c.entity = some inverse ∧
      undo.action = inverse.action ∧ undo.entity = c.entity)
    (t.commands.reverse.filter fun c => c.outcome.succeeded) undoing.commands

namespace Command

/-- A command with literal values only refers to nothing. -/
theorem references_eq_nil {c : Command} (h : ∀ v ∈ c.parameters.values, ∃ l, v = .literal l) :
    c.references = [] := by
  rw [references, List.filterMap_eq_nil_iff]
  intro v hv
  obtain ⟨l, rfl⟩ := h v hv
  rfl

/-- The values of what undoes a command are literals if those that the command ran with are. -/
theorem literal_undone {t : Template} {fillers : Fillers} {inverse : Inverse} {c : Command}
    (h : ∀ v ∈ c.parameters.values, ∃ l, t.executed fillers v = .literal l) :
    ∀ v ∈ (c.undone t fillers inverse).parameters.values, ∃ l, v = .literal l := by
  rw [undone]
  cases inverse.carry with
  | result => exact List.forall_mem_singleton.mpr ⟨_, rfl⟩
  | parameters =>
    show ∀ v ∈ (c.parameters.map (t.executed fillers)).values, ∃ l, v = .literal l
    rw [OrderedMap.values_map, List.forall_mem_map]
    exact h

/-- What undoes a well-formed command is well formed if the action of the inverse is a word. -/
theorem isWellFormed_undone {t : Template} {fillers : Fillers} {inverse : Inverse} {c : Command}
    (hinverse : Name.isActionWord inverse.action.toList = true) (hc : c.IsWellFormed) :
    (c.undone t fillers inverse).IsWellFormed := by
  rw [undone]
  refine ⟨hinverse, hc.entity, ?_, ?_⟩
  · cases inverse.carry with
    | result => exact List.forall_mem_singleton.mpr (show Name.isKey "id".toList = true by decide)
    | parameters =>
      show ∀ key ∈ (c.parameters.map (t.executed fillers)).keys, Name.isKey key.toList = true
      rw [OrderedMap.keys_map]
      exact hc.keys
  · cases inverse.carry with
    | result => exact List.forall_mem_singleton.mpr rfl
    | parameters =>
      show ∀ v ∈ (c.parameters.map (t.executed fillers)).values, v.IsWellFormed
      rw [OrderedMap.values_map, List.forall_mem_map]
      intro v hv
      exact Template.isWellFormed_executed (hc.values v hv)

end Command

namespace Template

/-- What undoes a template still does so when its numbers are read anew. -/
theorem IsUndoneBy.reread {t undoing : Template} {policy : Policy}
    (h : t.IsUndoneBy policy undoing) : t.IsUndoneBy policy undoing.reread where
  bare := List.forall_mem_map.mpr h.bare
  literal := by
    rw [commands_reread, List.forall_mem_map]
    intro c hc
    show ∀ v ∈ (c.parameters.map Value.reread).values, ∃ l, v = .literal l
    rw [OrderedMap.values_map, List.forall_mem_map]
    intro v hv
    obtain ⟨l, rfl⟩ := h.literal c hc v hv
    exact ⟨l.reread, rfl⟩
  inverses := by
    rw [commands_reread, List.forall₂_map_right_iff]
    exact h.inverses

end Template

/-! ## Simulated executions -/

namespace CommandLine

section Simulated

variable {e : Execution} {text : String} (htext : Template.ofText text = .ok e.template)
  {stopOnError : Bool}

include htext

/-- In a simulated run everything that was created is known by a text. -/
theorem capturesTexts_simulated : (simulated e stopOnError).template.CapturesTexts .standard :=
  fun _ hc hsucceeded _ hinverse hcarry =>
    Simulation.isSome_resultText?_of_create (Template.pending_of_ofText htext) hc hsucceeded
      (Policy.eq_create_of_standard hinverse hcarry)

/-- What a simulated run captures reads back if parameters and fillers do. -/
theorem readsBack_captured (hparameters : ∀ c ∈ e.template.commands, ∀ x ∈ c.floats, x.ReadsBack)
    (hfillers : ∀ filler ∈ e.fillers.values, ∀ x ∈ filler.floats, x.ReadsBack) {name : String}
    {l : Literal} (h : (simulated e stopOnError).template.captured? name = some l) :
    ∀ x ∈ l.floats, x.ReadsBack := by
  have htexts : ∀ text, ∀ x ∈ (Literal.text text).floats, x.ReadsBack :=
    fun _ _ hx => absurd hx List.not_mem_nil
  refine Simulation.literal_of_captured? htexts (Template.pending_of_ofText htext) ?_ hfillers h
  rintro c hc _ hv l rfl x hx
  exact hparameters c hc x (List.mem_flatMap.mpr ⟨_, hv, hx⟩)

variable (stopOnError) in
/-- A simulated execution whose commands have inverses is reversed, and so is the reloaded one
with its numbers read anew. The reversal is a well-formed template that undoes what succeeded. -/
theorem exists_reversed_simulated
    (hflat : ∀ filler ∈ e.fillers.values, filler.isFlat = true)
    (hreversible : e.template.isReversible .standard = true) :
    ∃ live, (simulated e stopOnError).reversed .standard = .ok live ∧
      (simulated e stopOnError).reloaded.reversed .standard = .ok live.reread ∧
      (simulated e stopOnError).template.IsUndoneBy .standard live ∧
      ∀ c ∈ live.commands, c.IsWellFormed := by
  have hkeeps : (simulated e stopOnError).KeepsValues :=
    Execution.keepsValues_ran htext hflat _ _ _
  have htexts : (simulated e stopOnError).template.CapturesTexts .standard :=
    capturesTexts_simulated htext
  have hsame : (simulated e stopOnError).template.isReversible .standard = true :=
    (Execution.isReversible_ran _ _ _ _).trans hreversible
  obtain ⟨undone, hreversed, hall⟩ := Execution.exists_reversed hkeeps htexts hsame
  -- Each command of the reversal undoes one that succeeded.
  have hundone : ∀ u ∈ undone, u.IsWellFormed ∧ ∀ v ∈ u.parameters.values, ∃ l, v = .literal l := by
    intro u hu
    obtain ⟨i, hi, rfl⟩ := List.getElem_of_mem hu
    obtain ⟨hc, hsucceeded, inverse, hinverse, hsome⟩ := hall.get (hall.length_eq ▸ hi) hi
    rw [← List.get_eq_getElem (i := ⟨i, hi⟩), hsome]
    have hwell := Template.isWellFormed_of_mem_run htext hc
    have hkept := hkeeps _ hc hsucceeded
    exact ⟨Command.isWellFormed_undone (Policy.isActionWord_of_standard hinverse) hwell,
      Command.literal_undone fun v hv => (hkept v hv).imp fun _ => And.left⟩
  have hcommands : (Template.ofCommands undone).commands = undone := Template.commands_ofCommands _
  refine ⟨.ofCommands undone, hreversed, ?_, ⟨?_, ?_, ?_⟩, ?_⟩
  · rw [Execution.reversed_reloaded hkeeps htexts fun _ _ _ _ => rfl, hreversed]
    simp [Except.map]
  · exact List.forall_mem_map.mpr fun _ _ => rfl
  · rw [hcommands]
    intro u hu
    exact (hundone u hu).2
  · rw [hcommands]
    refine hall.imp fun c u ⟨_, _, inverse, hinverse, hu⟩ => ⟨inverse, hinverse, ?_⟩
    rw [hu]
    exact ⟨rfl, rfl⟩
  · rw [hcommands]
    intro u hu
    exact (hundone u hu).1

end Simulated

/-! ## What checking prints -/

/-- The counts that checking prints end in a line end, as the text before them does. -/
theorem getLast?_append_join_countLine {front : List Char} (hfront : front.getLast? = some '\n')
    (counts : List (String × Nat)) :
    (front ++ (String.join (counts.map countLine)).toList).getLast? = some '\n' := by
  induction counts generalizing front with
  | nil => simpa using hfront
  | cons count rest ih =>
    have hline : (front ++ (countLine count).toList).getLast? = some '\n' := by
      rw [countLine, String.toList_append, ← List.append_assoc]
      exact List.getLast?_concat
    simpa using ih hline

/-- Checking prints a last line with the word `revertible` exactly for templates whose commands
have inverses. -/
theorem suffix_checked_iff (t : Template) :
    "\nrevertible\n".toList <:+ (checked t).toList ↔ t.isReversible .standard = true := by
  have hfront : (t.text ++ "\n").toList.getLast? = some '\n' := by simp
  have hlast := getLast?_append_join_countLine hfront t.stats.entries
  rw [checked, String.toList_append, String.toList_append]
  -- All that matters of what stands in front is that it ends in a line end.
  generalize (t.text ++ "\n").toList ++ _ = front at hlast
  cases t.isReversible .standard with
  | true =>
    obtain ⟨rest, rfl⟩ := List.getLast?_eq_some_iff.mp hlast
    simp only [if_true, iff_true]
    exact ⟨rest, by simp⟩
  | false =>
    simp only [Bool.false_eq_true, if_false, iff_false]
    intro hsuffix
    -- The shorter suffix is one of the longer, but in that a blank stands before the word.
    have hshort := List.suffix_of_suffix_length_le hsuffix (List.suffix_append _ _) (by decide)
    exact absurd hshort (by decide)

/-! ## Loading what was saved -/

variable {σ : Type} [Store σ] [LawfulStore σ]

/-- An execution that a store took is loaded as reloaded. -/
theorem load_save {store : σ} {e : Execution} (hsave : (Log.save store e).1 = .ok ())
    (h : e.IsReloadable) : Log.load (Log.save store e).2 e.id = .ok e.reloaded := by
  -- Saving fails only if the store did not take the bytes.
  have hput : (Store.put store e.id e.encode).1 = .ok () := by
    change (Store.put store e.id e.encode).1.mapError _ = .ok () at hsave
    cases hresult : (Store.put store e.id e.encode).1 with
    | ok _ => rfl
    | error error =>
      rw [hresult] at hsave
      cases hsave
  rw [Log.load, Log.save, LawfulStore.get_put store e.id e.encode hput]
  simp only [Execution.decode_encode h]
  rfl

omit [Store σ] [LawfulStore σ] in
/-- The details of an execution are shown only if its identity is valid. -/
theorem exists_identity_of_details {e : Execution} {policy : Policy}
    (h : (e.details policy).error = none) : ∃ identity, Identity.parse e.id = .ok identity := by
  cases hparse : Identity.parse e.id with
  | ok identity => exact ⟨identity, rfl⟩
  | error error =>
    rw [Execution.details, Execution.creation, Execution.instant, hparse] at h
    cases h

omit [LawfulStore σ] in
/-- A simulation that succeeded read a template, ran it and saved the execution. -/
theorem exists_of_simulate {context : Context} {s : SimulationRequest} {store : σ}
    (h : (simulate context s store).1.error = none) :
    ∃ source t identity, readTemplate context s.file = .ok (source, t) ∧
      Identity.parse context.fresh.text = .ok identity ∧
      (Log.save store (simulated (started context s source t) s.stopOnError)).1 = .ok () ∧
      (simulate context s store).2 =
        (Log.save store (simulated (started context s source t) s.stopOnError)).2 := by
  rw [simulate] at h ⊢
  split at h
  next => cases h
  next source t hread =>
    dsimp only at h ⊢
    split at h
    next hnone =>
      -- After the run two things can still fail: saving, and showing the details.
      cases hsave :
          (Log.save store (simulated (started context s source t) s.stopOnError)).1 with
      | error error =>
        rw [hsave] at h
        cases h
      | ok _ =>
        rw [hsave] at h
        have hdetails :
            ((simulated (started context s source t) s.stopOnError).details .standard).error =
              none := by simpa only [Output.mapError, Option.map_eq_none_iff] using h
        obtain ⟨identity, hidentity⟩ := exists_identity_of_details hdetails
        exact ⟨source, t, identity, hread, hidentity, hsave, rfl⟩
    next => cases h

omit [Store σ] [LawfulStore σ] in
/-- The template in a file is what its text is read as. -/
theorem ofText_of_readTemplate {context : Context} {file source : String} {t : Template}
    (h : readTemplate context file = .ok (source, t)) : Template.ofText source = .ok t := by
  rw [readTemplate] at h
  split at h
  next => cases h
  next found _ =>
    split at h
    next => cases h
    next template htemplate =>
      cases h
      exact htemplate

end CommandLine

/-! ## Fillers on the command line -/

namespace Invocation

/-- The value of a hole that is given on a command line is no list. -/
theorem isFlat_of_filler? {text : String} {filler : String × Literal}
    (h : filler? text = some filler) : filler.2.isFlat = true := by
  rw [filler?] at h
  split at h
  next => cases h
  next => cases h
  next name value _ _ =>
    cases h
    exact Literal.isFlat_of_isList (Literal.isList_ofWord value)

/-- The fillers of a simulation that a command line asks for are flat. -/
theorem isFlat_of_simulate? {a : Arguments} {s : SimulationRequest}
    (h : simulate? a = some (.simulate s)) :
    ∀ filler ∈ (OrderedMap.ofList s.fillers).values, filler.isFlat = true := by
  have hgiven {texts : List String} {fillers : List (String × Literal)}
      (hall : List.Forall₂ (fun text filler => filler? text = some filler) texts fillers) :
      ∀ filler ∈ fillers, filler.2.isFlat = true := by
    induction hall with
    | nil => exact fun _ hfiller => absurd hfiller List.not_mem_nil
    | cons hfiller _ ih => exact List.forall_mem_cons.mpr ⟨isFlat_of_filler? hfiller, ih⟩
  rw [simulate?] at h
  split at h
  next file _ =>
    obtain ⟨path, -, h⟩ := Option.bind_eq_some_iff.mp h
    obtain ⟨fillers, hfillers, h⟩ := Option.bind_eq_some_iff.mp h
    cases h
    intro filler hfiller
    obtain ⟨given, hmem, rfl⟩ := OrderedMap.mem_of_mem_values_ofList hfiller
    exact hgiven (forall₂_of_mapM hfillers) given hmem
  next => cases h

end Invocation

/-! ## The promise of checking -/

namespace CommandLine

variable {σ : Type} [Store σ] [LawfulStore σ]

/-- Reversing after a simulation does what checking promised. If simulating a template succeeds in
a store that works as a map, with flat fillers whose numbers are written in range, the execution
it kept is reversed exactly if every command has an inverse, which is when checking prints
`revertible`. What is printed then is read as a template of bare commands with literal values, one
for each command that succeeded, in reverse order; it is the text of the reversal before the
execution was kept if the numbers of the template and of the fillers read back. Otherwise nothing
is printed, and the error is that the execution cannot be reversed. All fillers that a command
line can give are flat, by `Invocation.isFlat_of_simulate?`. -/
theorem revert_simulate {context : Context} {s : SimulationRequest} {store : σ}
    (hflat : ∀ filler ∈ (OrderedMap.ofList s.fillers).values, filler.isFlat = true)
    (hrange : ∀ filler ∈ (OrderedMap.ofList s.fillers).values, ∀ x ∈ filler.floats, x.ReadsInRange)
    (hsimulate : (simulate context s store).1.error = none) :
    ∃ source t, readTemplate context s.file = .ok (source, t) ∧
      let e := simulated (started context s source t) s.stopOnError
      let output := revert context.fresh.text (simulate context s store).2
      (output.error = none ↔ ∀ c ∈ t.commands, ∃ inverse,
        Policy.standard.inverse? c.action c.entity = some inverse) ∧
      (output.error = none ↔
        "\nrevertible\n".toList <:+ (check context s.file).text.toList) ∧
      (output.error = none → ∃ undoing, Template.ofText output.text = .ok undoing ∧
        e.template.IsUndoneBy .standard undoing) ∧
      (output.error = none → (∀ c ∈ t.commands, ∀ x ∈ c.floats, x.ReadsBack) →
        (∀ filler ∈ (OrderedMap.ofList s.fillers).values, ∀ x ∈ filler.floats, x.ReadsBack) →
          (e.reversed .standard).map Template.text = .ok output.text) ∧
      ∀ failure, output.error = some failure →
        output.text = "" ∧ ∃ error, failure = .irreversible context.fresh.text error := by
  obtain ⟨source, t, identity, hread, hidentity, hsave, hstore⟩ := exists_of_simulate hsimulate
  have htext : Template.ofText source = .ok (started context s source t).template :=
    ofText_of_readTemplate hread
  have hload : Log.load (simulate context s store).2 context.fresh.text =
      .ok (simulated (started context s source t) s.stopOnError).reloaded := by
    rw [hstore]
    exact load_save hsave (Execution.isReloadable_ran htext hflat _ _ _ hidentity hrange)
  have hcheck : (check context s.file).text = checked t := by rw [check, hread]; rfl
  refine ⟨source, t, hread, ?_⟩
  rw [revert, hload, hcheck, suffix_checked_iff, ← Template.isReversible_iff]
  dsimp only
  -- Whether commands have inverses is known before the run, and nothing else can keep a
  -- simulated execution from being reversed: all of its results are texts or were given.
  cases hreversible : t.isReversible .standard with
  | true =>
    obtain ⟨live, hlive, hstored, hundone, hwell⟩ :=
      exists_reversed_simulated htext s.stopOnError hflat hreversible
    -- The store gives back the reversal with its numbers read anew, and reading what is printed
    -- reads them once more.
    have hread' : Template.ofText live.reread.text = .ok live.reread.reread := by
      refine Template.ofText_text_of_bare hundone.reread.bare ?_
      rw [Template.commands_reread, List.forall_mem_map]
      intro c hc
      refine ⟨(hwell c hc).reread, Command.references_eq_nil ?_⟩
      refine hundone.reread.literal c.reread ?_
      rw [Template.commands_reread]
      exact List.mem_map_of_mem hc
    rw [hstored]
    refine ⟨iff_of_true rfl rfl, iff_of_true rfl rfl, fun _ => ?_, fun _ hparameters hfillers => ?_,
      fun _ hfailure => by cases hfailure⟩
    · exact ⟨_, hread', hundone.reread.reread⟩
    -- If all numbers read back, nothing was changed by storing the execution.
    · have hself := Execution.reread_executed_ran htext (Simulation.runner .empty) s.stopOnError 0
        hparameters (fun _ _ => readsBack_captured htext hparameters hfillers) hfillers
      have hsame : (simulated (started context s source t) s.stopOnError).reloaded.reversed
          .standard = _ :=
        Execution.reversed_reloaded_eq_self (Execution.keepsValues_ran htext hflat _ _ _)
          (capturesTexts_simulated htext) hself
      rw [← hsame, hstored]
      rfl
  | false =>
    have hnot :
        (simulated (started context s source t) s.stopOnError).reloaded.template.isReversible
          .standard = false := by
      rw [Execution.isReversible_reloaded]
      exact (Execution.isReversible_ran _ _ _ _).trans hreversible
    obtain ⟨error, herror⟩ := Template.exists_error_of_isReversible_eq_false hnot
    rw [Execution.reversed, herror]
    have hfailed : (Output.ofError (Failure.irreversible context.fresh.text error)).error ≠ none :=
      Option.some_ne_none _
    refine ⟨iff_of_false hfailed Bool.false_ne_true, iff_of_false hfailed Bool.false_ne_true,
      fun h => absurd h hfailed, fun h => absurd h hfailed, fun failure hfailure => ?_⟩
    cases hfailure
    exact ⟨rfl, error, rfl⟩

/-- A network with a gate, whose address is to be filled in. -/
private def network : Template :=
  ⟨[⟨some "net", .new "create" "vpc" (.ofList [("cidr", .hole "cidr")])⟩,
    ⟨none, .new "attach" "gate" (.ofList
      [("to", .reference "net"),
        ("cost", .literal (.number (.float ⟨true, ⟨0x18000000000000, -52⟩⟩)))])⟩]⟩

/-- A file system in which every file holds the network. -/
private def networkContext : Context where
  fileText _ := .ok network.text
  now := ⟨0⟩
  fresh := .ofBits 1
  user := none
  wording _ := "expected value"

/-- The arguments of a simulation of the network. -/
private def networkArguments : Arguments where
  options := [("fill", "cidr=10.0.0.0/16")]
  operands := ["network"]

/-- The simulation that they ask for. -/
private def networkRequest : SimulationRequest where
  file := "network"
  fillers := [("cidr", .text "10.0.0.0/16")]
  author := none
  profile := ""
  locale := ""
  stopOnError := false

/-- The network is simulated, and its simulation can be reversed. -/
theorem revert_simulate_network :
    (simulate networkContext networkRequest Memory.empty).1.error = none ∧
      (revert networkContext.fresh.text
        (simulate networkContext networkRequest Memory.empty).2).text =
          "detach gate to=vpc-sim-0001 cost=-1.5\ndelete vpc id=vpc-sim-0001\n" := by
  have hread : readTemplate networkContext "network" = .ok (network.text, network) := by
    have htext : Template.ofText network.text = .ok network := by
      rw [Template.ofText_text (by decide) (by decide), Template.reread_eq_self (by decide)
        (by decide +kernel)]
    rw [readTemplate]
    simp only [networkContext, htext]
  have hsimulate : (simulate networkContext networkRequest Memory.empty).1.error = none := by
    rw [simulate, show networkRequest.file = "network" from rfl, hread]
    rfl
  have hrequest : Invocation.simulate? networkArguments = some (.simulate networkRequest) := by
    decide +kernel
  obtain ⟨source, t, hsame, hreversed, -, -, htexts, -⟩ :=
    revert_simulate (Invocation.isFlat_of_simulate? hrequest) (by decide) hsimulate
  obtain ⟨rfl, rfl⟩ : network.text = source ∧ network = t := by
    simpa using hread.symm.trans hsame
  have hok := hreversed.mpr (Template.isReversible_iff.mp (by decide))
  have htext := htexts hok (by decide +kernel) (by decide)
  exact ⟨hsimulate, (Except.ok.inj htext).symm⟩

end CommandLine

end Runbook
