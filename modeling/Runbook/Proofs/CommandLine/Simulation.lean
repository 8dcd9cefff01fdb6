import Runbook.Proofs.CommandLine.Reversal
import Runbook.Proofs.Identity.Order
import Runbook.Proofs.Log.Listing
import Runbook.Proofs.Run.Counting
import Runbook.Proofs.Run.MissingFillers
import Runbook.Proofs.Store.Contents

/-!
# Simulations as a whole

A simulation is refused before it starts, or it is kept. It is refused if the file holds no template
or a hole has no filler, and then nothing is kept or printed. Otherwise it runs, and whatever its
commands come to, failures included, the execution is put under its new identity and shown.

## Main definitions

* `CommandLine.IsKept`: an execution that ran was kept and printed, and no other record is changed.

## Main results

* `Template.missingFillers_eq_nil_iff`: whether every hole is filled;
* `Execution.map_outcome_entries`, `Execution.map_pending_entries`: what the record of a run keeps
  of outcomes;
* `CommandLine.isKept_of_holds`: an execution that ran is kept with all outcomes;
* `CommandLine.simulate_all_or_nothing`: a simulation is refused without a trace or kept.
-/

namespace Runbook

/-! ## Holes and outcomes -/

/-- The keys of a map of entries are those of the entries. -/
theorem OrderedMap.mem_keys_ofList {α : Type} {entries : List (String × α)} {key : String} :
    key ∈ (ofList entries).keys ↔ ∃ entry ∈ entries, entry.1 = key := by
  have hfold (m : OrderedMap α) :
      key ∈ (entries.foldl (fun m entry => m.insert entry.1 entry.2) m).keys ↔
        (∃ entry ∈ entries, entry.1 = key) ∨ key ∈ m.keys := by
    induction entries generalizing m with
    | nil => simp
    | cons entry rest ih =>
      have hinsert : key ∈ (m.insert entry.1 entry.2).keys ↔ entry.1 = key ∨ key ∈ m.keys := by
        rw [keys, entries_insert, map_fst_insertEntry]
        split
        next hmem => exact ⟨.inr, Or.rec (fun h => h ▸ hmem) id⟩
        next => rw [List.mem_append, List.mem_singleton, or_comm, eq_comm, keys]
      rw [List.foldl_cons, ih, hinsert, List.exists_mem_cons_iff, or_left_comm, or_assoc]
  rw [ofList, hfold]
  exact or_iff_left List.not_mem_nil

namespace Template

/-- Nothing is missing if there is a pair for each hole. -/
theorem missingFillers_eq_nil_iff {t : Template} {pairs : List (String × Literal)} :
    t.missingFillers (.ofList pairs) = [] ↔
      ∀ name, Value.hole name ∈ t.values → ∃ pair ∈ pairs, pair.1 = name := by
  simp only [List.eq_nil_iff_forall_not_mem, mem_missingFillers_iff, not_and,
    OrderedMap.contains_eq_false_iff, not_not, OrderedMap.mem_keys_ofList]

end Template

namespace Execution

/-- An entry is marked if its command did not run. -/
theorem map_pending_entries (e : Execution) :
    (Record.ofExecution e).entries.map Entry.pending =
      e.template.commands.map (!·.outcome.hasRun) := by
  rw [Record.ofExecution, List.map_map]
  rfl

/-- The entries keep the errors and the textual results of their commands. -/
theorem map_outcome_entries (e : Execution) :
    (Record.ofExecution e).entries.map Entry.outcome =
      e.template.commands.map (·.outcome.stored) := by
  rw [Record.ofExecution, List.map_map]
  exact List.map_congr_left fun c _ => Outcome.outcome_ofCommand e.template e.fillers c

end Execution

/-! ## Simulations -/

namespace CommandLine

variable {σ : Type} [Store σ]

/-- An execution that ran was kept. It was printed in full, and of what was in the store before
nothing is changed. -/
structure IsKept [MappedStore σ] (m : SortedMap ByteArray) (store' : σ) (printed : String)
    (e : Execution) (r : Run Nat) (stopOnError : Bool) : Prop where
  /-- The execution holds what became of each command in the run. -/
  template : e.template = r.template
  /-- The execution in full was printed. -/
  printed : e.details .standard = .ofText printed
  /-- There is one more record, under the identity, and all others are as before. -/
  gained : ∃ m', MappedStore.Holds store' m' ∧ m'.entries.Perm ((e.id, e.encode) :: m.entries)
  /-- The record has the outcome of every command, as records keep outcomes. -/
  outcomes : (Record.ofExecution e).entries.map Entry.outcome =
    e.template.commands.map (·.outcome.stored)
  /-- It marks the commands that the run did not reach, which are behind all others. -/
  pending : (Record.ofExecution e).entries.map Entry.pending =
    List.replicate r.steps.length false ++ List.replicate r.unreached.length true
  /-- There are such commands only behind a failure that stopped the run. -/
  stopped : r.unreached ≠ [] → stopOnError = true ∧ ∃ before step, r.steps = before ++ [step] ∧
    step.statement.command.outcome.failed = true
  /-- The record is loaded as the execution after reloading, if the fillers are flat, as those of a
  command line are, and their numbers are written in range. -/
  loaded : (∀ filler ∈ e.fillers.values, filler.isFlat = true) →
    (∀ filler ∈ e.fillers.values, ∀ x ∈ filler.floats, x.ReadsInRange) →
      Log.load store' e.id = .ok e.reloaded

section Simulate

variable {context : Context} {s : SimulationRequest} {source : String}
  (hfile : context.fileText s.file = .ok source)

include hfile

/-- A text that is no template is not simulated. -/
theorem simulate_of_malformed {error : SyntaxError} (h : Template.ofText source = .error error)
    (store : σ) : simulate context s store = (.ofError (.malformed s.file error), store) := by
  unfold simulate readTemplate
  rw [hfile]
  dsimp only
  rw [h]

/-- A template with a hole that has no filler is not simulated. -/
theorem simulate_of_missing {t : Template} (h : Template.ofText source = .ok t)
    (hmissing : t.missingFillers (.ofList s.fillers) ≠ []) (store : σ) :
    simulate context s store =
      (.ofError (.missingFillers (t.missingFillers (.ofList s.fillers))), store) := by
  unfold simulate readTemplate
  rw [hfile]
  dsimp only
  rw [h]
  dsimp only
  split
  next hnone => exact absurd hnone hmissing
  next => rfl

/-- A template whose holes are filled is simulated, and the execution is put under its identity and
shown in full. -/
theorem exists_simulate_of_filled [MappedStore σ] {store : σ} {m : SortedMap ByteArray}
    (hholds : MappedStore.Holds store m) (htakes : MappedStore.Takes σ context.fresh.text)
    {t : Template} (h : Template.ofText source = .ok t)
    (hfilled : t.missingFillers (.ofList s.fillers) = []) :
    let e := simulated (started context s source t) s.stopOnError
    ∃ store' text, simulate context s store = (.ofText text, store') ∧
      MappedStore.Holds store' (m.insert context.fresh.text e.encode) ∧
      e.details .standard = .ofText text := by
  intro e
  obtain ⟨store', hput, hholds'⟩ := MappedStore.put e.encode hholds htakes
  obtain ⟨text, hdetails⟩ := Execution.exists_shown (e := e)
    ⟨context.fresh, Identity.parse_text context.fresh⟩ .standard context.now .full
  have hsave : Log.save store e = (.ok (), store') := by
    unfold Log.save
    rw [show Store.put store e.id e.encode = (.ok (), store') from hput]
    rfl
  refine ⟨store', text, ?_, hholds', hdetails⟩
  unfold simulate readTemplate
  rw [hfile]
  dsimp only
  rw [h]
  dsimp only
  rw [show t.missingFillers (started context s source t).fillers = [] from hfilled]
  dsimp only
  rw [hsave]
  dsimp only
  rw [show e.details .standard = .ofText text from hdetails]
  rfl

omit hfile in
/-- An execution of a template that was read is kept, once it is shown and put under a new key. -/
theorem isKept_of_holds [MappedStore σ] {m : SortedMap ByteArray} {store' : σ} {printed : String}
    {t : Template} (htext : Template.ofText source = .ok t)
    (htakes : MappedStore.Takes σ context.fresh.text) (hfresh : m.get? context.fresh.text = none)
    (hholds : MappedStore.Holds store' (m.insert context.fresh.text
      (simulated (started context s source t) s.stopOnError).encode))
    (hprinted : (simulated (started context s source t) s.stopOnError).details .standard =
      .ofText printed) :
    IsKept m store' printed (simulated (started context s source t) s.stopOnError)
      (t.run (Simulation.runner .empty) (.ofList s.fillers) s.stopOnError 0) s.stopOnError where
  template := rfl
  printed := hprinted
  gained := ⟨_, hholds, SortedMap.perm_entries_insert hfresh _⟩
  outcomes := Execution.map_outcome_entries _
  pending := by
    rw [Execution.map_pending_entries]
    exact Template.map_not_hasRun (Template.pending_of_ofText htext)
  stopped := Template.failed_of_unreached_ne_nil
  loaded hflat hrange := by
    have hdecode : Execution.decode (simulated (started context s source t) s.stopOnError).encode =
        .ok (simulated (started context s source t) s.stopOnError).reloaded :=
      Execution.decode_encode <| Execution.isReloadable_ran (e := started context s source t) htext
        hflat (Simulation.runner .empty) s.stopOnError 0 (Identity.parse_text context.fresh) hrange
    show Log.load store' context.fresh.text = _
    unfold Log.load
    rw [MappedStore.get hholds htakes, SortedMap.get?_insert, if_pos rfl]
    dsimp only [Option.elim]
    rw [hdecode]
    rfl

/-- A simulation is refused without a trace or kept. In a store that works as a map, with an
identity that is no key yet, it is refused exactly if the text of the file is no template or some
hole is filled by no pair, and then the store is as it was and nothing is printed. Otherwise the
template is run, and whatever its commands come to, the execution is kept and shown. -/
theorem simulate_all_or_nothing [MappedStore σ] {store : σ} {m : SortedMap ByteArray}
    (hholds : MappedStore.Holds store m) (htakes : MappedStore.Takes σ context.fresh.text)
    (hfresh : m.get? context.fresh.text = none) :
    let output := (simulate context s store).1
    let store' := (simulate context s store).2
    (output.error ≠ none ↔ (∃ error, Template.ofText source = .error error) ∨
      ∃ t name, Template.ofText source = .ok t ∧ Value.hole name ∈ t.values ∧
        ∀ pair ∈ s.fillers, pair.1 ≠ name) ∧
    (output.error ≠ none → output.text = "" ∧ store' = store) ∧
    (output.error = none → ∃ t, Template.ofText source = .ok t ∧
      let e := simulated (started context s source t) s.stopOnError
      let r := t.run (Simulation.runner .empty) (.ofList s.fillers) s.stopOnError 0
      e.id = context.fresh.text ∧ IsKept m store' output.text e r s.stopOnError) := by
  cases htext : Template.ofText source with
  | error error =>
    have hfailed : (Output.ofError (Failure.malformed s.file error)).error ≠ none :=
      Option.some_ne_none _
    rw [simulate_of_malformed hfile htext store]
    exact ⟨iff_of_true hfailed (.inl ⟨error, rfl⟩), fun _ => ⟨rfl, rfl⟩, fun h => absurd h hfailed⟩
  | ok t =>
    by_cases hfilled : t.missingFillers (.ofList s.fillers) = []
    · obtain ⟨kept, text, hsimulate, hholds', hprinted⟩ :=
        exists_simulate_of_filled hfile hholds htakes htext hfilled
      rw [hsimulate]
      refine ⟨iff_of_false (fun h => h rfl) ?_, fun h => absurd rfl h, fun _ => ⟨t, rfl, rfl, ?_⟩⟩
      · rintro (⟨error, herror⟩ | ⟨t', name, ht', hname, hpairs⟩)
        · cases herror
        · cases ht'
          obtain ⟨pair, hpair, hsame⟩ := Template.missingFillers_eq_nil_iff.mp hfilled name hname
          exact hpairs pair hpair hsame
      · exact isKept_of_holds htext htakes hfresh hholds' hprinted
    · have hfailed : (Output.ofError (Failure.missingFillers
          (t.missingFillers (.ofList s.fillers)))).error ≠ none := Option.some_ne_none _
      rw [simulate_of_missing hfile htext hfilled store]
      refine ⟨iff_of_true hfailed (.inr ?_), fun _ => ⟨rfl, rfl⟩, fun h => absurd h hfailed⟩
      rw [Template.missingFillers_eq_nil_iff] at hfilled
      push Not at hfilled
      obtain ⟨name, hname, hpairs⟩ := hfilled
      exact ⟨t, name, rfl, hname, hpairs⟩

end Simulate

/-- A template whose second command fails, as what the first one returns is no literal. -/
private def gated : Template :=
  ⟨[⟨some "net", .new "attach" "gate" .empty⟩,
    ⟨none, .new "create" "vpc" (.ofList [("cidr", .hole "cidr"), ("gate", .reference "net")])⟩,
    ⟨none, .new "start" "vm" (.ofList [("id", .literal (.text "i-1"))])⟩]⟩

/-- A file system in which every file holds that template. -/
private def gatedContext : Context where
  fileText _ := .ok gated.text
  now := ⟨0⟩
  fresh := .ofBits 1
  user := some "ops"
  wording _ := "expected value"

/-- A simulation of it that stops at failures. -/
private def gatedRequest : SimulationRequest where
  file := "gated"
  fillers := [("cidr", .text "10.0.0.0/16"), ("zone", .text "a")]
  author := none
  profile := ""
  locale := ""
  stopOnError := true

/-- The simulation goes through although a command fails. Its record is then the only one in a
directory that did not exist, and has a mark at the command that was not reached. -/
theorem simulate_all_or_nothing_gated :
    Directory.Takes gatedContext.fresh.text ∧
      (simulate gatedContext gatedRequest Directory.absent).1.error = none ∧
      ∃ m' e, (simulate gatedContext gatedRequest Directory.absent).2.Holds m' ∧
        m'.entries = [(gatedContext.fresh.text, Execution.encode e)] ∧
        e.template.commands.map (·.outcome.failed) = [false, true, false] ∧
        (Record.ofExecution e).entries.map Entry.pending = [false, false, true] := by
  have hfile : gatedContext.fileText gatedRequest.file = .ok gated.text := rfl
  have hread : Template.ofText gated.text = .ok gated := by decide +kernel
  have hholds : MappedStore.Holds Directory.absent .empty := Directory.holds_empty rfl
  have htakes : Directory.Takes gatedContext.fresh.text :=
    Identity.takes_of_parse (Identity.parse_text gatedContext.fresh)
  obtain ⟨hfailed, -, hkept⟩ :=
    simulate_all_or_nothing (s := gatedRequest) hfile hholds htakes rfl
  have hnone : (simulate gatedContext gatedRequest Directory.absent).1.error = none := by
    decide +kernel
  obtain ⟨t, ht, -, h⟩ := hkept hnone
  obtain rfl : gated = t := by simpa using hread.symm.trans ht
  obtain ⟨m', hholds', hperm⟩ := h.gained
  exact ⟨htakes, hnone, m', _, hholds', List.perm_singleton.mp hperm, by decide +kernel, h.pending⟩

end CommandLine

end Runbook
