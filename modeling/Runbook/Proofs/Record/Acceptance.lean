import Mathlib.Data.List.Forall2
import Runbook.Proofs.Record.Document

/-!
# Which records are read

A record is read as an execution or refused as a whole. It is read if its identity is one and the
line of every entry is a statement. The fault that is reported is the identity if that is bad, and
else the first line that is no statement.

## Main definitions

* `Entry.ReadsAs`: what a command that is read from an entry has from that entry;
* `Record.ReadsAs`: the same for an execution and its record.

## Main results

* `Entry.toCommand_eq_ok_iff`: an entry is read as the one command that has all of this;
* `Record.readEntries_eq_ok_iff`, `Record.readEntries_eq_error`: the entries are read one by one,
  up to the first that is refused;
* `Execution.decodes_all_or_nothing`: what bytes that hold a record are read as.
-/

namespace Runbook

/-! ## Entries -/

namespace Entry

/-- What a command that is read from an entry has from that entry. -/
structure ReadsAs (entry : Entry) (c : Command) : Prop where
  /-- But for its outcome it is the command of the statement on the line. -/
  line : ∃ s, Statement.ofText entry.line = .ok s ∧ c = s.command.withOutcome c.outcome
  /-- It has the first of the errors. -/
  error : c.outcome.error = entry.errors.head?
  /-- It has the first of the results. -/
  result : ∀ text, entry.results.head? = some text → c.outcome.result = some (.string text)
  /-- If there are no results, it ran with the result null where nothing else shows that it ran. -/
  null : entry.results = [] → c.outcome.result =
    if entry.pending || !entry.errors.isEmpty then none else some .null
  /-- It did not run if it is marked so, and nothing else shows that it ran. -/
  hasRun : c.outcome.hasRun = false ↔
    entry.pending = true ∧ entry.errors = [] ∧ entry.results = []

/-- The command that is read has all that the entry says of it. -/
theorem readsAs_of_ofText {entry : Entry} {s : Statement}
    (h : Statement.ofText entry.line = .ok s) :
    entry.ReadsAs (s.command.withOutcome entry.outcome) := by
  obtain ⟨line, errors, results, pending⟩ := entry
  constructor
  case line => exact ⟨s, h, rfl⟩
  all_goals
    -- Only the heads of the two lists and the mark count.
    cases errors <;> cases results <;> cases pending <;>
      simp [Command.withOutcome, outcome, Outcome.hasRun, Outcome.success]

/-- Nothing is left open by that. -/
theorem ReadsAs.eq {entry : Entry} {c d : Command} (hc : entry.ReadsAs c)
    (hd : entry.ReadsAs d) : c = d := by
  have herror : c.outcome.error = d.outcome.error := hc.error.trans hd.error.symm
  have hresult : c.outcome.result = d.outcome.result := by
    cases hresults : entry.results with
    | nil => rw [hc.null hresults, hd.null hresults]
    | cons text _ =>
      have hhead : entry.results.head? = some text := by rw [hresults, List.head?_cons]
      rw [hc.result text hhead, hd.result text hhead]
  -- The line is read as one statement, so the commands agree in all but their outcomes.
  obtain ⟨s, hs, hcommand⟩ := hc.line
  obtain ⟨other, hother, hsame⟩ := hd.line
  obtain rfl : s = other := Except.ok.inj (hs.symm.trans hother)
  rw [hcommand, hsame]
  exact congrArg s.command.withOutcome (congrArg₂ Outcome.mk hresult herror)

/-- An entry whose line is no statement is no command, for that reason. -/
theorem toCommand_of_error {entry : Entry} {error : SyntaxError}
    (h : Statement.ofText entry.line = .error error) : entry.toCommand = .error error := by
  rw [toCommand, h]
  rfl

/-- An entry is read as the one command that has all of it. -/
theorem toCommand_eq_ok_iff {entry : Entry} {c : Command} :
    entry.toCommand = .ok c ↔ entry.ReadsAs c := by
  constructor
  · intro h
    cases hline : Statement.ofText entry.line with
    | error error => rw [toCommand_of_error hline] at h; cases h
    | ok s =>
      rw [toCommand, hline] at h
      cases h
      exact readsAs_of_ofText hline
  · intro h
    obtain ⟨s, hs, -⟩ := h.line
    rw [h.eq (readsAs_of_ofText hs), toCommand, hs]
    rfl

/-- An entry can be read exactly if its line is a statement. -/
theorem exists_toCommand_iff {entry : Entry} :
    (∃ c, entry.toCommand = .ok c) ↔ ∃ s, Statement.ofText entry.line = .ok s := by
  simp only [toCommand_eq_ok_iff]
  constructor
  · rintro ⟨c, hc⟩
    obtain ⟨s, hs, -⟩ := hc.line
    exact ⟨s, hs⟩
  · rintro ⟨s, hs⟩
    exact ⟨_, readsAs_of_ofText hs⟩

end Entry

/-! ## Records -/

/-- What stands on the right of related lists is related to something on the left. -/
theorem exists_of_forall₂ {α β : Type} {r : α → β → Prop} {as : List α} {bs : List β}
    (h : List.Forall₂ r as bs) {b : β} (hb : b ∈ bs) : ∃ a ∈ as, r a b := by
  induction h with
  | nil => exact absurd hb List.not_mem_nil
  | cons hfirst _ ih =>
    rcases List.mem_cons.mp hb with rfl | hrest
    · exact ⟨_, List.mem_cons_self, hfirst⟩
    · obtain ⟨a, ha, hab⟩ := ih hrest
      exact ⟨a, List.mem_cons_of_mem _ ha, hab⟩

/-- What an execution that is read from a record has from that record. -/
structure Record.ReadsAs (r : Record) (e : Execution) : Prop where
  /-- It has the identity. -/
  id : e.id = r.id
  /-- It has the author. -/
  author : e.author = r.author
  /-- It has the source. -/
  source : e.source = r.source
  /-- It has the locale. -/
  locale : e.locale = r.locale
  /-- It has the profile. -/
  profile : e.profile = r.profile
  /-- It has the fillers. -/
  fillers : e.fillers = r.fillers
  /-- No statement declares a name. -/
  bare : ∀ s ∈ e.template.statements, s.name = none
  /-- The commands are those of the entries in order. -/
  commands : List.Forall₂ Entry.ReadsAs r.entries e.template.commands

namespace Record

/-- Entries are read as commands if each one is, whatever their position. -/
theorem readEntries_eq_ok_iff {position : Nat} {entries : List Entry} {commands : List Command} :
    readEntries position entries = .ok commands ↔
      List.Forall₂ (fun entry c => entry.toCommand = .ok c) entries commands := by
  induction entries generalizing position commands with
  | nil =>
    rw [readEntries, List.forall₂_nil_left_iff, Except.ok.injEq]
    exact eq_comm
  | cons entry rest ih =>
    rw [readEntries, List.forall₂_cons_left_iff]
    cases hentry : entry.toCommand with
    | error error => simp
    | ok c =>
      cases hrest : readEntries (position + 1) rest with
      | error error =>
        simp only [reduceCtorEq, false_iff]
        rintro ⟨_, others, -, hothers, -⟩
        cases (ih.mpr hothers).symm.trans hrest
      | ok others =>
        simp only [Except.ok.injEq]
        constructor
        · rintro rfl
          exact ⟨c, others, rfl, ih.mp hrest, rfl⟩
        · rintro ⟨_, _, rfl, hothers, rfl⟩
          rw [Except.ok.inj (hrest.symm.trans (ih.mpr hothers))]

/-- So they are all read if each one can be. -/
theorem exists_readEntries {entries : List Entry}
    (h : ∀ entry ∈ entries, ∃ c, entry.toCommand = .ok c) (position : Nat) :
    ∃ commands, readEntries position entries = .ok commands := by
  induction entries generalizing position with
  | nil => exact ⟨[], rfl⟩
  | cons entry rest ih =>
    obtain ⟨c, hc⟩ := h entry List.mem_cons_self
    obtain ⟨commands, hrest⟩ :=
      ih (fun other hother => h other (List.mem_cons_of_mem entry hother)) (position + 1)
    exact ⟨c :: commands, by simp only [readEntries, hc, hrest]⟩

/-- The first entry that is no command is reported with its position. -/
theorem readEntries_eq_error {before after : List Entry} {entry : Entry} {error : SyntaxError}
    (hbefore : ∀ earlier ∈ before, ∃ c, earlier.toCommand = .ok c)
    (hentry : entry.toCommand = .error error) (position : Nat) :
    readEntries position (before ++ entry :: after) =
      .error (.command (position + before.length) error) := by
  induction before generalizing position with
  | nil => simp only [List.nil_append, readEntries, hentry, List.length_nil, Nat.add_zero]
  | cons first rest ih =>
    -- The first entry is a command, so the fault is the one of the rest, a position further on.
    obtain ⟨c, hc⟩ := hbefore first List.mem_cons_self
    have hrest := ih (fun earlier h => hbefore earlier (List.mem_cons_of_mem first h))
      (position + 1)
    rw [List.cons_append, readEntries, hc]
    simp only [hrest, List.length_cons, Nat.add_assoc, Nat.add_comm 1]

/-- A record is no execution if its identity is none, whatever its entries are. -/
theorem toExecution_of_identity_error {r : Record} {error : IdentityError}
    (h : Identity.parse r.id = .error error) : r.toExecution = .error (.identity r.id error) := by
  rw [toExecution, h]

/-- An execution that a record stands for has all that the record says. -/
theorem readsAs_of_toExecution {r : Record} {e : Execution} (h : r.toExecution = .ok e) :
    (∃ identity, Identity.parse r.id = .ok identity) ∧ r.ReadsAs e := by
  rw [toExecution] at h
  split at h
  · cases h
  rename_i identity hidentity
  split at h
  · cases h
  rename_i commands hcommands
  cases h
  refine ⟨⟨identity, hidentity⟩, rfl, rfl, rfl, rfl, rfl, rfl, ?_, ?_⟩
  · intro s hs
    obtain ⟨c, -, rfl⟩ := List.mem_map.mp hs
    rfl
  · rw [Template.commands_ofCommands]
    exact (readEntries_eq_ok_iff.mp hcommands).imp fun _ _ => Entry.toCommand_eq_ok_iff.mp

/-- A record stands for an execution exactly if its identity is one and its lines are statements. -/
theorem exists_toExecution_iff {r : Record} :
    (∃ e, r.toExecution = .ok e) ↔ (∃ identity, Identity.parse r.id = .ok identity) ∧
      ∀ entry ∈ r.entries, ∃ s, Statement.ofText entry.line = .ok s := by
  constructor
  · rintro ⟨e, he⟩
    obtain ⟨hidentity, hreads⟩ := readsAs_of_toExecution he
    refine ⟨hidentity, fun entry hentry => ?_⟩
    obtain ⟨c, -, hc⟩ := exists_of_forall₂ hreads.commands.flip hentry
    exact Entry.exists_toCommand_iff.mp ⟨c, Entry.toCommand_eq_ok_iff.mpr hc⟩
  · rintro ⟨⟨identity, hidentity⟩, hlines⟩
    obtain ⟨commands, hcommands⟩ := exists_readEntries
      (fun entry hentry => Entry.exists_toCommand_iff.mpr (hlines entry hentry)) 1
    rw [toExecution, hidentity]
    simp only [hcommands]
    exact ⟨_, rfl⟩

/-- A record whose identity is one is no execution if a line is no statement. -/
theorem toExecution_of_line_error {r : Record} {identity : Identity}
    (h : Identity.parse r.id = .ok identity) {before after : List Entry} {entry : Entry}
    {error : SyntaxError} (hentries : r.entries = before ++ entry :: after)
    (hbefore : ∀ earlier ∈ before, ∃ s, Statement.ofText earlier.line = .ok s)
    (hentry : Statement.ofText entry.line = .error error) :
    r.toExecution = .error (.command (before.length + 1) error) := by
  have hread : readEntries 1 r.entries = .error (.command (1 + before.length) error) := by
    rw [hentries]
    exact readEntries_eq_error
      (fun earlier hearlier => Entry.exists_toCommand_iff.mpr (hbefore earlier hearlier))
      (Entry.toCommand_of_error hentry) 1
  simp only [toExecution, h, hread, Nat.add_comm 1]

end Record

namespace Execution

/-- Bytes that hold a record are read as an execution exactly if the identity is valid and each
line is a statement, and that execution has all that the record says. Otherwise it is an error:
the identity is reported whenever it is bad, and else the first line that is no statement, with
its position from one. -/
theorem decodes_all_or_nothing {bytes : ByteArray} {r : Record}
    (h : (Json.Document.ofBytes? bytes).bind Record.ofDocument? = some r) :
    ((∃ e, decode bytes = .ok e) ↔ (∃ identity, Identity.parse r.id = .ok identity) ∧
        ∀ entry ∈ r.entries, ∃ s, Statement.ofText entry.line = .ok s) ∧
      (∀ e, decode bytes = .ok e → r.ReadsAs e) ∧
      (∀ error, Identity.parse r.id = .error error → ∃ fault, decode bytes = .error fault ∧
        ∀ wording, fault.message wording = "cannot decode template execution: " ++
          ("invalid execution id '" ++ r.id ++ "': " ++ error.reason)) ∧
      (∀ identity before entry after error, Identity.parse r.id = .ok identity →
        r.entries = before ++ entry :: after →
        (∀ earlier ∈ before, ∃ s, Statement.ofText earlier.line = .ok s) →
        Statement.ofText entry.line = .error error → ∃ fault, decode bytes = .error fault ∧
          ∀ wording, fault.message wording = "cannot decode template execution: " ++
            ("command " ++ toString (before.length + 1) ++ ": " ++ error.message)) := by
  have hdecode : decode bytes = r.toExecution := by rw [decode, h]
  rw [hdecode]
  refine ⟨Record.exists_toExecution_iff, fun e he => (Record.readsAs_of_toExecution he).2,
    fun error herror =>
      ⟨_, Record.toExecution_of_identity_error herror, fun _ => rfl⟩, ?_⟩
  intro identity before entry after error hidentity hentries hbefore herror
  exact ⟨_, Record.toExecution_of_line_error hidentity hentries hbefore herror, fun _ => rfl⟩

/-- A record with a declaration that has several errors and results and is marked as one that did
not run, a command that did not run, and a last line. The identity and that line are given. -/
private def mixedRecord (id last : String) : Record where
  id := id
  author := "ops"
  source := ""
  locale := ""
  profile := ""
  fillers := .ofList [("vm", .text "vm 1")]
  entries := [⟨"net = create vpc", ["quota", "late"], ["vpc-1", ""], true⟩,
    ⟨"start vm id=\x7bvm\x7d", [], [], true⟩, ⟨last, [], [], false⟩]

/-- The bytes of that record, on a line. -/
private def mixedBytes (id last : String) : ByteArray :=
  ((mixedRecord id last).toJson.text .compact ++ "\n").toUTF8

/-- The bytes hold the record. -/
private theorem ofBytes?_mixedBytes (id last : String) :
    (Json.Document.ofBytes? (mixedBytes id last)).bind Record.ofDocument? =
      some (mixedRecord id last) := by
  have hfillers : Record.FillersAreReadable (.ofList [("vm", .text "vm 1")]) := by decide
  exact Record.ofBytes?_text (r := mixedRecord id last) Json.Layout.isSpaced_compact hfillers
    (List.forall_mem_singleton.mpr rfl)

/-- The lines but for the last are statements. -/
private theorem exists_ofText_mixed : ∀ entry ∈ (mixedRecord "" "").entries.dropLast,
    ∃ s, Statement.ofText entry.line = .ok s :=
  List.forall_mem_cons.mpr ⟨⟨⟨some "net", .new "create" "vpc" .empty⟩, by decide +kernel⟩,
    List.forall_mem_singleton.mpr
      ⟨⟨none, .new "start" "vm" (.ofList [("id", .hole "vm")])⟩, by decide +kernel⟩⟩

/-- The record is read if its last line is a statement. If it is none, that line is reported, and
the identity in its place where both are bad. -/
theorem decodes_mixed :
    (∃ e, decode (mixedBytes "01arz3ndektsv4rrffq69g5fav" "stop vm id=i-1") = .ok e ∧
      (mixedRecord "01arz3ndektsv4rrffq69g5fav" "stop vm id=i-1").ReadsAs e) ∧
    (∃ fault, decode (mixedBytes "01arz3ndektsv4rrffq69g5fav" "Stop vm") = .error fault ∧
      ∀ wording, fault.message wording = "cannot decode template execution: command 3: " ++
        "syntax error on line 1 near 'Stop': malformed action; expected lowercase word") ∧
    ∃ fault, decode (mixedBytes "here" "Stop vm") = .error fault ∧
      ∀ wording, fault.message wording = "cannot decode template execution: " ++
        "invalid execution id 'here': invalid length" := by
  refine ⟨?_, ?_, ?_⟩
  · obtain ⟨hread, hreads, -⟩ := decodes_all_or_nothing
      (ofBytes?_mixedBytes "01arz3ndektsv4rrffq69g5fav" "stop vm id=i-1")
    have hlast : Statement.ofText "stop vm id=i-1" =
        .ok ⟨none, .new "stop" "vm" (.ofList [("id", .literal (.text "i-1"))])⟩ := by
      decide +kernel
    obtain ⟨e, he⟩ := hread.mpr ⟨⟨_, rfl⟩, List.forall_mem_append.mpr
      ⟨exists_ofText_mixed, List.forall_mem_singleton.mpr ⟨_, hlast⟩⟩⟩
    exact ⟨e, he, hreads e he⟩
  · obtain ⟨-, -, -, hline⟩ := decodes_all_or_nothing
      (ofBytes?_mixedBytes "01arz3ndektsv4rrffq69g5fav" "Stop vm")
    have hlast : Statement.ofText "Stop vm" = .error ⟨1, "Stop", .malformedWord .action⟩ := by
      decide +kernel
    obtain ⟨identity, hidentity⟩ : ∃ identity,
        Identity.parse "01arz3ndektsv4rrffq69g5fav" = .ok identity := ⟨_, rfl⟩
    obtain ⟨fault, hfault, hmessage⟩ := hline identity (mixedRecord "" "").entries.dropLast
      ⟨"Stop vm", [], [], false⟩ [] _ hidentity rfl exists_ofText_mixed hlast
    exact ⟨fault, hfault, fun wording => (hmessage wording).trans (by decide)⟩
  · obtain ⟨-, -, hidentity, -⟩ := decodes_all_or_nothing
      (ofBytes?_mixedBytes "here" "Stop vm")
    obtain ⟨fault, hfault, hmessage⟩ := hidentity .length rfl
    exact ⟨fault, hfault, fun wording => (hmessage wording).trans (by decide)⟩

end Execution

end Runbook
