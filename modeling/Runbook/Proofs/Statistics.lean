import Runbook.Proofs.Run.Trace
import Runbook.Proofs.Statement.Acceptance
import Runbook.Proofs.Tally

/-!
# Exact statistics

Statistics tell how many commands of each kind there are, whatever became of the commands. A run
changes outcomes only, and the line of a stored command starts with its action and its entity
whatever is written behind them. So both keep the statistics, even where the parameters or the
fillers are read back as other ones.

## Main results

* `Statement.words_of_ofText`: what is read from the text of a command has its action and entity;
* `Execution.map_kind_of_decode`: an execution that is read from its bytes has commands of the same
  kinds;
* `Template.stats_run`, `Execution.stats_of_decode`: runs and reloads keep the statistics;
* `Template.stats_exact`: what the statistics of a template are and what does not change them.
-/

namespace Runbook

/-! ## The words of a command -/

/-- A text that starts with a plain word is split into that word and the tokens of what is behind
it. -/
theorem Token.kinds_of_tokensFrom_word {word rest : List Char}
    (hword : word ≠ [] ∧ ∀ c ∈ word, isPlain c = true) (hrest : EndsWord rest) {start : Nat}
    {tokens : List Token} (h : tokensFrom start (word ++ rest) = .ok tokens) :
    ∃ next others, tokensFrom next rest = .ok others ∧
      tokens.map Token.kind = .word (String.ofList word) :: others.map Token.kind := by
  obtain ⟨c, cs, rfl⟩ := List.exists_cons_of_ne_nil hword.1
  have hspells := Spells.word (isWord_of_isPlain hword.1 hword.2)
  rw [tokensFrom_of_spells hspells (.inr hrest)] at h
  cases hothers : tokensFrom (start + (String.ofList (c :: cs)).utf8ByteSize) rest with
  | error e => rw [hothers] at h; cases h
  | ok others =>
    rw [hothers] at h
    cases h
    exact ⟨_, others, hothers, rfl⟩

/-- What is read from the text of a command has its action and its entity, whatever its parameters
are. -/
theorem Statement.words_of_ofText {c : Command} (haction : Name.isActionWord c.action.toList = true)
    (hentity : Name.isActionWord c.entity.toList = true) {s : Statement}
    (h : ofText c.text = .ok s) : s.command.action = c.action ∧ s.command.entity = c.entity := by
  obtain ⟨tokens, htokens, hs⟩ := ofText_eq_ok_iff.mp h
  have hchars : c.text.toList = c.action.toList ++
      ' ' :: (c.entity.toList ++ c.parameters.entries.flatMap Command.parameterChars) := by
    rw [Command.text, String.toList_ofList, Command.chars, List.append_assoc]
    rfl
  rw [Token.tokenize, hchars] at htokens
  obtain ⟨next, behind, hbehind, hfirst⟩ := Token.kinds_of_tokensFrom_word
    (Name.isPlain_of_isActionWord haction) (Token.endsWord_cons.mpr (by decide)) htokens
  rw [Token.tokensFrom, if_pos (by decide)] at hbehind
  obtain ⟨-, others, -, hsecond⟩ := Token.kinds_of_tokensFrom_word
    (Name.isPlain_of_isActionWord hentity) (Command.endsWord_flatMap_parameterChars _) hbehind
  rw [hfirst, hsecond, String.ofList_toList, String.ofList_toList] at hs
  -- The second token is a word, so nothing is declared.
  cases hs with
  | command hcommand =>
    cases hcommand with
    | mk => exact ⟨rfl, rfl⟩

/-! ## Runs and reloads -/

namespace Template

variable {σ : Type} {runner : Runner σ} {fillers : Fillers} {stopOnError : Bool} {state : σ}
  {t : Template}

/-- A run keeps the statistics. -/
theorem stats_run : (t.run runner fillers stopOnError state).template.stats = t.stats := by
  apply stats_eq_of_map_kind
  have hkind (commands : List Command) :
      (commands.map (·.withOutcome .pending)).map Command.kind = commands.map Command.kind := by
    rw [List.map_map]
    rfl
  rw [← hkind, ← hkind t.commands, map_pending_commands_run]

end Template

/-- A command that is read from the entry of another one is of the same kind. -/
theorem Entry.kind_of_readsAs {t : Template} {fillers : Fillers} {c d : Command}
    (haction : Name.isActionWord c.action.toList = true)
    (hentity : Name.isActionWord c.entity.toList = true)
    (h : (ofCommand t fillers c).ReadsAs d) : d.kind = c.kind := by
  let frozen : Command := { c with parameters := c.parameters.map (t.executed fillers) }
  obtain ⟨s, hs, hd⟩ := h.line
  obtain ⟨hsameAction, hsameEntity⟩ := Statement.words_of_ofText (c := frozen) haction hentity hs
  have hkind : d.kind = s.command.kind := by
    rw [hd]
    rfl
  rw [hkind, Command.kind, hsameAction, hsameEntity]
  rfl

namespace Execution

variable {e r : Execution}

/-- An execution that is read from its bytes has commands of the same kinds. -/
theorem map_kind_of_decode
    (hwords : ∀ c ∈ e.template.commands,
      Name.isActionWord c.action.toList = true ∧ Name.isActionWord c.entity.toList = true)
    (h : decode e.encode = .ok r) :
    r.template.commands.map Command.kind = e.template.commands.map Command.kind := by
  rw [decode] at h
  split at h
  next => cases h
  next record hrecord =>
    have hentries : record.entries = (Record.ofExecution e).entries :=
      Option.some.inj ((Record.entriesIn?_of_ofDocument? hrecord).symm.trans e.entriesIn?_encode)
    have hreads := (Record.readsAs_of_toExecution h).2.commands
    rw [hentries, Record.ofExecution, List.forall₂_map_left_iff] at hreads
    -- Entries and commands stand in the same places, so the kinds are compared one by one.
    symm
    rw [← List.forall₂_eq_eq_eq, List.forall₂_map_left_iff, List.forall₂_map_right_iff]
    exact ((List.forall₂_and_left _ _).mpr ⟨hwords, hreads⟩).imp fun c d hcd =>
      (Entry.kind_of_readsAs hcd.1.1 hcd.1.2 hcd.2).symm

/-- A reload keeps the statistics, whenever it succeeds. -/
theorem stats_of_decode
    (hwords : ∀ c ∈ e.template.commands,
      Name.isActionWord c.action.toList = true ∧ Name.isActionWord c.entity.toList = true)
    (h : decode e.encode = .ok r) : r.template.stats = e.template.stats :=
  Template.stats_eq_of_map_kind (map_kind_of_decode hwords h)

end Execution

/-! ## Exactness -/

namespace Template

/-- Statistics are exact. If all actions and entities are words of small letters, there is one entry
for each pair of an action and an entity, in order of first occurrence, with the number of commands
that have both, and these numbers add up to the number of commands. No run of the template changes
the statistics, nor does storing and reloading an execution of it that can be reloaded. With another
template behind it the new kinds of that one come last, and the numbers add up kind by kind. -/
theorem stats_exact {t : Template}
    (hwords : ∀ c ∈ t.commands,
      Name.isActionWord c.action.toList = true ∧ Name.isActionWord c.entity.toList = true) :
    (t.stats.entries = (t.commands.map fun c => (c.action, c.entity)).eraseDups.map fun pair =>
      (pair.1 ++ " " ++ pair.2,
        t.commands.countP fun c => c.action = pair.1 ∧ c.entity = pair.2)) ∧
    t.stats.values.sum = t.size ∧
    (∀ {σ : Type} (runner : Runner σ) (fillers : Fillers) (stopOnError : Bool) (state : σ),
      (t.run runner fillers stopOnError state).template.stats = t.stats) ∧
    (∀ e r : Execution, e.template = t → Execution.decode e.encode = .ok r →
      r.template.stats = t.stats) ∧
    ∀ t' : Template,
      (Template.mk (t.statements ++ t'.statements)).stats.keys =
          t.stats.keys ++ t'.stats.keys.filter (fun key => key ∉ t.stats.keys) ∧
        ∀ key, ((Template.mk (t.statements ++ t'.statements)).stats.get? key).getD 0 =
          (t.stats.get? key).getD 0 + (t'.stats.get? key).getD 0 := by
  refine ⟨entries_stats fun c hc => (hwords c hc).1, t.sum_stats, fun _ _ _ _ => stats_run, ?_,
    t.stats_append⟩
  rintro e r rfl hdecode
  exact Execution.stats_of_decode hwords hdecode

private def vpcTemplate : Template :=
  ⟨[⟨some "net", Command.new "create" "vpc" .empty⟩,
    ⟨none, Command.new "delete" "vpc" (.ofList [("id", .reference "net")])⟩,
    ⟨none, Command.new "create" "vpc" (.ofList [("cidr=10 tier", .literal (.flag true))])⟩]⟩

private def vpcExecution : Execution where
  id := "01ARZ3NDEKTSV4RRFFQ69G5FAV"
  author := ""
  source := ""
  locale := "eu"
  profile := ""
  fillers := .empty
  template := vpcTemplate

/-- The key of the last command is written as two parameters. The reload, which reads both of them,
keeps the statistics nevertheless, and so does a run in which every command fails. -/
theorem stats_exact_vpc :
    vpcTemplate.stats.entries = [("create vpc", 2), ("delete vpc", 1)] ∧
    vpcTemplate.stats.values.sum = 3 ∧
    (vpcTemplate.run (fun _ (calls : Nat) => (.error ["down"], calls + 1)) .empty false
      0).template.stats = vpcTemplate.stats ∧
    (∃ r, Execution.decode vpcExecution.encode = .ok r ∧
      (r.template.commands.map fun c => c.parameters.keys) = [[], ["id"], ["cidr", "tier"]] ∧
        r.template.stats = vpcTemplate.stats) ∧
    ((Template.mk (vpcTemplate.statements ++ vpcTemplate.statements)).stats.get?
      "create vpc").getD 0 = 4 := by
  obtain ⟨hentries, hsum, hrun, hreload, happend⟩ := stats_exact (t := vpcTemplate) (by decide)
  have hrecord : (Json.Document.ofBytes? vpcExecution.encode).bind Record.ofDocument? =
      some (Record.ofExecution vpcExecution).reread :=
    Execution.ofDocument?_encode (by decide)
  have hdecode : Execution.decode vpcExecution.encode = .ok
      { vpcExecution with
        template := .ofCommands [.new "create" "vpc" .empty,
          .new "delete" "vpc" (.ofList [("id", .reference "net")]),
          .new "create" "vpc" (.ofList [("cidr", .literal (.number (.ofNat 10 (by decide)))),
            ("tier", .literal (.flag true))])] } := by
    rw [Execution.decode, hrecord]
    decide +kernel
  refine ⟨hentries.trans (by decide), hsum, hrun _ _ _ _, ⟨_, hdecode, by decide, ?_⟩, ?_⟩
  · exact hreload vpcExecution _ rfl hdecode
  · rw [(happend vpcTemplate).2]
    decide

end Template

end Runbook
