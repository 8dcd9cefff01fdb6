import Mathlib.Algebra.Order.Ring.Nat
import Runbook.Proofs.Identity
import Runbook.Proofs.Log.Listing
import Runbook.Proofs.Name

/-!
# The lines of a listing

In its two short forms a listing is meant to have one line for each record. What it says in its own
words stays on one line, and so do identities, keys, the names of commands and everything that is
counted. But some texts are quoted as they were stored, and so is what is said of bytes that are no
record. A line feed in one of them starts another line. So the lines are one for each record and one
more for each line feed that is quoted.

## Main definitions

* `Text.lineFeeds`: the number of line feeds in a text;
* `Execution.quoted`, `DecodeError.quoted`: the texts that are quoted;
* `Log.quoted`: what a listing quotes of a record.

## Main results

* `Execution.lineFeeds_summary`, `DecodeError.lineFeeds_message`: all other texts are on one line;
* `Log.one_line_unless_quoted`: a listing has one line for each record exactly if it quotes no line
  feed;
* `Log.splits_lines`: it may quote some.
-/

namespace Runbook

/-! ## Line feeds -/

namespace Text

/-- The number of line feeds in a text. -/
def lineFeeds (text : String) : Nat :=
  text.toList.count '\n'

@[simp]
theorem lineFeeds_append (first second : String) :
    lineFeeds (first ++ second) = lineFeeds first + lineFeeds second := by
  rw [lineFeeds, String.toList_append, List.count_append, lineFeeds, lineFeeds]

theorem lineFeeds_join (texts : List String) :
    lineFeeds (String.join texts) = (texts.map lineFeeds).sum := by
  induction texts with
  | nil => rfl
  | cons first rest ih => rw [String.join_cons, lineFeeds_append, ih, List.map_cons, List.sum_cons]

theorem lineFeeds_eq_zero_iff {text : String} : lineFeeds text = 0 ↔ '\n' ∉ text.toList :=
  List.count_eq_zero

/-- What stands around a text on the same line adds no line feed to it. -/
theorem lineFeeds_enclosed {front back : String} (hfront : lineFeeds front = 0)
    (hback : lineFeeds back = 0) (text : String) :
    lineFeeds (front ++ text ++ back) = lineFeeds text := by
  rw [lineFeeds_append, lineFeeds_append, hfront, hback, Nat.zero_add, Nat.add_zero]

/-- Names and what is written like them are on one line. -/
theorem lineFeeds_of_isPlain {text : String} (h : ∀ c ∈ text.toList, isPlain c = true) :
    lineFeeds text = 0 := by
  refine lineFeeds_eq_zero_iff.mpr fun hmem => ?_
  cases h '\n' hmem

/-- Numbers are on one line. -/
@[simp]
theorem lineFeeds_toString (n : Nat) : lineFeeds (toString n) = 0 := by
  refine lineFeeds_of_isPlain fun c hc => ?_
  have hdigits : c ∈ Nat.toDigits 10 n := by
    rwa [show (toString n).toList = Nat.toDigits 10 n from Nat.toList_repr] at hc
  have hdigit : c.isDigit = true := Nat.isDigit_of_mem_toDigits (by decide) le_rfl hdigits
  exact isPlain_of_isAlphanum (by simp [Char.isAlphanum, hdigit])

/-- Letters, digits, `-` and `_` are on one line. -/
theorem lineFeeds_of_forall {key : String}
    (h : ∀ c ∈ key.toList, (c.isAlphanum || c == '-' || c == '_') = true) : lineFeeds key = 0 := by
  refine lineFeeds_of_isPlain fun c hc => ?_
  have hc := h c hc
  simp only [Bool.or_eq_true, beq_iff_eq] at hc
  rcases hc with (hc | rfl) | rfl
  · exact isPlain_of_isAlphanum hc
  all_goals decide

end Text

open Text

/-- Ages are on one line. -/
theorem Instant.lineFeeds_age (i now : Instant) : lineFeeds (i.age now) = 0 := by
  have hamount (n : Nat) {unit : String} (hunit : lineFeeds unit = 0) :
      lineFeeds (amount n unit) = 0 := by
    have hblank : lineFeeds " " = 0 := by decide
    have hplural : lineFeeds (if n = 1 then "" else "s") = 0 := by split <;> decide
    unfold amount
    simp only [lineFeeds_append, lineFeeds_toString, hunit, hblank, hplural, Nat.add_zero]
  unfold age
  dsimp only
  split_ifs
  all_goals exact hamount _ (by decide)

/-! ## Errors -/

/-- The character that a fault is about. -/
def SyntaxFault.escaped : SyntaxFault → String
  | .unknownEscape c => String.ofList [c]
  | _ => ""

/-- The pieces of a text that an error in it quotes. -/
def SyntaxError.quoted (e : SyntaxError) : List String :=
  [e.token, e.fault.escaped]

/-- The texts that the reason why bytes are no execution quotes: what is said of bytes that are no
record, or pieces of a record. -/
def DecodeError.quoted (wording : Wording) : DecodeError → List String
  | .notRecord bytes => [wording bytes]
  | .identity text _ => [text]
  | .command _ error => error.quoted

theorem SyntaxFault.lineFeeds_reason (f : SyntaxFault) :
    lineFeeds f.reason = lineFeeds f.escaped := by
  cases f with
  | unknownEscape c => exact lineFeeds_enclosed (by decide) (by decide) (String.ofList [c])
  | missingWord word => cases word <;> rfl
  | malformedWord word => cases word <;> rfl
  | _ => rfl

theorem SyntaxError.lineFeeds_message (e : SyntaxError) :
    lineFeeds e.message = (e.quoted.map lineFeeds).sum := by
  have hstart : lineFeeds "syntax error on line " = 0 := by decide
  have hnear : lineFeeds " near '" = 0 := by decide
  have hend : lineFeeds "': " = 0 := by decide
  show lineFeeds ("syntax error on line " ++ toString e.line ++ " near '" ++ e.token ++ "': " ++
    e.fault.reason) = lineFeeds e.token + (lineFeeds e.fault.escaped + 0)
  simp only [lineFeeds_append, lineFeeds_toString, hstart, hnear, hend, Nat.zero_add, Nat.add_zero,
    e.fault.lineFeeds_reason]

/-- An error in words has the line feeds that it quotes. -/
theorem DecodeError.lineFeeds_message (wording : Wording) (e : DecodeError) :
    lineFeeds (e.message wording) = ((e.quoted wording).map lineFeeds).sum := by
  have hstart : lineFeeds "cannot decode template execution: " = 0 := by decide
  show lineFeeds ("cannot decode template execution: " ++ e.reason wording) = _
  rw [lineFeeds_append, hstart, Nat.zero_add]
  cases e with
  | notRecord bytes => rfl
  | identity text error =>
    have hreason : lineFeeds error.reason = 0 := by cases error <;> rfl
    have hinvalid : lineFeeds "invalid execution id '" = 0 := by decide
    have hend : lineFeeds "': " = 0 := by decide
    show lineFeeds ("invalid execution id '" ++ text ++ "': " ++ error.reason) =
      lineFeeds text + 0
    simp only [lineFeeds_append, hreason, hinvalid, hend, Nat.zero_add, Nat.add_zero]
  | command position error =>
    have hcommand : lineFeeds "command " = 0 := by decide
    have hend : lineFeeds ": " = 0 := by decide
    show lineFeeds ("command " ++ toString position ++ ": " ++ error.message) =
      (error.quoted.map lineFeeds).sum
    simp only [lineFeeds_append, lineFeeds_toString, hcommand, hend, Nat.zero_add, Nat.add_zero,
      error.lineFeeds_message]

/-! ## Executions -/

namespace Execution

/-- The stored texts that the summary of an execution quotes: where it ran, and who ran it on whose
behalf if that is known. -/
def quoted (e : Execution) : List String :=
  e.locale :: if e.author.isEmpty then [] else [e.profile, e.author]

variable {e : Execution}

/-- Identities consist of letters and digits. -/
theorem lineFeeds_id (h : e.IsWellFormed) : lineFeeds e.id = 0 := by
  obtain ⟨identity, hidentity⟩ := h.identity
  exact lineFeeds_of_forall (Directory.forall_of_isKey (Identity.takes_of_parse hidentity).1)

/-- The words of a command are names. -/
theorem lineFeeds_contents (h : e.IsWellFormed) : lineFeeds e.contents = 0 := by
  unfold contents
  split
  next c hcommands =>
    have hc : c.IsWellFormed := h.commands c (hcommands ▸ List.mem_singleton_self c)
    have haction := lineFeeds_of_isPlain (Name.isPlain_of_isActionWord hc.action).2
    have hentity := lineFeeds_of_isPlain (Name.isPlain_of_isActionWord hc.entity).2
    rw [Command.kind, lineFeeds_append, lineFeeds_append, haction, hentity]
    rfl
  next commands _ =>
    have hcommands : lineFeeds " commands" = 0 := by decide
    rw [lineFeeds_append, lineFeeds_toString, hcommands]

theorem lineFeeds_remark (policy : Policy) (e : Execution) : lineFeeds (e.remark policy) = 0 := by
  unfold remark
  split
  · rfl
  · decide

theorem lineFeeds_origin (e : Execution) :
    lineFeeds e.origin =
      if e.author.isEmpty then 0 else lineFeeds e.profile + lineFeeds e.author := by
  unfold origin
  split
  · rfl
  · split
    next hprofile =>
      have hempty : lineFeeds e.profile = 0 := by rw [String.isEmpty_iff.mp hprofile]; rfl
      rw [lineFeeds_enclosed (by decide) (by decide), hempty, Nat.zero_add]
    next =>
      have hopen : lineFeeds " <" = 0 := by decide
      have hcolon : lineFeeds ":" = 0 := by decide
      have hclose : lineFeeds ">" = 0 := by decide
      simp only [lineFeeds_append, hopen, hcolon, hclose, Nat.zero_add, Nat.add_zero]

/-- The summary of an execution has the line feeds that it quotes. -/
theorem lineFeeds_summary (h : e.IsWellFormed) (policy : Policy) (now : Instant) :
    lineFeeds (e.summary policy now).text = (e.quoted.map lineFeeds).sum := by
  obtain ⟨identity, hidentity⟩ := h.identity
  have hstatus : lineFeeds (if e.template.tally.allSucceeded then "OK" else "KO") = 0 := by
    split <;> decide
  have hlocale : lineFeeds (if e.locale.isEmpty then "" else " [" ++ e.locale ++ "]") =
      lineFeeds e.locale := by
    split
    next hempty => rw [String.isEmpty_iff.mp hempty]
    next => exact lineFeeds_enclosed (by decide) (by decide) e.locale
  have hblank : lineFeeds " " = 0 := by decide
  have hdash : lineFeeds " - " = 0 := by decide
  have hopen : lineFeeds " (" = 0 := by decide
  have hago : lineFeeds " ago)" = 0 := by decide
  unfold summary
  rw [creation_of_parse hidentity]
  simp only [Output.ofText, lineFeeds_append, lineFeeds_id h, lineFeeds_contents h,
    Instant.lineFeeds_age, lineFeeds_origin, lineFeeds_remark, hstatus, hlocale, hblank, hdash,
    hopen, hago, Nat.zero_add, Nat.add_zero]
  unfold quoted
  split
  · simp
  · simp; omega

end Execution

/-! ## Listings -/

namespace Log

/-- The texts that a listing in one of the short forms quotes for a record. -/
def quoted (wording : Wording) (format : Format) (record : String × ByteArray) : List String :=
  match Execution.decode record.2 with
  | .ok e => if format = .short then e.quoted else []
  | .error error => error.quoted wording

/-- The number of line feeds in what is quoted for a record. -/
def quotedFeeds (wording : Wording) (format : Format) (record : String × ByteArray) : Nat :=
  ((quoted wording format record).map lineFeeds).sum

theorem quotedFeeds_eq_zero_iff {wording : Wording} {format : Format}
    {record : String × ByteArray} :
    quotedFeeds wording format record = 0 ↔
      ∀ text ∈ quoted wording format record, '\n' ∉ text.toList := by
  rw [quotedFeeds, List.sum_eq_zero_iff_forall_eq_nat, List.forall_mem_map]
  simp only [lineFeeds_eq_zero_iff]

section Lines

variable (wording : Wording)

/-- A record is shown on a line of its own, apart from the line feeds that are quoted. -/
theorem exists_line {format : Format} (hformat : format = .identity ∨ format = .short)
    (now : Instant) {record : String × ByteArray}
    (hkey : ∀ c ∈ record.1.toList, (c.isAlphanum || c == '-' || c == '_') = true) :
    ∃ line, shown wording now format (loaded record) = line ++ "\n" ∧
      lineFeeds line = quotedFeeds wording format record := by
  unfold quotedFeeds quoted
  cases hdecode : Execution.decode record.2 with
  | error error =>
    refine ⟨_, shown_of_decode_error wording hdecode now format, ?_⟩
    have hstart : lineFeeds "Template '" = 0 := by decide
    have hend : lineFeeds "' in error: " = 0 := by decide
    simp only [lineFeeds_append, lineFeeds_of_forall hkey, error.lineFeeds_message wording, hstart,
      hend, Nat.zero_add]
  | ok e =>
    have he : e.IsWellFormed := Execution.isWellFormed_of_decode hdecode
    refine ⟨_, shown_of_decode wording hdecode now format, ?_⟩
    rcases hformat with rfl | rfl
    · exact Execution.lineFeeds_id he
    · exact Execution.lineFeeds_summary he .standard now

theorem lineFeeds_shown {format : Format} (hformat : format = .identity ∨ format = .short)
    (now : Instant) {record : String × ByteArray}
    (hkey : ∀ c ∈ record.1.toList, (c.isAlphanum || c == '-' || c == '_') = true) :
    lineFeeds (shown wording now format (loaded record)) =
      quotedFeeds wording format record + 1 := by
  obtain ⟨line, hline, hfeeds⟩ := exists_line wording hformat now hkey
  have hend : lineFeeds "\n" = 1 := by decide
  rw [hline, lineFeeds_append, hfeeds, hend]

/-- A listing has as many lines as records, and one more for each line feed that is quoted. -/
theorem lineFeeds_listing {format : Format} (hformat : format = .identity ∨ format = .short)
    (now : Instant) {records : List (String × ByteArray)}
    (hkeys : ∀ record ∈ records, ∀ c ∈ record.1.toList,
      (c.isAlphanum || c == '-' || c == '_') = true) :
    lineFeeds (String.join (records.map fun record => shown wording now format (loaded record))) =
      records.length + (records.map (quotedFeeds wording format)).sum := by
  rw [lineFeeds_join, List.map_map]
  induction records with
  | nil => rfl
  | cons record rest ih =>
    rw [List.forall_mem_cons] at hkeys
    simp only [List.map_cons, List.sum_cons, Function.comp_apply,
      lineFeeds_shown wording hformat now hkeys.1, List.length_cons, ih hkeys.2]
    omega

end Lines

/-- In the short forms a listing shows each record that is kept on a line of its own, and has one
more line for each line feed that is quoted, from a record or from what is said of bytes that are no
record. So it has as many lines as records exactly if no text that is quoted has a line feed; bytes
that are no record have one line if what is said of them is on one line. -/
theorem one_line_unless_quoted {σ : Type} [Store σ] [MappedStore σ] {store : σ}
    {m : SortedMap ByteArray} (h : MappedStore.Holds store m)
    (hkeys : ∀ record ∈ m.entries, ∀ c ∈ record.1.toList,
      (c.isAlphanum || c == '-' || c == '_') = true)
    (wording : Wording) {format : Format} (hformat : format = .identity ∨ format = .short)
    (now : Instant) (limit : Nat) :
    ∃ kept text, kept <:+ m.entries ∧
      kept.length = (if limit = 0 then m.entries.length else min limit m.entries.length) ∧
      Log.query wording now (listed format limit) store = (.ofText text, store) ∧
      text = String.join (kept.map fun record => shown wording now format (loaded record)) ∧
      (∀ record ∈ kept, ∃ line, shown wording now format (loaded record) = line ++ "\n" ∧
        lineFeeds line = quotedFeeds wording format record) ∧
      lineFeeds text = kept.length + (kept.map (quotedFeeds wording format)).sum ∧
      (lineFeeds text = kept.length ↔
        ∀ record ∈ kept, ∀ stored ∈ quoted wording format record, '\n' ∉ stored.toList) ∧
      ∀ record ∈ kept, ∀ bytes, Execution.decode record.2 = .error (.notRecord bytes) →
        '\n' ∉ (wording bytes).toList →
          lineFeeds (shown wording now format (loaded record)) = 1 := by
  have hsuffix := lastOf_suffix limit m.entries
  have hkept : ∀ record ∈ lastOf limit m.entries, ∀ c ∈ record.1.toList,
      (c.isAlphanum || c == '-' || c == '_') = true :=
    fun record hrecord => hkeys record (hsuffix.mem hrecord)
  have hfeeds := lineFeeds_listing wording hformat now hkept
  refine ⟨lastOf limit m.entries, _, hsuffix, length_lastOf limit m.entries,
    query_listed wording (MappedStore.records h) now format limit, rfl,
    fun record hrecord => exists_line wording hformat now (hkept record hrecord), hfeeds, ?_, ?_⟩
  · rw [hfeeds, Nat.add_eq_left, List.sum_eq_zero_iff_forall_eq_nat, List.forall_mem_map]
    simp only [quotedFeeds_eq_zero_iff]
  · intro record hrecord bytes hdecode hwording
    have hquoted : quoted wording format record = [wording bytes] := by
      rw [quoted, hdecode]
      rfl
    have hnone : quotedFeeds wording format record = 0 := by
      rw [quotedFeeds_eq_zero_iff, hquoted, List.forall_mem_singleton]
      exact hwording
    rw [lineFeeds_shown wording hformat now (hkept record hrecord), hnone]

/-- A record whose identity is no text. -/
private def numbered : ByteArray := "\x7b\"id\": 42\x7d".toUTF8

/-- Bytes that spell no value, an identity that is no text, a record with an author, and a record
whose identity is none. -/
private def clean : List (String × ByteArray) :=
  [("01", "oops".toUTF8),
    ("01A", numbered),
    ("01B", ("\x7b\"id\":\"01ARZ3NDEKTSV4RRFFQ69G5FAV\",\"author\":\"ops\"," ++
      "\"commands\":[\x7b\"line\":\"stop vm id=i-1\"\x7d]\x7d").toUTF8),
    ("01C", "\x7b\"id\":\"here\"\x7d".toUTF8)]

/-- What is said of the first two of these records. -/
private def complaint : Wording := fun bytes =>
  if bytes == numbered then "invalid type: integer `42`, expected a string at line 1 column 9"
  else "expected value at line 1 column 1"

/-- The listing of these records has a line for each of them. -/
theorem one_line_unless_quoted_clean :
    (∀ record ∈ clean, ∀ c ∈ record.1.toList, (c.isAlphanum || c == '-' || c == '_') = true) ∧
    ∃ text, (Log.query complaint ⟨0⟩ (listed .short 0) (⟨.ofList clean⟩ : Memory)).1 =
        .ofText text ∧
      lineFeeds text = 4 ∧
      lineFeeds (shown complaint ⟨0⟩ .short (loaded ("01A", numbered))) = 1 := by
  have hkeys : ∀ record ∈ clean, ∀ c ∈ record.1.toList,
      (c.isAlphanum || c == '-' || c == '_') = true := by
    have hvalid : ∀ record ∈ clean, Directory.isKey record.1 = true := by decide
    exact fun record hrecord => Directory.forall_of_isKey (hvalid record hrecord)
  have hquoted : ∀ record ∈ clean, ∀ stored ∈ quoted complaint .short record,
      '\n' ∉ stored.toList := by
    decide +kernel
  have hentries : (SortedMap.ofList clean).entries = clean := rfl
  have hholds : MappedStore.Holds (⟨.ofList clean⟩ : Memory) (.ofList clean) := rfl
  obtain ⟨kept, text, hsuffix, hlength, hquery, -, -, -, hlines, hcorrupt⟩ :=
    one_line_unless_quoted hholds (hentries ▸ hkeys) complaint (.inr rfl) ⟨0⟩ 0
  have hkept : kept = clean := hentries ▸ hsuffix.eq_of_length hlength
  rw [hkept] at hlines hcorrupt
  refine ⟨hkeys, text, by rw [hquery], hlines.mpr hquoted, ?_⟩
  exact hcorrupt ("01A", numbered) (List.mem_cons_of_mem _ List.mem_cons_self) numbered
    (by decide +kernel) (by decide +kernel)

/-- A record that names an author of two lines. -/
private def signed : String × ByteArray :=
  ("10000000000000000000000000",
    "\x7b\"id\":\"10000000000000000000000000\",\"author\":\"ops\\nops\"\x7d".toUTF8)

/-- A record with an identity of two lines. -/
private def split : String × ByteArray :=
  ("10000000000000000000000000", "\x7b\"id\":\"here\\nthere\"\x7d".toUTF8)

/-- The line of an execution goes on in another line behind a line feed in its author, and so does
that of a record behind a line feed in its identity. So one record has two lines, whatever is said
of bytes that are no record. -/
theorem splits_lines :
    (∀ wording, ∃ text,
      (Log.query wording ⟨0⟩ (listed .short 0) (⟨.ofList [signed]⟩ : Memory)).1 = .ofText text ∧
      text = "10000000000000000000000000 OK - 0 commands (0 seconds ago) <ops\nops>\n" ∧
      [signed].length = 1 ∧ lineFeeds text = 2) ∧
    ∀ wording, ∃ text,
      (Log.query wording ⟨0⟩ (listed .identity 0) (⟨.ofList [split]⟩ : Memory)).1 = .ofText text ∧
      text = "Template '10000000000000000000000000' in error: cannot decode template " ++
        "execution: invalid execution id 'here\nthere': invalid length\n" ∧
      [split].length = 1 ∧ lineFeeds text = 2 := by
  constructor
  · intro wording
    have hrecords : Store.records (⟨.ofList [signed]⟩ : Memory) = .ok [signed] := rfl
    have hdecode : Execution.decode signed.2 =
        .ok ⟨"10000000000000000000000000", "ops\nops", "", "", "", .empty, .ofCommands []⟩ := by
      decide +kernel
    refine ⟨_, ?_, rfl, rfl, by decide +kernel⟩
    rw [query_listed_singleton wording hrecords, shown_of_decode wording hdecode]
    decide +kernel
  · intro wording
    have hrecords : Store.records (⟨.ofList [split]⟩ : Memory) = .ok [split] := rfl
    have hdecode : Execution.decode split.2 = .error (.identity "here\nthere" .length) := by
      decide +kernel
    have hmessage : DecodeError.message wording (.identity "here\nthere" .length) =
        "cannot decode template execution: " ++
          ("invalid execution id '" ++ "here\nthere" ++ "': " ++ "invalid length") := rfl
    refine ⟨_, ?_, rfl, rfl, by decide +kernel⟩
    rw [query_listed_singleton wording hrecords, shown_of_decode_error wording hdecode, hmessage]
    decide +kernel

end Log

end Runbook
