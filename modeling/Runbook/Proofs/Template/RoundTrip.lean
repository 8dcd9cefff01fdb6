import Runbook.Proofs.Statement.RoundTrip
import Runbook.Proofs.Template.Scoped

/-!
# Reading the text of a template

The canonical text of a scoped template of well-formed statements is read, with every number read
anew. So the text of commands, declarations and templates that have not run and whose
double-precision numbers read back is read as what it was written from.

## Main results

* `Template.ofText_text`: the text of a scoped template of well-formed statements is read;
* `Template.reading_undoes_writing`: commands, declarations and templates are read as themselves.
-/

namespace Runbook

namespace Command

@[simp]
theorem references_reread (c : Command) : c.reread.references = c.references := by
  simp only [references, reread, new, OrderedMap.values_map, List.filterMap_map]
  congr 1
  funext v
  cases v <;> rfl

end Command

namespace Statement

/-- A declaration is written as its name, the sign `=` and its command. -/
theorem text_declaration (name : String) (c : Command) :
    (⟨some name, c⟩ : Statement).text = name ++ " = " ++ c.text := by
  rw [← String.toList_inj]
  simp [text, chars, Command.text]

end Statement

namespace Template

/-- A well-formed statement is written on a line that holds a statement. -/
private theorem isSkipped_chars {s : Statement} (h : s.IsWellFormed) :
    isSkipped s.chars = false := by
  obtain ⟨c, cs, hcs, hc⟩ := s.exists_cons_chars h
  have hsigil := isSigil_of_isPlain hc
  simp only [Literal.isSigil, Bool.or_eq_false_iff] at hsigil
  rw [hcs, isSkipped]
  exact hsigil.2

/-- The lines of scoped well-formed statements are read. -/
theorem readLines_map_chars {statements : List Statement}
    (hwell : ∀ s ∈ statements, s.IsWellFormed) {declared : List String}
    (hscoped : Statement.AreScoped declared statements) (number : Nat) :
    readLines declared number (statements.map Statement.chars) =
      .ok (statements.map Statement.reread) := by
  induction statements generalizing declared number with
  | nil => rfl
  | cons s rest ih =>
    have hs := hwell s List.mem_cons_self
    have hrest := ih (fun t ht => hwell t (List.mem_cons_of_mem s ht)) hscoped.2.2 (number + 1)
    -- Reading anew touches no name, so the statement is in scope where the one written was.
    have hline : readLine declared number s.chars = .ok s.reread := by
      refine readLine_eq_ok_iff.mpr ⟨s.ofText_text hs, ?_, hscoped.2.1⟩
      rw [Statement.reread, Command.references_reread]
      exact hscoped.1
    rw [List.map_cons, readLines]
    simp only [(s.isTidy_chars hs).trim_eq_self, isSkipped_chars hs, Bool.false_eq_true, if_false,
      hline]
    rw [Statement.reread, hrest]
    rfl

/-- The text of a scoped template of well-formed statements is read, with every number read
anew. -/
theorem ofText_text {t : Template} (hwell : ∀ s ∈ t.statements, s.IsWellFormed)
    (hscoped : t.IsScoped) : ofText t.text = .ok t.reread := by
  have hlines : Text.lines t.text.toList = t.statements.map Statement.chars := by
    rw [text, String.toList_ofList, chars]
    exact Text.lines_flatMap_of_isTidy _ fun s hs => s.isTidy_chars (hwell s hs)
  rw [ofText, hlines, readLines_map_chars hwell (isScoped_iff.mp hscoped)]
  rfl

/-- The text of bare commands that refer to nothing is read, with every number read anew. -/
theorem ofText_text_of_bare {t : Template} (hbare : ∀ s ∈ t.statements, s.name = none)
    (h : ∀ c ∈ t.commands, c.IsWellFormed ∧ c.references = []) : ofText t.text = .ok t.reread := by
  have hwell : ∀ s ∈ t.statements, s.IsWellFormed := fun s hs =>
    ⟨by simp [hbare s hs], (h s.command (List.mem_map_of_mem hs)).1⟩
  have hnames : Statement.names t.statements = [] := List.filterMap_eq_nil_iff.mpr hbare
  refine ofText_text hwell ⟨hnames ▸ List.nodup_nil, ?_⟩
  intro before s after hsplit name hname
  have hs : s ∈ t.statements := by simp [hsplit]
  rw [(h s.command (List.mem_map_of_mem hs)).2] at hname
  exact absurd hname List.not_mem_nil

/-- Reading undoes writing. A well-formed command that has not run and whose double-precision
numbers read back is read from its text with the same parameters in the same order, by itself and
behind a declared name. A template of such statements is read from its text if it is scoped. -/
theorem reading_undoes_writing :
    (∀ c : Command, c.IsWellFormed → c.outcome = .pending → (∀ x ∈ c.floats, x.ReadsBack) →
      Statement.ofText c.text = .ok ⟨none, c⟩ ∧
        ∀ name : String, Name.isIdentifier name.toList = true →
          Statement.ofText (name ++ " = " ++ c.text) = .ok ⟨some name, c⟩) ∧
    ∀ t : Template,
      (∀ s ∈ t.statements, s.IsWellFormed ∧ s.command.outcome = .pending ∧
        ∀ x ∈ s.command.floats, x.ReadsBack) →
      t.IsScoped → Template.ofText t.text = .ok t := by
  refine ⟨fun c hwell hpending hfloats => ?_, fun t ht hscoped => ?_⟩
  · have hself := c.reread_eq_self hpending hfloats
    refine ⟨by rw [Statement.ofText_text_command hwell, hself], ?_⟩
    intro name hname
    have hdeclaration : (⟨some name, c⟩ : Statement).IsWellFormed :=
      ⟨fun other hother => Option.some.inj hother ▸ hname, hwell⟩
    rw [← Statement.text_declaration, Statement.ofText_text hdeclaration, Statement.reread, hself]
  · rw [ofText_text (fun s hs => (ht s hs).1) hscoped]
    rw [reread_eq_self (fun s hs => (ht s hs).2.1) fun s hs => (ht s hs).2.2]

/-- A command with texts that look like other values or need escapes. -/
private def sampleCommand : Command :=
  .new "create" "vpc" (.ofList
    [("name", .literal (.text "true")), ("note", .literal (.text "say \"#1\" \\ 'x'\r\n")),
      ("empty", .literal (.text "")),
      ("cost", .literal (.number (.float ⟨true, ⟨0x18000000000000, -52⟩⟩)))])

/-- A template that declares `net` and refers to it, with integers at the ends of their range. -/
private def sampleTemplate : Template :=
  ⟨[⟨some "net", sampleCommand⟩,
    ⟨none, .new "attach" "gate" (.ofList
      [("to", .reference "net"), ("size", .hole "gate.size"),
        ("range", .literal (.list [.number (.integer (-0x8000000000000000) (by decide) (by decide)),
          .number (.integer 0xffffffffffffffff (by decide) (by decide)), .text "a b",
          .flag false]))])⟩]⟩

/-- A command, a declaration and a template with values of every kind are read as themselves. -/
theorem reading_undoes_writing_sample :
    Statement.ofText sampleCommand.text = .ok ⟨none, sampleCommand⟩ ∧
      Statement.ofText ("net" ++ " = " ++ sampleCommand.text) = .ok ⟨some "net", sampleCommand⟩ ∧
      Template.ofText sampleTemplate.text = .ok sampleTemplate := by
  have hcommand : sampleCommand.IsWellFormed := by decide
  have hfloats : ∀ x ∈ sampleCommand.floats, x.ReadsBack := by decide +kernel
  have hread := reading_undoes_writing.1 sampleCommand hcommand rfl hfloats
  have hstatements : ∀ s ∈ sampleTemplate.statements, s.IsWellFormed ∧
      s.command.outcome = .pending ∧ ∀ x ∈ s.command.floats, x.ReadsBack := by decide +kernel
  have hscoped : sampleTemplate.IsScoped := by decide
  exact ⟨hread.1, hread.2 "net" (by decide), reading_undoes_writing.2 _ hstatements hscoped⟩

end Template

end Runbook
