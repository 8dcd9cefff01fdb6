import Mathlib.Data.List.Basic
import Runbook.Json.Document
import Runbook.Json.Printer

/-!
# Reading quoted texts

A text that is written between quotes is read as itself. Each character gives one piece, its own
or the code unit of a control character, and no such code unit is half of a pair.

## Main results

* `Json.textBody?_quoted`: what follows the opening quote of a text is read as the text.
-/

namespace Runbook.Json

/-- The digits of a code unit below 32 spell it. -/
private theorem codeUnit?_control : ∀ n < 32,
    codeUnit? (some '0') (some '0') (some (Nat.digitChar (n / 16)))
      (some (Nat.digitChar (n % 16))) = some n := by
  decide

/-- A code unit that is no half of a pair stands for its character, whatever follows. -/
theorem joinPieces?_unit {u : Nat} (h : u < 0x20) (ps : List Piece) :
    joinPieces? (.unit u :: ps) = (joinPieces? ps).map (Char.ofNat u :: ·) := by
  have hleading : isLeading u = false := by simp [isLeading]; omega
  have htrailing : isTrailing u = false := by simp [isTrailing]; omega
  -- Only a leading half of a pair looks at what follows, and a control character is none.
  cases ps with
  | nil => simp [joinPieces?, hleading, htrailing]
  | cons p ps => cases p <;> simp [joinPieces?, hleading, htrailing]

/-- A short escape gives its character. -/
private theorem pieces?_escaped {e c : Char} (he : unescape? e = some c) (rest : List Text.Symbol) :
    pieces? (some '\\' :: some e :: rest) =
      (pieces? rest).map fun (ps, rest) => (.char c :: ps, rest) := by
  have hne : e ≠ 'u' := by
    rintro rfl
    cases he
  simp [pieces?, he, hne]

/-- An escaped character gives one piece, which stands for it. -/
private theorem exists_piece_escape (c : Char) : ∃ piece,
    (∀ rest, pieces? ((escape c).map some ++ rest) =
      (pieces? rest).map fun (ps, rest) => (piece :: ps, rest)) ∧
    ∀ ps, joinPieces? (piece :: ps) = (joinPieces? ps).map (c :: ·) := by
  by_cases hquote : c = '"'
  · subst hquote; exact ⟨.char '"', pieces?_escaped rfl, fun _ => rfl⟩
  by_cases hslash : c = '\\'
  · subst hslash; exact ⟨.char '\\', pieces?_escaped rfl, fun _ => rfl⟩
  by_cases hback : c = '\x08'
  · subst hback; exact ⟨.char '\x08', pieces?_escaped rfl, fun _ => rfl⟩
  by_cases hform : c = '\x0c'
  · subst hform; exact ⟨.char '\x0c', pieces?_escaped rfl, fun _ => rfl⟩
  by_cases hfeed : c = '\n'
  · subst hfeed; exact ⟨.char '\n', pieces?_escaped rfl, fun _ => rfl⟩
  by_cases hreturn : c = '\r'
  · subst hreturn; exact ⟨.char '\r', pieces?_escaped rfl, fun _ => rfl⟩
  by_cases htab : c = '\t'
  · subst htab; exact ⟨.char '\t', pieces?_escaped rfl, fun _ => rfl⟩
  -- Seven characters have short escapes. The other control characters are written as code
  -- units, the only ones that are, and every other character stands for itself.
  by_cases hcontrol : c.toNat < 0x20
  · refine ⟨.unit c.toNat, fun rest => ?_, fun ps => ?_⟩
    · simp [escape, hquote, hslash, hback, hform, hfeed, hreturn, htab, hcontrol, pieces?,
        codeUnit?_control c.toNat hcontrol]
    · rw [joinPieces?_unit hcontrol, Char.ofNat_toNat]
  · refine ⟨.char c, fun rest => ?_, fun _ => rfl⟩
    simp [escape, hquote, hslash, hback, hform, hfeed, hreturn, htab, hcontrol, pieces?]

/-- The pieces of a text between quotes spell the text. -/
private theorem exists_pieces_flatMap_escape (cs : List Char) (rest : List Text.Symbol) :
    ∃ ps, pieces? ((cs.flatMap escape).map some ++ some '"' :: rest) = some (ps, rest) ∧
      joinPieces? ps = some cs := by
  induction cs with
  | nil => exact ⟨[], by simp [pieces?], rfl⟩
  | cons c cs ih =>
    obtain ⟨ps, hps, hjoin⟩ := ih
    obtain ⟨piece, hpiece, hcons⟩ := exists_piece_escape c
    refine ⟨piece :: ps, ?_, by rw [hcons, hjoin]; rfl⟩
    rw [List.flatMap_cons, List.map_append, List.append_assoc, hpiece, hps]
    rfl

/-- A text between quotes, behind the opening one, is read as the text. -/
theorem textBody?_quoted (text : String) (rest : List Text.Symbol) :
    textBody? ((text.toList.flatMap escape).map some ++ some '"' :: rest) =
      some (some text, rest) := by
  obtain ⟨ps, hps, hjoin⟩ := exists_pieces_flatMap_escape text.toList rest
  rw [textBody?, hps]
  simp only [Option.map_some, hjoin, String.ofList_toList]

end Runbook.Json
