import Runbook.FileFault

/-!
# Paths

A path is a text whose pieces are set apart by slashes. It is followed piece by piece: an empty
piece and `.` lead nowhere else, `..` leads to the folder above, and any other piece is a name.
-/

namespace Runbook.Path

/-- The pieces of a text between slashes. -/
def pieces : List Char → List (List Char)
  | [] => [[]]
  | '/' :: cs => [] :: pieces cs
  | c :: cs =>
    match pieces cs with
    | [] => [[c]]
    | piece :: rest => (c :: piece) :: rest

/-- Whether a path starts at the root. -/
def isAbsolute : List Char → Bool
  | '/' :: _ => true
  | _ => false

/-- Whether a piece is a component wherever it stands. -/
def isNamed (piece : List Char) : Bool :=
  piece ≠ [] && piece ≠ ['.']

/-- The components of a path. The root is one, and `.` is one at the start only. -/
def components (path : List Char) : List (List Char) :=
  let named := (pieces path).filter isNamed
  if isAbsolute path then ['/'] :: named
  else if (pieces path).head? = some ['.'] then ['.'] :: named
  else named

/-- A path below another one; an absolute path stays as it is. -/
def join (base path : List Char) : List Char :=
  if isAbsolute path then path
  else
    match base.getLast? with
    | none => path
    | some c => if c = '/' then base ++ path else base ++ '/' :: path

/-- Whether a path closes with `.`, with or without slashes behind it. -/
def endsInDot (path : List Char) : Bool :=
  ((pieces path).filter (· ≠ [])).getLast? = some ['.']

/-- The greatest number of bytes of a name. -/
def nameLimit : Nat := 255

/-- The greatest number of bytes of a path. -/
def lengthLimit : Nat := 4095

/-- The number of bytes of a text. -/
def byteSize (cs : List Char) : Nat :=
  (String.ofList cs).utf8ByteSize

/-- Why a path cannot be followed, whatever there is. -/
def fault? (path : List Char) : Option FileFault :=
  if path.contains '\x00' then some .nullCharacter
  else if path = [] then some .absent
  else if lengthLimit < byteSize path then some .nameTooLong
  else none

/-- The pieces of a path put together again give the path. -/
theorem intercalate_pieces (path : List Char) :
    ['/'].intercalate (pieces path) = path := by
  fun_induction pieces path with
  | case1 => rfl
  | case2 cs ih =>
    cases h : pieces cs with
    | nil => simp [h] at ih; subst ih; simp [pieces] at h
    | cons piece rest => rw [h] at ih; simp [List.intercalate, ← ih]
  | case3 c cs _ h ih => rw [h] at ih; simp at ih; subst ih; rfl
  | case4 c cs _ piece rest h ih =>
    rw [h] at ih
    cases rest <;> simp_all [List.intercalate]

end Runbook.Path
