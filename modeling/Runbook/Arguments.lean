/-!
# Arguments

Splitting the arguments of a command line into options and operands. An option has a long name,
written behind two dashes, and may have a one-letter name, written behind one. The value of an
option follows behind `=`, or directly behind a one-letter name, or as the next argument, which
then must not start with a dash unless it is a dash. Behind `--` everything is an operand.
-/

namespace Runbook

/-- An option that a command knows. -/
structure OptionSpec where
  /-- The name behind two dashes. -/
  long : String
  /-- The name behind one dash. -/
  short : Option Char
  /-- Whether the option has a value. -/
  hasValue : Bool
  /-- Whether the option may be given several times. -/
  repeats : Bool
deriving DecidableEq, Repr

/-- Options with their values, empty for an option without value, and operands, in order. -/
structure Arguments where
  /-- The options by long name. -/
  options : List (String × String)
  /-- The other arguments. -/
  operands : List String
deriving DecidableEq, Repr

namespace OptionSpec

/-- An option without value. -/
def flag (long : String) : OptionSpec := ⟨long, none, false, false⟩

/-- An option with a value. -/
def valued (long : String) : OptionSpec := ⟨long, none, true, false⟩

end OptionSpec

namespace Arguments

/-- What one argument is. -/
inductive Piece where
  /-- The end of the options. -/
  | finish
  /-- An operand. -/
  | operand (text : String)
  /-- An option, complete in itself. -/
  | complete (name value : String)
  /-- An option whose value is the next argument. -/
  | awaiting (name : String)
  /-- An option that the command does not know, or one that is misused. -/
  | refused
deriving DecidableEq, Repr

/-- The parts of a text before and behind its first `=`, the latter if there is one. -/
def splitAtEquals (cs : List Char) : List Char × Option (List Char) :=
  match cs.dropWhile (· != '=') with
  | [] => (cs, none)
  | _ :: value => (cs.takeWhile (· != '='), some value)

/-- What an argument behind two dashes is. -/
def longPiece (specs : List OptionSpec) (cs : List Char) : Piece :=
  let (name, value) := splitAtEquals cs
  match specs.find? (fun spec => spec.long.toList == name), value with
  | some spec, none => if spec.hasValue then .awaiting spec.long else .complete spec.long ""
  -- An option without value does not take one behind `=`.
  | some spec, some value =>
    if spec.hasValue then .complete spec.long (String.ofList value) else .refused
  | none, _ => .refused

/-- What an argument behind one dash is. -/
def shortPiece (specs : List OptionSpec) (letter : Char) (cs : List Char) : Piece :=
  match specs.find? fun spec => spec.short == some letter && spec.hasValue with
  | none => .refused
  | some spec =>
    match cs with
    | [] => .awaiting spec.long
    | '=' :: value => .complete spec.long (String.ofList value)
    | value => .complete spec.long (String.ofList value)

/-- What an argument is, where options are still expected. -/
def piece (specs : List OptionSpec) (argument : String) : Piece :=
  match argument.toList with
  | ['-', '-'] => .finish
  | '-' :: '-' :: cs => longPiece specs cs
  | '-' :: letter :: cs => shortPiece specs letter cs
  | _ => .operand argument

/-- Whether an argument can be the value of the option before it. -/
def isValue (argument : String) : Bool :=
  match argument.toList with
  -- A single dash is a value.
  | '-' :: _ :: _ => false
  | _ => true

/-- The arguments with an option before them. -/
def withOption (name value : String) (a : Arguments) : Arguments :=
  { a with options := (name, value) :: a.options }

/-- The arguments with an operand before them. -/
def withOperand (text : String) (a : Arguments) : Arguments :=
  { a with operands := text :: a.operands }

/-- The options before the first operand, that operand and the arguments behind it. -/
def untilOperand? (specs : List OptionSpec) :
    List String → Option (List (String × String) × String × List String)
  | [] => none
  | argument :: rest =>
    match piece specs argument with
    | .operand text => some ([], text, rest)
    | .complete name value =>
      (untilOperand? specs rest).map fun (options, found) => ((name, value) :: options, found)
    | .awaiting name =>
      match rest with
      | value :: rest =>
        if isValue value then
          (untilOperand? specs rest).map fun (options, found) => ((name, value) :: options, found)
        else none
      | [] => none
    | .finish | .refused => none

/-- All arguments split into options and operands. -/
def read? (specs : List OptionSpec) : List String → Option Arguments
  | [] => some ⟨[], []⟩
  | argument :: rest =>
    match piece specs argument with
    | .finish => some ⟨[], rest⟩
    | .operand text => (read? specs rest).map (withOperand text)
    | .complete name value => (read? specs rest).map (withOption name value)
    | .awaiting name =>
      match rest with
      | value :: rest =>
        if isValue value then (read? specs rest).map (withOption name value) else none
      | [] => none
    | .refused => none

/-- Whether no option is given more often than it may. -/
def areUnrepeated (specs : List OptionSpec) (options : List (String × String)) : Bool :=
  -- Options that are not among `specs` have been refused before.
  specs.all fun spec =>
    spec.repeats || (options.countP fun option => option.1 == spec.long) ≤ 1

/-- Whether an option is given. -/
def has (a : Arguments) (name : String) : Bool :=
  a.options.any fun option => option.1 == name

/-- The value of an option. -/
def value? (a : Arguments) (name : String) : Option String :=
  a.options.lookup name

/-- The values of an option, in order. -/
def values (a : Arguments) (name : String) : List String :=
  (a.options.filter fun option => option.1 == name).map Prod.snd

end Arguments

end Runbook
