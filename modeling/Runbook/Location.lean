import Runbook.Path
import Runbook.Text.Blank

/-!
# Where the log lies

The directory of the log: the one that is asked for, else the one that the environment names, else
one below the directory for configurations. A path whose first component is `~` lies in the home
directory.
-/

namespace Runbook

/-- The variables of the environment that decide where the log lies. -/
structure Surroundings where
  /-- The home directory. -/
  home : Option String
  /-- The directory for configurations. -/
  configurations : Option String
  /-- The directory of the log. -/
  log : Option String
deriving DecidableEq, Repr

namespace Surroundings

/-- A path with a leading `~` replaced by the home directory. Blanks around such a path are
dropped. -/
def expand (s : Surroundings) (path : String) : String :=
  let home := (s.home.getD "~").toList
  match (Path.components path.toList).head? with
  | some component =>
    if component = ['~'] then
      match Text.trim path.toList with
      | ['~'] => String.ofList home
      | '~' :: '/' :: rest => String.ofList (Path.join home rest)
      | trimmed => String.ofList trimmed
    else path
  | none => String.ofList (Text.trim path.toList)

/-- The directory for configurations: the given one if it is absolute, else one in the home
directory. -/
def configurationRoot (s : Surroundings) : List Char :=
  let inHome := (s.home.map fun home => Path.join home.toList ".config".toList).getD ['.']
  match s.configurations with
  | some given => if Path.isAbsolute given.toList then given.toList else inHome
  | none => inHome

/-- The directory of the log where none is asked for. -/
def defaultRoot (s : Surroundings) : String :=
  let fallback := Path.join (Path.join s.configurationRoot "runbook".toList) "logs".toList
  match s.log with
  | some path =>
    if (Text.trim path.toList).isEmpty then String.ofList fallback else s.expand path
  | none => String.ofList fallback

/-- The directory of the log. -/
def root (s : Surroundings) : Option String → String
  | some path => s.expand path
  | none => s.defaultRoot

end Surroundings

end Runbook
