import Runbook.CommandLine
import Runbook.Location
import Runbook.Store.Directory
import Std.Time.DateTime.Timestamp

/-!
# The program

Reads what a command line needs from the machine, performs it on a picture of the log directory,
and carries the changes over to the directory.
-/

namespace Runbook.Program

/-- The variable that names the directory of the log. -/
def logVariable : String := "RUNBOOK_LOG_DIR"

/-- What is said when a command line is not understood. -/
def usage : String :=
  "Usage: runbook [--log-dir DIR] COMMAND\n\n" ++
  "Commands:\n" ++
  "  log [ID] [--delete-all] [--delete ID] [--raw-json | --short | --id-only | --full] [-n N]\n" ++
  "  check FILE\n" ++
  "  simulate FILE [--fill NAME=VALUE]... [--author A] [--profile P] [--locale L] " ++
  "[--stop-on-error]\n" ++
  "  revert ID\n"

/-- A variable of the environment, if it is set and not empty. -/
def setting? (name : String) : IO (Option String) := do
  return (← IO.getEnv name).filter fun value => !value.isEmpty

/-- The variables that decide where the log lies. -/
def surroundings : IO Surroundings := do
  return {
    home := ← setting? "HOME"
    configurations := ← setting? "XDG_CONFIG_HOME"
    log := ← setting? logVariable }

/-- Why reading a file failed. -/
def faultOf : IO.Error → FileFault
  | .noFileOrDirectory .. => .absent
  | .inappropriateType _ code _ => if code = 21 then .isFolder else .notFolder
  | .invalidArgument .. => .nameTooLong
  | .permissionDenied .. => .other "Permission denied (os error 13)"
  | error => .other (toString error)

/-- The text of a file, or why it cannot be read. -/
def fileText (file : String) : IO (Except FileFault String) := do
  match Path.fault? file.toList with
  | some fault => return .error fault
  | none =>
    try
      match String.fromUTF8? (← IO.FS.readBinFile file) with
      | some text => return .ok text
      | none => return .error .notText
    catch error => return .error (faultOf error)

/-- What is said of bytes that are no record. The reader of this program finds that there is a fault
and not what it is. -/
def wording : Wording := fun _ => "not a stored record"

/-- The template file that a request reads. -/
def templateFile? : Request → Option String
  | .check file => some file
  | .simulate s => some s.file
  | .log _ | .revert _ => none

/-- A picture of a directory: what is named as a record in it. -/
def readDirectory (root : String) : IO Directory := do
  let folder := (← IO.currentDir) / root
  if !(← folder.pathExists) then return .absent
  let mut picture : Directory := ⟨some .empty⟩
  -- Other files and folders are left out, so they are never written or removed.
  for entry in ← folder.readDir do
    if (Directory.key? entry.fileName).isSome then
      let item ←
        if ← entry.path.isDir then pure (FileTree.folder [])
        else pure (.file (← IO.FS.readBinFile entry.path))
      picture := picture.place entry.fileName item
  return picture

/-- Carries the differences between two pictures of a directory over to it. -/
def writeDirectory (root : String) (before after : Directory) : IO Unit := do
  let folder := (← IO.currentDir) / root
  if after.items.isSome && before.items.isNone then IO.FS.createDirAll folder
  for (name, item) in after.contents.entries do
    match item, before.contents.get? name with
    | .file bytes, some (.file old) =>
      if bytes != old then IO.FS.writeBinFile (folder / name) bytes
    | .file bytes, _ => IO.FS.writeBinFile (folder / name) bytes
    | .folder _, _ => pure ()
  -- What is gone from the picture was deleted.
  for (name, _) in before.contents.entries do
    if (after.contents.get? name).isNone then IO.FS.removeFile (folder / name)

/-- The time of the clock. -/
def clock : IO Instant := do
  return ⟨(← Std.Time.Timestamp.now).toMillisecondsSinceUnixEpoch.toInt⟩

/-- An identity of the given instant with random bits from the machine. -/
def freshIdentity (now : Instant) : IO Identity := do
  let random ← IO.getRandomBytes 10
  return .ofInstant now (random.foldl (fun n byte => n * 256 + byte.toNat) 0)

/-- Performs an invocation, prints its output and gives the exit code. -/
def perform (invocation : Invocation) : IO UInt32 := do
  let root := (← surroundings).root invocation.logDirectory
  let text ←
    match templateFile? invocation.request with
    | some file => fileText file
    | none => pure (.ok "")
  let now ← clock
  let context : Context := {
    fileText := fun _ => text
    now
    fresh := ← freshIdentity now
    user := ← IO.getEnv "USER"
    wording }
  -- The request sees a picture of the log as it is now.
  let before ← readDirectory root
  let (output, after) := CommandLine.perform context before invocation.request
  writeDirectory root before after
  IO.print output.text
  match output.error with
  | none => return 0
  | some failure =>
    IO.eprintln ("Error: " ++ failure.message wording)
    return 1

end Runbook.Program

/-- Runs the program with the arguments of its command line. -/
def main (arguments : List String) : IO UInt32 := do
  match Runbook.Invocation.ofArguments? arguments with
  | some invocation => Runbook.Program.perform invocation
  | none =>
    IO.eprint Runbook.Program.usage
    return 2
