import Runbook.Policy
import Runbook.Template

/-!
# Counting commands

How many commands of a template failed, how many of each kind there are, and whether all of them
can be reversed.
-/

namespace Runbook

/-- The number of commands without and with an error. -/
structure Tally where
  /-- The commands without an error, including those that did not run. -/
  succeeded : Nat
  /-- The commands with an error. -/
  failed : Nat
deriving DecidableEq, Repr

namespace Tally

/-- The number of commands. -/
def total (t : Tally) : Nat :=
  t.succeeded + t.failed

/-- Whether no command has an error. -/
def allSucceeded (t : Tally) : Bool :=
  t.failed == 0

end Tally

namespace Template

/-- Counts the commands by whether they have an error. -/
def tally (t : Template) : Tally where
  succeeded := t.commands.countP fun c => !c.outcome.failed
  failed := t.commands.countP fun c => c.outcome.failed

/-- Counts one more command of a kind. -/
def countKind (counts : OrderedMap Nat) (c : Command) : OrderedMap Nat :=
  counts.insert c.kind ((counts.get? c.kind).getD 0 + 1)

/-- The number of commands of each kind, in order of first occurrence. -/
def stats (t : Template) : OrderedMap Nat :=
  t.commands.foldl countKind .empty

/-- Whether every command has an inverse. -/
def isReversible (t : Template) (policy : Policy) : Bool :=
  t.commands.all fun c => (policy.inverse? c.action c.entity).isSome

end Template

end Runbook
