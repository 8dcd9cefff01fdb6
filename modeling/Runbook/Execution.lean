import Runbook.Identity
import Runbook.Reversal
import Runbook.Run
import Runbook.Tally

/-!
# Executions

A template under an identity, with who ran it, where, and with which fillers.
-/

namespace Runbook

/-- A template that is run or was run. -/
structure Execution where
  /-- The text of the identity. -/
  id : String
  /-- Who runs it. -/
  author : String
  /-- The text that the template was read from. -/
  source : String
  /-- Where it runs. -/
  locale : String
  /-- On whose behalf it runs. -/
  profile : String
  /-- The values of holes. -/
  fillers : Fillers
  /-- The template, with the outcomes of its commands. -/
  template : Template
deriving DecidableEq

namespace Execution

/-- The instant of the creation, read from the identity. -/
def instant (e : Execution) : Except IdentityError Instant :=
  (Identity.parse e.id).map Identity.instant

/-- Runs the template with the fillers of the execution. -/
def run {σ : Type} (e : Execution) (runner : Runner σ) (stopOnError : Bool) (state : σ) : Run σ :=
  e.template.run runner e.fillers stopOnError state

/-- The execution with another template. -/
def withTemplate (e : Execution) (template : Template) : Execution :=
  { e with template }

/-- The template that undoes the execution, with holes replaced by their fillers. -/
def reversed (e : Execution) (policy : Policy) : Except ReversalError Template :=
  e.template.reversed policy (some e.fillers)

end Execution

end Runbook
