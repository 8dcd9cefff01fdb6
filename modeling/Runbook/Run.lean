import Runbook.Scope

/-!
# Running a template

Commands run one at a time in the order of the template. A command whose values can be resolved
is handed to a runner; one whose values cannot be resolved fails without reaching it. The outcome
of a declaration is bound once it ran. A run may stop at the first failure; the statements behind
it are left as they were.
-/

namespace Runbook

/-- What a runner is asked to do. -/
structure Call where
  /-- The verb. -/
  action : String
  /-- The noun. -/
  entity : String
  /-- The parameters, resolved. -/
  arguments : OrderedMap Literal
deriving DecidableEq

/-- Something that commands are handed to. It answers a call in a state with a result, or with
the causes of a failure from the outermost one inwards, and a new state. -/
abbrev Runner (σ : Type) := Call → σ → Except (List String) Json × σ

/-- What became of one command. -/
structure Attempt (σ : Type) where
  /-- How the command ended. -/
  outcome : Outcome
  /-- The call, if the command reached the runner. -/
  call : Option Call
  /-- The state of the runner afterwards. -/
  state : σ

/-- A statement that a run reached. -/
structure Step where
  /-- The statement with the outcome of its command. -/
  statement : Statement
  /-- The call, if the command reached the runner. -/
  call : Option Call
deriving DecidableEq

/-- What became of the statements of a template. -/
structure Run (σ : Type) where
  /-- The statements that were reached, in order. -/
  steps : List Step
  /-- The statements behind an early stop, as they were before. -/
  unreached : List Statement
  /-- The state of the runner afterwards. -/
  state : σ

variable {σ : Type}

/-- The outcome that an answer of a runner stands for. -/
def Outcome.ofAnswer : Except (List String) Json → Outcome
  | .ok result => .success result
  | .error causes => .failure (": ".intercalate causes)

/-- Runs one command in a scope. -/
def Command.attempt (runner : Runner σ) (scope : Scope) (state : σ) (c : Command) : Attempt σ :=
  match scope.arguments c with
  | .error e => ⟨.failure e.message, none, state⟩
  | .ok arguments =>
    let call : Call := ⟨c.action, c.entity, arguments⟩
    let answer := runner call state
    ⟨.ofAnswer answer.1, some call, answer.2⟩

namespace Run

/-- The run of a statement before the rest of a run. -/
def cons (step : Step) (rest : Run σ) : Run σ :=
  { rest with steps := step :: rest.steps }

/-- Runs statements in a scope. -/
def ofStatements (runner : Runner σ) (stopOnError : Bool) :
    Scope → σ → List Statement → Run σ
  | _, state, [] => ⟨[], [], state⟩
  | scope, state, statement :: rest =>
    let attempt := statement.command.attempt runner scope state
    let step : Step := ⟨statement.withOutcome attempt.outcome, attempt.call⟩
    if stopOnError && attempt.outcome.failed then ⟨[step], rest, attempt.state⟩
    else
      -- The outcome is bound also if the command failed, which references then report.
      cons step <|
        ofStatements runner stopOnError (scope.afterStatement statement.name attempt.outcome)
          attempt.state rest

/-- All statements, those that were reached with their outcomes. -/
def statements (r : Run σ) : List Statement :=
  r.steps.map Step.statement ++ r.unreached

/-- The template with the outcomes of the run. -/
def template (r : Run σ) : Template := ⟨r.statements⟩

/-- The calls that reached the runner, in order. -/
def calls (r : Run σ) : List Call :=
  r.steps.filterMap Step.call

@[simp]
theorem statements_cons (step : Step) (rest : Run σ) :
    (cons step rest).statements = step.statement :: rest.statements := rfl

@[simp]
theorem calls_cons (step : Step) (rest : Run σ) :
    (cons step rest).calls = step.call.toList ++ rest.calls := by
  cases h : step.call <;> simp [calls, cons, h]

/-- A run keeps the number of statements. -/
theorem length_statements_ofStatements (runner : Runner σ) (stopOnError : Bool) (scope : Scope)
    (state : σ) (statements : List Statement) :
    (ofStatements runner stopOnError scope state statements).statements.length =
      statements.length := by
  induction statements generalizing scope state with
  | nil => rfl
  | cons statement rest ih =>
    rw [ofStatements]
    split
    · simp [Run.statements]
    · simp [ih]

end Run

/-- Runs a template with fillers. -/
def Template.run (t : Template) (runner : Runner σ) (fillers : Fillers) (stopOnError : Bool)
    (state : σ) : Run σ :=
  Run.ofStatements runner stopOnError (.ofFillers fillers) state t.statements

end Runbook
