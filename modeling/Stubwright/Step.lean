import Stubwright.GenError

/-!
# Generation steps

A step runs over the state of whatever it talks to and over the diagnostics log. It may fail, and
the state and the log that it reached are kept either way.

## Main definitions

* `Outcome` — the value or failure of a step, with everything logged up to it
* `Step` — the monad of steps over a state `σ`
* `Step.outcome`, `Step.each` — a step carried out, and steps carried out one after another
* `Step.inScope` — a step inside a named scope, which is closed whether the step fails or not
* `Step.onFst`, `Step.onSnd` — a step over one half of a pair of states
-/

namespace Stubwright

/-- The value or the failure of a step, with everything logged up to it. -/
structure Outcome (α : Type) where
  result : Except GenError α
  log : Log

/-- A step of generation over a state `σ`. -/
abbrev Step (σ α : Type) := ExceptT GenError (StateT Log (StateM σ)) α

namespace Step

variable {σ τ α β : Type}

/-- Runs a step: its outcome, and the state that it reached. -/
def outcome (step : Step σ α) (log : Log) (state : σ) : Outcome α × σ :=
  let ((result, log), state) := step log state
  (⟨result, log⟩, state)

/-- Runs steps one after another. Each goes on from the log and the state that the one before it
reached, whether that one failed or not. -/
def each : List (Step σ α) → Log → σ → List (Outcome α) × σ
  | [], _, state => ([], state)
  | step :: rest, log, state =>
    let (outcome, state) := step.outcome log state
    let (outcomes, state) := each rest outcome.log state
    (outcome :: outcomes, state)

/-- Changes the log. -/
def onLog (change : Log → Log) : Step σ Unit := fun log state => ((.ok (), change log), state)

/-- Adds a message to the log. -/
def record (level : LogLevel) (text : String) : Step σ Unit := onLog (·.record level text)

/-- Adds a message at level `debug`. -/
def debug (text : String) : Step σ Unit := record .debug text

/-- Adds a message at level `info`. -/
def info (text : String) : Step σ Unit := record .info text

/-- Adds a message at level `warning`. -/
def warning (text : String) : Step σ Unit := record .warning text

/-- Fails because of the input. -/
def refuse (message : String) : Step σ α := throw (.user message)

/-- Fails because of a broken contract. -/
def defect (message : String) : Step σ α := throw (.internal message)

/-- The state the step runs over. -/
def state : Step σ σ := fun log state => ((.ok state, log), state)

/-- Changes the state the step runs over. -/
def onState (change : σ → σ) : Step σ Unit := fun log state => ((.ok (), log), change state)

/-- Runs `body` inside a scope. The scope is closed whether `body` succeeds or fails. -/
def inScope (name : String) (body : Step σ α) : Step σ α := fun log state =>
  let ((result, log), state) := body (log.push name) state
  ((result, log.pop), state)

/-- A step over the first of two states. -/
def onFst (step : Step σ α) : Step (σ × τ) α := fun log (first, second) =>
  let (answer, first) := step log first
  (answer, (first, second))

/-- A step over the second of two states. -/
def onSnd (step : Step τ α) : Step (σ × τ) α := fun log (first, second) =>
  let (answer, second) := step log second
  (answer, (first, second))

/-! ## What a step does -/

@[simp] theorem outcome_pure (value : α) (log : Log) (state : σ) :
    outcome (pure value) log state = (⟨.ok value, log⟩, state) := rfl

@[simp] theorem outcome_throw (error : GenError) (log : Log) (state : σ) :
    outcome (throw error : Step σ α) log state = (⟨.error error, log⟩, state) := rfl

@[simp] theorem outcome_record (level : LogLevel) (text : String) (log : Log) (state : σ) :
    outcome (record level text) log state = (⟨.ok (), log.record level text⟩, state) := rfl

/-- What follows a step goes on from the log and the state that the step reached, and is left out
when the step fails. -/
theorem outcome_bind (step : Step σ α) (next : α → Step σ β) (log : Log) (state : σ) :
    outcome (step >>= next) log state =
      match step.outcome log state with
      | (⟨.ok value, log⟩, state) => (next value).outcome log state
      | (⟨.error error, log⟩, state) => (⟨.error error, log⟩, state) := by
  simp only [outcome, bind, ExceptT.bind, ExceptT.mk, ExceptT.bindCont, StateT.bind]
  rcases step log state with ⟨⟨result, reached⟩, after⟩
  cases result <;> rfl

/-- A scope changes neither the result of a step nor the state that it reaches. -/
theorem outcome_inScope (name : String) (body : Step σ α) (log : Log) (state : σ) :
    outcome (inScope name body) log state =
      let (inner, reached) := body.outcome (log.push name) state
      (⟨inner.result, inner.log.pop⟩, reached) := rfl

end Step

end Stubwright
