import Stubwright.Vocabulary

/-!
# Carrying out instructions

An instruction is dispatched to its handler, and the definitions that the answer carries are
collected in the order of execution.

## Main definitions

* `Handler.dispatch` — carries out one instruction and collects its definitions
* `Handler.exec` — the same for an instruction of a member vocabulary, with its own answer
* `Handler.run` — carries out a list of instructions and answers everything collected
-/

namespace Stubwright

/-- What a run holds between two instructions: the state of the handler, and the definitions
collected so far. -/
structure Session (σ : Type) where
  handler : σ
  collected : Codegen

namespace Session

variable {σ α : Type}

/-- A session before the first instruction. -/
def start (state : σ) : Session σ := ⟨state, ∅⟩

/-- A step of the handler as a step of the session. -/
def onHandler (step : Step σ α) : Step (Session σ) α := fun log session =>
  let (answer, state) := step log session.handler
  (answer, { session with handler := state })

/-- Changes what was collected. -/
def collect (change : Codegen → Codegen) : Step (Session σ) Unit :=
  Step.onState fun session => { session with collected := change session.collected }

/-- Runs a step in a session of its own, and answers its value and everything collected. -/
def whole {τ : Type} (start : σ) (step : Step (Session σ) α) : Step τ (α × Codegen) :=
  fun log state =>
    let ((result, log), session) := step log (Session.start start)
    ((result.map (·, session.collected), log), state)

end Session

namespace Handler

variable {V : Vocabulary} {Vs : List Vocabulary}

/-- Carries out an instruction and collects the definitions of the answer. -/
def dispatch (handler : Handler V) (term : V.Term) : Step (Session handler.State) V.Answer := do
  let answer ← Session.onHandler (handler.handle term)
  Session.collect (V.contribute answer)
  return answer

/-- What is said when an instruction gets an answer of another vocabulary. -/
def strayAnswer (label : String) : String :=
  s!"instruction '{label}' was answered by a handler of another vocabulary"

/-- Carries out an instruction of a member vocabulary, whose own answer it must get. -/
def exec (handler : Handler (.all Vs)) (member : Member V Vs) (term : V.Term) :
    Step (Session handler.State) V.Answer := do
  let answer ← handler.dispatch (member.inject term)
  match member.project? answer with
  | some own => return own
  | none => Step.defect (strayAnswer (V.label term))

/-- Carries out instructions in order, up to the first that fails. -/
def runAll (handler : Handler V) (program : List V.Term) : Step (Session handler.State) Unit :=
  program.forM fun term => discard (handler.dispatch term)

/-- Carries out instructions from the start state and answers everything they collected. A run that
fails answers nothing. -/
def run {σ : Type} (handler : Handler V) (program : List V.Term) : Step σ Codegen :=
  Prod.snd <$> Session.whole handler.start (handler.runAll program)

end Handler

end Stubwright
