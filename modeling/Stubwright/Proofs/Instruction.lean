import Stubwright.Interpreter

/-!
# Instructions

An instruction belongs to one vocabulary of a list. Whatever stands beside this vocabulary, the
handler of the vocabulary carries the instruction out in its own state: the sum of vocabularies, the
dispatch and the session add nothing but that what the answer carries is collected.

## Main definitions

* `Instruction` — an instruction of one of several vocabularies
* `Handlers.get` — the handler of a member vocabulary
* `Handlers.stateOf`, `Handlers.withState` — the state of one handler among those of all
* `Handlers.perform` — an instruction that is carried out by the handler of its vocabulary alone

## Main results

* `Handlers.outcome_handle` — an instruction among all is performed by the handler of its vocabulary
* `Handlers.outcome_dispatch`, `Handlers.outcome_exec` — and so it is within a session
-/

namespace Stubwright

variable {V W : Vocabulary} {Vs : List Vocabulary}

/-! ## Changed values -/

section

variable {σ τ α β : Type}

/-- The outcome with its value changed, if it has one. -/
def Outcome.map (f : α → β) (outcome : Outcome α) : Outcome β :=
  ⟨outcome.result.map f, outcome.log⟩

/-- Two changes of an outcome are one change. -/
theorem Outcome.map_map {γ : Type} (g : β → γ) (f : α → β) (outcome : Outcome α) :
    (outcome.map f).map g = outcome.map fun value => g (f value) := by
  obtain ⟨result, log⟩ := outcome
  cases result <;> rfl

/-- What is made of a value changes neither the log nor the state. -/
theorem Step.outcome_map (f : α → β) (step : Step σ α) (log : Log) (state : σ) :
    (f <$> step).outcome log state =
      ((step.outcome log state).1.map f, (step.outcome log state).2) := by
  rw [map_eq_pure_bind, outcome_bind]
  rcases step.outcome log state with ⟨⟨result, reached⟩, after⟩
  cases result <;> rfl

/-- A value that is dropped changes neither the log nor the state. -/
theorem Step.outcome_discard (step : Step σ α) (log : Log) (state : σ) :
    (discard step).outcome log state =
      ((step.outcome log state).1.map fun _ => (), (step.outcome log state).2) :=
  outcome_map _ step log state

end

/-! ## The handlers of a sum -/

/-- The handler of a member vocabulary. -/
def Handlers.get : {Vs : List Vocabulary} → Handlers Vs → Member V Vs → Handler V
  | _, cons first _, .here => first
  | _, cons _ rest, .there member => rest.get member

/-- An answer of a member adds its definitions whatever stands beside the member. -/
@[simp] theorem Member.contribute_injectAnswer (member : Member V Vs) (answer : V.Answer) :
    (Vocabulary.all Vs).contribute (member.injectAnswer answer) = V.contribute answer := by
  induction member with
  | here => rfl
  | there member ih => exact ih

namespace Handlers

/-- The state of the handler of a member vocabulary. -/
def stateOf : {Vs : List Vocabulary} → (handlers : Handlers Vs) → (member : Member V Vs) →
    handlers.combined.State → (handlers.get member).State
  | _, cons first rest, .here => fun both : first.State × rest.combined.State => both.1
  | _, cons first rest, .there member => fun both : first.State × rest.combined.State =>
    rest.stateOf member both.2

/-- The states of all handlers after that of one member has changed. -/
def withState : {Vs : List Vocabulary} → (handlers : Handlers Vs) → (member : Member V Vs) →
    (handlers.get member).State → handlers.combined.State → handlers.combined.State
  | _, cons first rest, .here => fun own (both : first.State × rest.combined.State) =>
    ((own, both.2) : first.State × rest.combined.State)
  | _, cons first rest, .there member => fun own (both : first.State × rest.combined.State) =>
    ((both.1, rest.withState member own both.2) : first.State × rest.combined.State)

@[simp] theorem withState_stateOf (handlers : Handlers Vs) (member : Member V Vs)
    (state : handlers.combined.State) :
    handlers.withState member (handlers.stateOf member state) state = state := by
  induction member with
  | here =>
    cases handlers
    rfl
  | there member ih =>
    cases handlers with
    | cons first rest => exact congrArg (Prod.mk state.1) (ih rest state.2)

@[simp] theorem stateOf_withState (handlers : Handlers Vs) (member : Member V Vs)
    (own : (handlers.get member).State) (state : handlers.combined.State) :
    handlers.stateOf member (handlers.withState member own state) = own := by
  induction member with
  | here =>
    cases handlers
    rfl
  | there member ih =>
    cases handlers with
    | cons first rest => exact ih rest own state.2

/-- The handlers of all other vocabularies keep their states. -/
theorem stateOf_withState_of_ne (h : V ≠ W) (handlers : Handlers Vs) (member : Member V Vs)
    (other : Member W Vs) (own : (handlers.get member).State) (state : handlers.combined.State) :
    handlers.stateOf other (handlers.withState member own state) =
      handlers.stateOf other state := by
  induction member with
  | here =>
    cases handlers with
    | cons first rest =>
      cases other with
      | here => exact absurd rfl h
      | there other => rfl
  | there member ih =>
    cases handlers with
    | cons first rest =>
      cases other with
      | here => rfl
      | there other => exact ih rest other own state.2

/-! ## Instructions among all -/

/-- An instruction of a member is carried out by the handler of the member, which reads and changes
nothing but its own state. -/
theorem outcome_handle (handlers : Handlers Vs) (member : Member V Vs) (term : V.Term) (log : Log)
    (state : handlers.combined.State) :
    (handlers.combined.handle (member.inject term)).outcome log state =
      let reached := ((handlers.get member).handle term).outcome log (handlers.stateOf member state)
      (reached.1.map member.injectAnswer, handlers.withState member reached.2 state) := by
  induction member with
  | here =>
    cases handlers with
    | cons first rest =>
      obtain ⟨own, others⟩ := state
      exact Step.outcome_map Sum.inl (first.handle term).onFst log (own, others)
  | there member ih =>
    cases handlers with
    | cons first rest =>
      obtain ⟨own, others⟩ := state
      have hothers : (rest.combined.handle (member.inject term)).onSnd.outcome log (own, others) =
          (((rest.combined.handle (member.inject term)).outcome log others).1,
            (own, ((rest.combined.handle (member.inject term)).outcome log others).2)) := rfl
      rw [ih rest others] at hothers
      refine (Step.outcome_map Sum.inr _ log (own, others)).trans ?_
      rw [hothers]
      exact Prod.ext (Outcome.map_map ..) rfl

end Handlers

/-! ## Instructions in a session -/

/-- A vocabulary with a place in a list is in the list. -/
theorem Member.mem (member : Member V Vs) : V ∈ Vs := by
  induction member with
  | here => exact List.mem_cons_self
  | there member ih => exact List.mem_cons_of_mem _ ih

/-- An instruction of one of several vocabularies. -/
structure Instruction (Vs : List Vocabulary) where
  {vocabulary : Vocabulary}
  place : Member vocabulary Vs
  term : vocabulary.Term

/-- The instruction as one of all. -/
def Instruction.inject (instruction : Instruction Vs) : (Vocabulary.all Vs).Term :=
  instruction.place.inject instruction.term

/-- Every instruction of the sum is one of a member. -/
theorem Instruction.exists_inject_eq {Vs : List Vocabulary} (term : (Vocabulary.all Vs).Term) :
    ∃ instruction : Instruction Vs, instruction.inject = term := by
  induction Vs with
  | nil => cases term
  | cons V rest ih =>
    rcases term with term | term
    · exact ⟨⟨.here, term⟩, rfl⟩
    · obtain ⟨instruction, hinject⟩ := ih term
      exact ⟨⟨.there instruction.place, instruction.term⟩, congrArg Sum.inr hinject⟩

/-- What is collected after an instruction: an answer adds its definitions, a failure adds none. -/
def Vocabulary.collectResult (V : Vocabulary) (result : Except GenError V.Answer)
    (collected : Codegen) : Codegen :=
  match result with
  | .ok answer => V.contribute answer collected
  | .error _ => collected

theorem Session.outcome_onHandler {σ α : Type} (step : Step σ α) (log : Log)
    (session : Session σ) :
    (onHandler step).outcome log session =
      ((step.outcome log session.handler).1,
        ⟨(step.outcome log session.handler).2, session.collected⟩) := rfl

/-- A step in a session of its own leaves the state around it alone. -/
theorem Session.outcome_whole {σ τ α : Type} (start : σ) (step : Step (Session σ) α) (log : Log)
    (state : τ) :
    (whole start step).outcome log state =
      let (outcome, session) := step.outcome log (Session.start start)
      (outcome.map (·, session.collected), state) := rfl

namespace Handlers

/-- Carries out an instruction by the handler of its own vocabulary, in the state which this handler
has reached. The other handlers are not asked. -/
def perform (handlers : Handlers Vs) (instruction : Instruction Vs) (log : Log)
    (state : handlers.combined.State) :
    Outcome instruction.vocabulary.Answer × handlers.combined.State :=
  let reached := ((handlers.get instruction.place).handle instruction.term).outcome log
    (handlers.stateOf instruction.place state)
  (reached.1, handlers.withState instruction.place reached.2 state)

/-- The session after an instruction that was performed. -/
def sessionAfter (handlers : Handlers Vs) (instruction : Instruction Vs) (log : Log)
    (session : Session handlers.combined.State) : Session handlers.combined.State :=
  let reached := handlers.perform instruction log session.handler
  ⟨reached.2, instruction.vocabulary.collectResult reached.1.result session.collected⟩

/-- Dispatching an instruction performs it and collects what the answer carries. -/
theorem outcome_dispatch (handlers : Handlers Vs) (instruction : Instruction Vs) (log : Log)
    (session : Session handlers.combined.State) :
    (handlers.combined.dispatch instruction.inject).outcome log session =
      ((handlers.perform instruction log session.handler).1.map instruction.place.injectAnswer,
        handlers.sessionAfter instruction log session) := by
  have hhandled := handlers.outcome_handle instruction.place instruction.term log session.handler
  unfold Handler.dispatch sessionAfter perform
  rw [Step.outcome_bind, Session.outcome_onHandler, Instruction.inject, hhandled]
  dsimp only
  rcases ((handlers.get instruction.place).handle instruction.term).outcome log
    (handlers.stateOf instruction.place session.handler) with ⟨⟨result, reached⟩, after⟩
  cases result with
  | error error => rfl
  | ok answer =>
    have hcontribute := Member.contribute_injectAnswer instruction.place answer
    exact Prod.ext rfl (congrArg (Session.mk _) (congrFun hcontribute session.collected))

/-- Carrying out an instruction performs it, and the answer is of its own vocabulary. -/
theorem outcome_exec (handlers : Handlers Vs) (instruction : Instruction Vs) (log : Log)
    (session : Session handlers.combined.State) :
    (handlers.combined.exec instruction.place instruction.term).outcome log session =
      ((handlers.perform instruction log session.handler).1,
        handlers.sessionAfter instruction log session) := by
  unfold Handler.exec
  rw [Step.outcome_bind, ← Instruction.inject, outcome_dispatch]
  rcases (handlers.perform instruction log session.handler).1 with ⟨result, reached⟩
  cases result with
  | error error => rfl
  | ok answer =>
    dsimp only [Outcome.map, Except.map]
    rw [Member.project?_injectAnswer]
    rfl

end Handlers

end Stubwright
