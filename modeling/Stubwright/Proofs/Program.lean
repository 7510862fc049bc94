import Stubwright.Generate
import Stubwright.Proofs.Definition
import Stubwright.Proofs.Instruction

/-!
# Programs

A program is a list of instructions that is carried out up to the first that fails. It comes to what
the handlers come to when they are asked one after another; what it answers is what their answers
carry, in the order of execution.

## Main definitions

* `Codegen.append`, `Vocabulary.OnlyAdds` — answers that only add to what was collected
* `Handlers.Succeeds`, `Handlers.FailsAt` — the handlers asked one after another
* `Handlers.execUntilFailure` — instructions carried out singly up to the first that fails

## Main results

* `Instruction.exists_map_inject_eq` — every list of instructions of the sum is a program
* `Handlers.succeeds_or_failsAt` — a program succeeds or fails at one of its instructions
* `Handlers.run_iff` — what running a program comes to, and carrying out its instructions singly
-/

namespace Stubwright

open Source

variable {V : Vocabulary} {Vs : List Vocabulary}

/-! ## What answers carry -/

namespace Codegen

/-- What was made first and what was made after it, kind by kind. -/
def append (first second : Codegen) : Codegen :=
  ⟨first.support ++ second.support, first.clients ++ second.clients,
    first.servers ++ second.servers⟩

private theorem append_empty (result : Codegen) : result.append ∅ = result := by
  simp [append, EmptyCollection.emptyCollection, empty]

private theorem add_eq_append (role : Role) (definition : Definition) (result : Codegen) :
    result.add role definition = result.append ((∅ : Codegen).add role definition) := by
  cases role <;> simp [add, append, EmptyCollection.emptyCollection, empty]

private theorem addAll_eq_append (definitions : List Definition) (result : Codegen) :
    definitions.foldl (fun all => all.add .support) result =
      result.append (definitions.foldl (fun all => all.add .support) ∅) := by
  rw [foldl_add_support fun definition => definition,
    foldl_add_support fun definition => definition]
  simp [append, EmptyCollection.emptyCollection, empty]

end Codegen

/-- Answers of a vocabulary put what they carry behind everything collected before. -/
def Vocabulary.OnlyAdds (V : Vocabulary) : Prop :=
  ∀ answer collected, V.contribute answer collected = collected.append (V.contribute answer ∅)

private theorem concerns_onlyAdd : ∀ V ∈ concerns, V.OnlyAdds := by
  have hnone (collected : Codegen) : collected = collected.append ∅ :=
    collected.append_empty.symm
  have hadd (role : Role) (definition : Definition) (collected : Codegen) :=
    collected.add_eq_append role definition
  simp only [concerns, List.forall_mem_cons]
  refine ⟨fun _ => hnone, ?_, hadd .support, hadd .support, hadd .support, hadd .client,
    hadd .server, ?_, List.forall_mem_nil _⟩
  · rintro (settled | definition)
    · exact hnone
    · exact hadd .support definition
  · rintro (imports | body | annotations | definitions)
    · exact hnone
    · exact hnone
    · exact hnone
    · exact Codegen.addAll_eq_append definitions

/-- An answer with the vocabulary that it belongs to. -/
abbrev OwnAnswer := Σ V : Vocabulary, V.Answer

/-- The definitions that an answer carries. -/
def OwnAnswer.carried (answer : OwnAnswer) : Codegen := answer.1.contribute answer.2 ∅

/-- What was collected before, and what answers add to it one after another. -/
def Codegen.withAnswers (collected : Codegen) (answers : List OwnAnswer) : Codegen :=
  answers.foldl (fun all answer => answer.1.contribute answer.2 all) collected

/-- Answers that only add are found in the result in their order, kind by kind. -/
theorem Codegen.withAnswers_eq {answers : List OwnAnswer}
    (h : ∀ answer ∈ answers, answer.1.OnlyAdds) (collected : Codegen) :
    collected.withAnswers answers =
      collected.append ⟨answers.flatMap (·.carried.support), answers.flatMap (·.carried.clients),
        answers.flatMap (·.carried.servers)⟩ := by
  induction answers generalizing collected with
  | nil => exact collected.append_empty.symm
  | cons answer rest ih =>
    obtain ⟨hanswer, hrest⟩ := List.forall_mem_cons.1 h
    have hadded : answer.1.contribute answer.2 collected = collected.append answer.carried :=
      hanswer answer.2 collected
    show withAnswers (answer.1.contribute answer.2 collected) rest = _
    rw [ih hrest, hadded]
    simp only [append, List.flatMap_cons, List.append_assoc]

/-! ## Programs -/

private theorem Handler.runAll_cons (handler : Handler V) (term : V.Term) (rest : List V.Term) :
    handler.runAll (term :: rest) = (do discard (handler.dispatch term); handler.runAll rest) := rfl

/-- A run answers what was collected in a session of its own. -/
theorem Handler.outcome_run {σ : Type} (handler : Handler V) (program : List V.Term) (log : Log)
    (state : σ) :
    (handler.run program).outcome log state =
      let ran := (handler.runAll program).outcome log (.start handler.start)
      (ran.1.map fun _ => ran.2.collected, state) := by
  rw [run, Step.outcome_map, Session.outcome_whole]
  exact Prod.ext (Outcome.map_map ..) rfl

/-- Every list of instructions of the sum is a program. -/
theorem Instruction.exists_map_inject_eq (terms : List (Vocabulary.all Vs).Term) :
    ∃ program : List (Instruction Vs), program.map inject = terms := by
  induction terms with
  | nil => exact ⟨[], rfl⟩
  | cons term rest ih =>
    obtain ⟨instruction, rfl⟩ := exists_inject_eq term
    obtain ⟨program, rfl⟩ := ih
    exact ⟨instruction :: program, rfl⟩

namespace Handlers

/-! ## Handlers asked one after another -/

/-- The handlers carry out instructions in turn, each from the log and the state that the one before
it left, and all of them succeed. -/
inductive Succeeds (handlers : Handlers Vs) : List (Instruction Vs) → Log →
    handlers.combined.State → List OwnAnswer → Log → handlers.combined.State → Prop where
  | done {log : Log} {state : handlers.combined.State} : Succeeds handlers [] log state [] log state
  | next {instruction : Instruction Vs} {rest : List (Instruction Vs)} {log reached last : Log}
      {state after final : handlers.combined.State} {answer : instruction.vocabulary.Answer}
      {answers : List OwnAnswer}
      (h : handlers.perform instruction log state = (⟨.ok answer, reached⟩, after))
      (hrest : Succeeds handlers rest reached after answers last final) :
      Succeeds handlers (instruction :: rest) log state (⟨_, answer⟩ :: answers) last final

/-- The handlers carry out the instructions before one that fails, and this one leaves the log and
the state in the end: whatever comes behind it is not carried out. -/
def FailsAt (handlers : Handlers Vs) (program : List (Instruction Vs)) (log : Log)
    (state : handlers.combined.State) (answers : List OwnAnswer) (error : GenError) (last : Log)
    (final : handlers.combined.State) : Prop :=
  ∃ before instruction behind reached after, program = before ++ instruction :: behind ∧
    handlers.Succeeds before log state answers reached after ∧
      handlers.perform instruction reached after = (⟨.error error, last⟩, final)

variable {handlers : Handlers Vs} {program : List (Instruction Vs)} {log last : Log}
  {state final : handlers.combined.State} {answers : List OwnAnswer} {error : GenError}

private theorem FailsAt.next {instruction : Instruction Vs} {answer : instruction.vocabulary.Answer}
    {reached : Log} {after : handlers.combined.State}
    (hrest : handlers.FailsAt program reached after answers error last final)
    (h : handlers.perform instruction log state = (⟨.ok answer, reached⟩, after)) :
    handlers.FailsAt (instruction :: program) log state (⟨_, answer⟩ :: answers) error last
      final := by
  obtain ⟨before, failing, behind, log', state', rfl, hbefore, hfails⟩ := hrest
  exact ⟨instruction :: before, failing, behind, log', state', rfl, .next h hbefore, hfails⟩

theorem succeeds_or_failsAt (handlers : Handlers Vs) (program : List (Instruction Vs)) (log : Log)
    (state : handlers.combined.State) :
    ∃ answers last final, handlers.Succeeds program log state answers last final ∨
      ∃ error, handlers.FailsAt program log state answers error last final := by
  induction program generalizing log state with
  | nil => exact ⟨[], log, state, .inl .done⟩
  | cons instruction rest ih =>
    rcases h : handlers.perform instruction log state with ⟨⟨error | answer, reached⟩, after⟩
    · exact ⟨[], reached, after, .inr ⟨error, [], instruction, rest, log, state, rfl, .done, h⟩⟩
    · obtain ⟨answers, last, final, hrest | ⟨error, hrest⟩⟩ := ih reached after
      · exact ⟨⟨_, answer⟩ :: answers, last, final, .inl (.next h hrest)⟩
      · exact ⟨⟨_, answer⟩ :: answers, last, final, .inr ⟨error, hrest.next h⟩⟩

/-- Answers come from the handlers that are put together. -/
theorem Succeeds.mem (h : handlers.Succeeds program log state answers last final) :
    ∀ answer ∈ answers, answer.1 ∈ Vs := by
  induction h with
  | done => exact List.forall_mem_nil _
  | @next instruction _ _ _ _ _ _ _ _ _ _ _ ih =>
    exact List.forall_mem_cons.2 ⟨instruction.place.mem, ih⟩

/-! ## Runs -/

/-- Carries out instructions singly, each from the log and the session that the one before it left,
and stops at the first that fails. -/
def execUntilFailure (handlers : Handlers Vs) :
    List (Instruction Vs) → Log → Session handlers.combined.State →
      List OwnAnswer × Outcome Unit × Session handlers.combined.State
  | [], log, session => ([], ⟨.ok (), log⟩, session)
  | instruction :: rest, log, session =>
    match (handlers.combined.exec instruction.place instruction.term).outcome log session with
    | (⟨.ok answer, reached⟩, after) =>
      let (answers, reply) := handlers.execUntilFailure rest reached after
      (⟨instruction.vocabulary, answer⟩ :: answers, reply)
    | (⟨.error error, reached⟩, after) => ([], ⟨.error error, reached⟩, after)

/-- The first instruction of a run is performed, and the others are carried out if it succeeds. -/
theorem outcome_runAll_cons (handlers : Handlers Vs) (instruction : Instruction Vs)
    (rest : List (Instruction Vs)) (log : Log) (session : Session handlers.combined.State) :
    (handlers.combined.runAll ((instruction :: rest).map Instruction.inject)).outcome log session =
      let performed := (handlers.perform instruction log session.handler).1
      let after := handlers.sessionAfter instruction log session
      match performed.result with
      | .ok _ =>
        (handlers.combined.runAll (rest.map Instruction.inject)).outcome performed.log after
      | .error error => (⟨.error error, performed.log⟩, after) := by
  rw [List.map_cons, Handler.runAll_cons, Step.outcome_bind, Step.outcome_discard, outcome_dispatch]
  rcases (handlers.perform instruction log session.handler).1 with ⟨result, reached⟩
  cases result <;> rfl

/-- The same holds of instructions that are carried out singly. -/
theorem execUntilFailure_cons (handlers : Handlers Vs) (instruction : Instruction Vs)
    (rest : List (Instruction Vs)) (log : Log) (session : Session handlers.combined.State) :
    handlers.execUntilFailure (instruction :: rest) log session =
      let performed := (handlers.perform instruction log session.handler).1
      let after := handlers.sessionAfter instruction log session
      match performed.result with
      | .ok answer =>
        let others := handlers.execUntilFailure rest performed.log after
        (⟨instruction.vocabulary, answer⟩ :: others.1, others.2)
      | .error error => ([], ⟨.error error, performed.log⟩, after) := by
  rw [execUntilFailure, outcome_exec]
  rcases (handlers.perform instruction log session.handler).1 with ⟨result, reached⟩
  cases result <;> rfl

private theorem sessionAfter_of_perform {instruction : Instruction Vs} {outcome : Outcome _}
    {session : Session handlers.combined.State}
    (h : handlers.perform instruction log session.handler = (outcome, final)) :
    handlers.sessionAfter instruction log session =
      ⟨final, instruction.vocabulary.collectResult outcome.result session.collected⟩ := by
  simp only [sessionAfter, h]

/-- A run and the same instructions carried out singly stay in step. -/
theorem outcome_runAll_eq (handlers : Handlers Vs) (program : List (Instruction Vs)) (log : Log)
    (session : Session handlers.combined.State) :
    (handlers.combined.runAll (program.map Instruction.inject)).outcome log session =
      (handlers.execUntilFailure program log session).2 := by
  induction program generalizing log session with
  | nil => rfl
  | cons instruction rest ih =>
    rw [outcome_runAll_cons, execUntilFailure_cons]
    dsimp only
    cases (handlers.perform instruction log session.handler).1.result with
    | error error => rfl
    | ok answer => exact ih _ _

/-- Behind instructions that succeeded the others go on, with everything collected that the answers
carry. -/
theorem Succeeds.execUntilFailure_append
    (h : handlers.Succeeds program log state answers last final) (rest : List (Instruction Vs))
    (collected : Codegen) :
    handlers.execUntilFailure (program ++ rest) log ⟨state, collected⟩ =
      let others := handlers.execUntilFailure rest last ⟨final, collected.withAnswers answers⟩
      (answers ++ others.1, others.2) := by
  induction h generalizing collected with
  | done => rfl
  | next h hrest ih =>
    rw [List.cons_append, execUntilFailure_cons, sessionAfter_of_perform h, h]
    dsimp only
    rw [Vocabulary.collectResult, ih]
    rfl

private theorem Succeeds.execUntilFailure_eq
    (h : handlers.Succeeds program log state answers last final)
    (collected : Codegen) :
    handlers.execUntilFailure program log ⟨state, collected⟩ =
      (answers, ⟨.ok (), last⟩, ⟨final, collected.withAnswers answers⟩) := by
  simpa [execUntilFailure] using h.execUntilFailure_append [] collected

private theorem FailsAt.execUntilFailure_eq
    (h : handlers.FailsAt program log state answers error last final) (collected : Codegen) :
    handlers.execUntilFailure program log ⟨state, collected⟩ =
      (answers, ⟨.error error, last⟩, ⟨final, collected.withAnswers answers⟩) := by
  obtain ⟨before, instruction, behind, reached, after, rfl, hbefore, hfails⟩ := h
  rw [hbefore.execUntilFailure_append, execUntilFailure_cons, sessionAfter_of_perform hfails,
    hfails]
  simp [Vocabulary.collectResult]

private theorem Succeeds.outcome_run {σ : Type}
    (h : handlers.Succeeds program log handlers.combined.start answers last final) (state : σ) :
    ((handlers.combined.run (program.map Instruction.inject)).outcome log state).1 =
      ⟨.ok ((∅ : Codegen).withAnswers answers), last⟩ := by
  rw [Handler.outcome_run, outcome_runAll_eq, Session.start, h.execUntilFailure_eq]
  rfl

private theorem FailsAt.outcome_run {σ : Type}
    (h : handlers.FailsAt program log handlers.combined.start answers error last final)
    (state : σ) :
    ((handlers.combined.run (program.map Instruction.inject)).outcome log state).1 =
      ⟨.error error, last⟩ := by
  rw [Handler.outcome_run, outcome_runAll_eq, Session.start, h.execUntilFailure_eq]
  rfl

/-- Running a program comes to what carrying out its instructions singly comes to. It succeeds when
all handlers succeed in turn, and then answers what their answers carry, each kind in the order of
execution. Otherwise it has the error and the log of the first instruction that fails, whose state
is the last that was reached. -/
theorem run_iff {σ : Type} (handlers : Handlers Vs) (program : List (Instruction Vs)) (log : Log)
    (state : σ) :
    let terms := program.map Instruction.inject
    let start := handlers.combined.start
    let run := ((handlers.combined.run terms).outcome log state).1
    let executed := handlers.execUntilFailure program log (.start start)
    (handlers.combined.runAll terms).outcome log (.start start) = executed.2 ∧
      (∀ result last, run = ⟨.ok result, last⟩ ↔
        ∃ answers final, handlers.Succeeds program log start answers last final ∧
          result = (∅ : Codegen).withAnswers answers) ∧
      (∀ error last, run = ⟨.error error, last⟩ ↔
        ∃ answers final, handlers.FailsAt program log start answers error last final) ∧
      (∀ answers last final, handlers.Succeeds program log start answers last final →
        executed = (answers, ⟨.ok (), last⟩, ⟨final, (∅ : Codegen).withAnswers answers⟩)) ∧
      (∀ answers error last final, handlers.FailsAt program log start answers error last final →
        executed = (answers, ⟨.error error, last⟩, ⟨final, (∅ : Codegen).withAnswers answers⟩)) ∧
      ((∀ V ∈ Vs, V.OnlyAdds) →
        ∀ answers last final, handlers.Succeeds program log start answers last final →
          (∅ : Codegen).withAnswers answers = ⟨answers.flatMap (·.carried.support),
            answers.flatMap (·.carried.clients), answers.flatMap (·.carried.servers)⟩) := by
  refine ⟨handlers.outcome_runAll_eq program log _, fun result last => ⟨fun hrun => ?_, ?_⟩,
    fun error last => ⟨fun hrun => ?_, ?_⟩, fun answers last final h => h.execUntilFailure_eq ∅,
    fun answers error last final h => h.execUntilFailure_eq ∅, fun honly answers last final h => ?_⟩
  · obtain ⟨answers, last', final, h | ⟨error, h⟩⟩ :=
      handlers.succeeds_or_failsAt program log handlers.combined.start
    · cases (h.outcome_run state).symm.trans hrun
      exact ⟨answers, final, h, rfl⟩
    · cases (h.outcome_run state).symm.trans hrun
  · rintro ⟨answers, final, h, rfl⟩
    exact h.outcome_run state
  · obtain ⟨answers, last', final, h | ⟨error', h⟩⟩ :=
      handlers.succeeds_or_failsAt program log handlers.combined.start
    · cases (h.outcome_run state).symm.trans hrun
    · cases (h.outcome_run state).symm.trans hrun
      exact ⟨answers, final, h⟩
  · rintro ⟨answers, final, h⟩
    exact h.outcome_run state
  · exact Codegen.withAnswers_eq (fun answer hanswer => honly _ (h.mem answer hanswer)) ∅

theorem run_iff_colours :
    ∃ (handlers : Handlers concerns) (program failing : List (Instruction concerns))
      (result : Codegen) (error : GenError) (last last' : Log) (answers answers' : List OwnAnswer)
      (final final' : handlers.combined.State),
      (∀ V ∈ concerns, V.OnlyAdds) ∧
        ((handlers.combined.run (program.map Instruction.inject)).outcome ∅ ()).1 =
          ⟨.ok result, last⟩ ∧
        handlers.Succeeds program ∅ handlers.combined.start answers last final ∧
        result.support.map (·.name.text) = ["Status", "Colour"] ∧
        result.support = answers.flatMap (·.carried.support) ∧
        ((handlers.combined.run (failing.map Instruction.inject)).outcome ∅ ()).1 =
          ⟨.error error, last'⟩ ∧
        handlers.FailsAt failing ∅ handlers.combined.start answers' error last' final' ∧
        answers'.length = 1 := by
  let package : QualifiedName := .simple ⟨"api", by decide⟩
  let all := handlers package .standard
  let status : Instruction concerns := ⟨Concern.enumeration, ⟨"status", ["on"]⟩⟩
  let empty : Instruction concerns := ⟨Concern.enumeration, ⟨"empty", []⟩⟩
  let colour : Instruction concerns := ⟨Concern.enumeration, ⟨"colour", ["red"]⟩⟩
  let run (program : List (Instruction concerns)) : Outcome Codegen :=
    ((all.combined.run (program.map Instruction.inject)).outcome ∅ ()).1
  -- The runs are evaluated for what is told of them only; that they succeed or fail follows from
  -- it.
  have hnames : ((run [status, colour]).result.map (·.support.map (·.name.text))).toOption =
      some ["Status", "Colour"] := by decide +kernel
  have hfailure : (run [status, empty, colour]).result.toBool = false := by decide +kernel
  have hanswered : (all.execUntilFailure [status, empty, colour] ∅
      (.start all.combined.start)).1.length = 1 := by decide +kernel
  obtain ⟨-, hsucceeds, -, -, -, hkinds⟩ := run_iff all [status, colour] ∅ ()
  obtain ⟨-, -, hfails, -, hexecuted, -⟩ := run_iff all [status, empty, colour] ∅ ()
  rcases hrun : run [status, colour] with ⟨error | result, last⟩
  · rw [hrun] at hnames
    cases hnames
  rcases hrun' : run [status, empty, colour] with ⟨error | result', last'⟩
  · obtain ⟨answers, final, hall, hresult⟩ := (hsucceeds result last).1 hrun
    obtain ⟨answers', final', hsome⟩ := (hfails error last').1 hrun'
    rw [hrun] at hnames
    rw [hexecuted answers' error last' final' hsome] at hanswered
    refine ⟨all, _, _, result, error, last, last', answers, answers', final, final',
      concerns_onlyAdd, hrun, hall, Option.some.inj hnames, ?_, hrun', hsome, hanswered⟩
    rw [hresult, hkinds concerns_onlyAdd answers last final hall]
  · rw [hrun'] at hfailure
    cases hfailure

end Handlers

end Stubwright
