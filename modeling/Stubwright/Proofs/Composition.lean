import Mathlib.Data.List.Nodup
import Stubwright.Concern.Enumeration
import Stubwright.Concern.Resolution
import Stubwright.Proofs.Instruction

/-!
# The order of composition

Handlers are put together in some order, which decides where an instruction and its answer stand in
the sum, and where the state of a handler stands among the states of all. None of this can be seen
from outside: two orders carry out the same instructions to the same ends, also where some of the
instructions fail on the way.

## Main definitions

* `Handlers.toList` — handlers with their vocabularies, in the order of composition
* `Handlers.execEach` — instructions one after another, going on after a failure
* `Handlers.running` — a handler of a composition with the state that it has reached
* `Handlers.Mirrors` — the sessions of two compositions in the same situation

## Main results

* `Handlers.Mirrors.step` — one instruction leaves two compositions in the same situation
* `Handlers.execEach_of_perm` — a list of instructions, carried out by two compositions of the same
  handlers
-/

namespace Stubwright

open Source

variable {V W : Vocabulary} {Vs Ws : List Vocabulary}

/-- Vocabularies are told apart by the labels of their instructions. -/
theorem Vocabulary.ne_of_label (term : V.Term)
    (h : ∀ other : W.Term, W.label other ≠ V.label term) : V ≠ W := by
  rintro rfl
  exact h term rfl

/-! ## Places -/

namespace Member

private theorem nonempty_of_mem (h : V ∈ Vs) : Nonempty (Member V Vs) := by
  induction Vs with
  | nil => cases h
  | cons W rest ih =>
    rcases List.mem_cons.1 h with rfl | hrest
    · exact ⟨here⟩
    · exact (ih hrest).map there

/-- A vocabulary has one place among distinct vocabularies. -/
theorem eq_of_nodup (h : Vs.Nodup) (first second : Member V Vs) : first = second := by
  induction first with
  | here =>
    cases second with
    | here => rfl
    | there second => exact absurd second.mem (List.nodup_cons.1 h).1
  | there first ih =>
    cases second with
    | here => exact absurd first.mem (List.nodup_cons.1 h).1
    | there second => rw [ih (List.nodup_cons.1 h).2 second]

end Member

/-- The instruction at a place of its vocabulary in another list that holds this vocabulary. -/
noncomputable def Instruction.among (h : Vs ⊆ Ws) (instruction : Instruction Vs) :
    Instruction Ws :=
  ⟨Classical.choice (Member.nonempty_of_mem (h instruction.place.mem)), instruction.term⟩

/-! ## Running handlers -/

/-- A handler in the middle of a run, with the state that it has reached. -/
structure RunningHandler (V : Vocabulary) where
  handler : Handler V
  state : handler.State

/-- Carries out an instruction, and goes on in the state that it reaches. -/
def RunningHandler.perform (running : RunningHandler V) (term : V.Term) (log : Log) :
    Outcome V.Answer × RunningHandler V :=
  let reached := (running.handler.handle term).outcome log running.state
  (reached.1, ⟨running.handler, reached.2⟩)

namespace Handlers

/-- The handlers with their vocabularies, in the order of composition. -/
def toList : {Vs : List Vocabulary} → Handlers Vs → List (Σ V : Vocabulary, Handler V)
  | _, nil => []
  | _, cons first rest => ⟨_, first⟩ :: rest.toList

@[simp] theorem map_fst_toList (handlers : Handlers Vs) : handlers.toList.map Sigma.fst = Vs := by
  induction handlers with
  | nil => rfl
  | cons first rest ih => exact congrArg (_ :: ·) ih

private theorem get_mem_toList (handlers : Handlers Vs) (member : Member V Vs) :
    (⟨V, handlers.get member⟩ : Σ V, Handler V) ∈ handlers.toList := by
  induction member with
  | here =>
    cases handlers
    exact List.mem_cons_self
  | there member ih =>
    cases handlers with
    | cons first rest => exact List.mem_cons_of_mem _ (ih rest)

/-- The handler of a composition, with the state that it has reached. -/
def running (handlers : Handlers Vs) (state : handlers.combined.State) (member : Member V Vs) :
    RunningHandler V :=
  ⟨handlers.get member, handlers.stateOf member state⟩

private theorem stateOf_start (handlers : Handlers Vs) (member : Member V Vs) :
    handlers.stateOf member handlers.combined.start = (handlers.get member).start := by
  induction member with
  | here =>
    cases handlers
    rfl
  | there member ih =>
    cases handlers with
    | cons first rest => exact ih rest

private theorem running_start (handlers : Handlers Vs) (member : Member V Vs) :
    handlers.running handlers.combined.start member =
      ⟨handlers.get member, (handlers.get member).start⟩ :=
  congrArg (RunningHandler.mk _) (handlers.stateOf_start member)

/-- Compositions of the same handlers agree on the handler of each vocabulary. -/
theorem get_eq_of_perm {handlers : Handlers Vs} {others : Handlers Ws} (hdistinct : Vs.Nodup)
    (hperm : handlers.toList.Perm others.toList) (member : Member V Vs) (member' : Member V Ws) :
    handlers.get member = others.get member' := by
  have hnodup : (handlers.toList.map Sigma.fst).Nodup := by rwa [map_fst_toList]
  -- Both pairs stand in one list, in which a vocabulary occurs once.
  have hpair := List.inj_on_of_nodup_map hnodup (handlers.get_mem_toList member)
    (hperm.mem_iff.2 (others.get_mem_toList member')) rfl
  exact eq_of_heq (Sigma.mk.inj hpair).2

private theorem perm_of_perm {handlers : Handlers Vs} {others : Handlers Ws}
    (hperm : handlers.toList.Perm others.toList) : Vs.Perm Ws := by
  simpa using hperm.map Sigma.fst

/-! ## Instructions one after another -/

/-- Carries out instructions one after another, and tells what each of them came to. Each goes on
from the log and the session that the one before it left, whether that one failed or not. -/
def execEach (handlers : Handlers Vs) :
    List (Instruction Vs) → Log → Session handlers.combined.State →
      List (Σ V : Vocabulary, Outcome V.Answer) × Session handlers.combined.State
  | [], _, session => ([], session)
  | instruction :: rest, log, session =>
    let reached := (handlers.combined.exec instruction.place instruction.term).outcome log session
    let others := handlers.execEach rest reached.1.log reached.2
    (⟨instruction.vocabulary, reached.1⟩ :: others.1, others.2)

private theorem execEach_cons (handlers : Handlers Vs) (instruction : Instruction Vs)
    (rest : List (Instruction Vs)) (log : Log) (session : Session handlers.combined.State) :
    handlers.execEach (instruction :: rest) log session =
      let outcome := (handlers.perform instruction log session.handler).1
      let after := handlers.sessionAfter instruction log session
      let others := handlers.execEach rest outcome.log after
      (⟨instruction.vocabulary, outcome⟩ :: others.1, others.2) := by
  rw [execEach, outcome_exec]

/-- What an instruction came to is what the handler of its own vocabulary came to. -/
def Reports (handlers : Handlers Vs) (instruction : Instruction Vs)
    (reply : Σ V : Vocabulary, Outcome V.Answer) : Prop :=
  ∃ log state, reply = ⟨instruction.vocabulary,
    (((handlers.get instruction.place).handle instruction.term).outcome log state).1⟩

private theorem reports_execEach (handlers : Handlers Vs) (program : List (Instruction Vs))
    (log : Log)
    (session : Session handlers.combined.State) :
    List.Forall₂ handlers.Reports program (handlers.execEach program log session).1 := by
  induction program generalizing log session with
  | nil => exact .nil
  | cons instruction rest ih =>
    refine .cons ⟨log, handlers.stateOf instruction.place session.handler, ?_⟩ (ih _ _)
    rw [outcome_exec]
    rfl

/-! ## Two compositions -/

/-- The sessions of two compositions in the same situation: each vocabulary has the same handler in
the same state, and the same definitions were collected. -/
structure Mirrors (handlers : Handlers Vs) (others : Handlers Ws)
    (session : Session handlers.combined.State) (session' : Session others.combined.State) :
    Prop where
  running : ∀ {V : Vocabulary} (member : Member V Vs) (member' : Member V Ws),
    handlers.running session.handler member = others.running session'.handler member'
  collected : session.collected = session'.collected

variable {handlers : Handlers Vs} {others : Handlers Ws}

private theorem mirrors_start (hdistinct : Vs.Nodup) (hperm : handlers.toList.Perm others.toList) :
    handlers.Mirrors others (.start handlers.combined.start) (.start others.combined.start) where
  running member member' := by
    have hget := get_eq_of_perm hdistinct hperm member member'
    show handlers.running handlers.combined.start member =
      others.running others.combined.start member'
    rw [running_start, running_start, hget]
  collected := rfl

/-- An instruction moves the handler of its vocabulary on. -/
theorem running_perform (handlers : Handlers Vs) (member : Member V Vs) (term : V.Term) (log : Log)
    (state : handlers.combined.State) :
    handlers.running (handlers.perform ⟨member, term⟩ log state).2 member =
      ((handlers.running state member).perform term log).2 :=
  congrArg (RunningHandler.mk _) (handlers.stateOf_withState member _ state)

/-- An instruction leaves the handlers of all other vocabularies where they are. -/
theorem running_perform_of_ne (h : V ≠ W) (handlers : Handlers Vs) (member : Member V Vs)
    (term : V.Term) (log : Log) (state : handlers.combined.State) (other : Member W Vs) :
    handlers.running (handlers.perform ⟨member, term⟩ log state).2 other =
      handlers.running state other :=
  congrArg (RunningHandler.mk _) (handlers.stateOf_withState_of_ne h member other _ state)

/-- From the same situation, an instruction comes to the same in both compositions and leaves them
in the same situation. -/
theorem Mirrors.step (hdistinct : Vs.Nodup) (hdistinct' : Ws.Nodup)
    {session : Session handlers.combined.State} {session' : Session others.combined.State}
    (h : handlers.Mirrors others session session') (place : Member V Vs) (place' : Member V Ws)
    (term : V.Term) (log : Log) :
    (handlers.perform ⟨place, term⟩ log session.handler).1 =
        (others.perform ⟨place', term⟩ log session'.handler).1 ∧
      handlers.Mirrors others (handlers.sessionAfter ⟨place, term⟩ log session)
        (others.sessionAfter ⟨place', term⟩ log session') := by
  have hperform : (handlers.running session.handler place).perform term log =
      (others.running session'.handler place').perform term log := by
    rw [h.running place place']
  have houtcome : (handlers.perform ⟨place, term⟩ log session.handler).1 =
      (others.perform ⟨place', term⟩ log session'.handler).1 := congrArg Prod.fst hperform
  refine ⟨houtcome, fun {W} other other' => ?_, ?_⟩
  · show handlers.running (handlers.perform ⟨place, term⟩ log session.handler).2 other =
      others.running (others.perform ⟨place', term⟩ log session'.handler).2 other'
    -- Only the handler at the place moves, and its vocabulary has no other place.
    by_cases hW : V = W
    · subst hW
      rw [Member.eq_of_nodup hdistinct other place, Member.eq_of_nodup hdistinct' other' place',
        running_perform, running_perform, hperform]
    · rw [running_perform_of_ne hW, running_perform_of_ne hW]
      exact h.running other other'
  · simp only [sessionAfter, houtcome, h.collected]

/-- Whole lists of instructions come to the same in both compositions, instruction by instruction,
from the same situation to the same situation. -/
theorem Mirrors.execEach (hdistinct : Vs.Nodup) (hdistinct' : Ws.Nodup) (hsubset : Vs ⊆ Ws)
    {session : Session handlers.combined.State} {session' : Session others.combined.State}
    (h : handlers.Mirrors others session session') (program : List (Instruction Vs)) (log : Log) :
    (handlers.execEach program log session).1 =
        (others.execEach (program.map (Instruction.among hsubset)) log session').1 ∧
      handlers.Mirrors others (handlers.execEach program log session).2
        (others.execEach (program.map (Instruction.among hsubset)) log session').2 := by
  induction program generalizing log session session' with
  | nil => exact ⟨rfl, h⟩
  | cons instruction rest ih =>
    obtain ⟨houtcome, hafter⟩ := h.step hdistinct hdistinct' instruction.place
      (instruction.among hsubset).place instruction.term log
    obtain ⟨hrest, hlast⟩ := ih hafter (handlers.perform instruction log session.handler).1.log
    have hlog : (others.perform (instruction.among hsubset) log session'.handler).1.log =
        (handlers.perform instruction log session.handler).1.log :=
      (congrArg Outcome.log houtcome).symm
    rw [List.map_cons, execEach_cons, execEach_cons]
    dsimp only
    rw [hlog]
    exact ⟨congrArg₂ (fun outcome replies => Sigma.mk instruction.vocabulary outcome :: replies)
      houtcome hrest, hlast⟩

/-- Distinct vocabularies with their handlers can be put together in any order. Instructions that
are carried out one after another, also after failures, come to the same answers or errors with the
same logs; every handler ends in the same state, and the same result was collected. What is reported
of an instruction always comes from the handler of its own vocabulary. -/
theorem execEach_of_perm (hdistinct : Vs.Nodup) (hperm : handlers.toList.Perm others.toList)
    (program : List (Instruction Vs)) (log : Log) :
    let program' := program.map (Instruction.among (perm_of_perm hperm).subset)
    let run := handlers.execEach program log (.start handlers.combined.start)
    let run' := others.execEach program' log (.start others.combined.start)
    run.1 = run'.1 ∧
      (∀ (V : Vocabulary) (member : Member V Vs) (member' : Member V Ws),
        handlers.running run.2.handler member = others.running run'.2.handler member') ∧
      run.2.collected = run'.2.collected ∧
      List.Forall₂ handlers.Reports program run.1 ∧
        List.Forall₂ others.Reports program' run'.1 := by
  have hdistinct' : Ws.Nodup := (perm_of_perm hperm).nodup_iff.1 hdistinct
  obtain ⟨houtcomes, hlast⟩ := (mirrors_start hdistinct hperm).execEach hdistinct hdistinct'
    (perm_of_perm hperm).subset program log
  exact ⟨houtcomes, fun V member member' => hlast.running member member', hlast.collected,
    handlers.reports_execEach program log _, others.reports_execEach _ log _⟩

theorem execEach_of_perm_status :
    ∃ (handlers : Handlers [Resolution.vocabulary, Enumeration.vocabulary])
      (others : Handlers [Enumeration.vocabulary, Resolution.vocabulary])
      (program : List (Instruction [Resolution.vocabulary, Enumeration.vocabulary]))
      (program' : List (Instruction [Enumeration.vocabulary, Resolution.vocabulary])),
      let run := handlers.execEach program ∅ (.start handlers.combined.start)
      let run' := others.execEach program' ∅ (.start others.combined.start)
      handlers.toList.Perm others.toList ∧ run.1.map (·.2.result.toBool) = [true, false, true] ∧
        run.1 = run'.1 ∧ run.2.collected = run'.2.collected := by
  have hdistinct : [Resolution.vocabulary, Enumeration.vocabulary].Nodup := by
    refine List.nodup_cons.2 ⟨?_, List.nodup_singleton _⟩
    rw [List.mem_singleton]
    refine Vocabulary.ne_of_label (.indexSchemas []) fun other => ?_
    simp [Resolution.Term.label, toString, ← String.toList_inj]
  let package : QualifiedName := .simple ⟨"api", by decide⟩
  let handlers : Handlers [Resolution.vocabulary, Enumeration.vocabulary] :=
    .cons Resolution.handler (.cons (Enumeration.handler package) .nil)
  let others : Handlers [Enumeration.vocabulary, Resolution.vocabulary] :=
    .cons (Enumeration.handler package) (.cons Resolution.handler .nil)
  have hperm : handlers.toList.Perm others.toList := .swap ..
  obtain ⟨houtcomes, -, hcollected, -⟩ := execEach_of_perm hdistinct hperm
    [⟨.here, .indexSchemas [⟨"status", .enumeration []⟩]⟩, ⟨.there .here, ⟨"status", []⟩⟩,
      ⟨.here, .resolveType (.ref "status") false⟩] ∅
  exact ⟨handlers, others, _, _, hperm, by decide +kernel, houtcomes, hcollected⟩

end Handlers

end Stubwright
