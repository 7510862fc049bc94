import Mathlib.Data.List.Nodup
import Stubwright.Proofs.Instruction
import Stubwright.Source.Fragment

/-!
# What steps decide

Most steps of generation come to one of two ends: the input is accepted, and the step answers a
value that can be told in advance, or it is refused. Neither depends on the log. A refusal is always
in words of the generator; no text that the generator makes up is ever refused by a reader.

## Main definitions

* `Grammar.IsRefusal` — a message that names a text that was refused by a reader
* `Step.Decides` — a step accepts its input under a condition, with a value and a state to reach

## Main results

* `Step.Decides.bind`, `Step.Decides.guarded` — steps one after another, and checks
* `Step.Decides.mapM`, `Step.Decides.forM` — a step for each item of a list
* `Handlers.exec_decides` — an instruction, which the handler of its vocabulary decides
-/

namespace Stubwright

open Source

/-! ## Messages -/

/-- A message that says which text was refused, and what it was to be. -/
def Source.Grammar.IsRefusal (message : String) : Prop :=
  ∃ (α : Type) (grammar : Grammar α) (text : String) (error : SyntaxError),
    message = grammar.refusal text error

/-- A message in words of the generator, none of which begins like the refusal of a text. -/
def InOwnWords (message : String) : Prop := message.toList.head?.any (· ≠ 'U')

instance (message : String) : Decidable (InOwnWords message) :=
  inferInstanceAs (Decidable (_ = true))

/-- The first words of a message tell whose it is. -/
@[simp] theorem inOwnWords_append {lead rest : String} :
    InOwnWords (lead ++ rest) ↔ InOwnWords lead ∨ lead = "" ∧ InOwnWords rest := by
  simp only [InOwnWords, String.toList_append, List.head?_append, ← String.toList_eq_nil_iff]
  cases lead.toList <;> simp

theorem InOwnWords.not_isRefusal {message : String} (h : InOwnWords message) :
    ¬ Grammar.IsRefusal message := by
  rintro ⟨α, grammar, text, error, rfl⟩
  unfold Grammar.refusal at h
  simp +decide at h

namespace Step

variable {σ α β : Type}

/-- A step that fails is all that is carried out: nothing behind it recovers. -/
theorem outcome_bind_of_error {step : Step σ α} {next : α → Step σ β} {log : Log} {state : σ}
    {error : GenError} (h : (step.outcome log state).1.result = .error error) :
    (step >>= next).outcome log state =
      (⟨.error error, (step.outcome log state).1.log⟩, (step.outcome log state).2) := by
  rw [outcome_bind]
  rcases hstep : step.outcome log state with ⟨⟨result, reached⟩, after⟩
  rw [hstep] at h
  dsimp only at h
  subst h
  rfl

/-- A step that fails decides on the result of whatever comes behind it. -/
theorem result_bind_of_error {step : Step σ α} {next : α → Step σ β} {log : Log} {state : σ}
    {error : GenError} (h : (step.outcome log state).1.result = .error error) :
    ((step >>= next).outcome log state).1.result = .error error := by
  rw [outcome_bind_of_error h]

/-- A step whose value is only handed on succeeds where the step does. -/
theorem result_bind_pure_eq_ok_iff {step : Step σ α} {f : α → β} {log : Log} {state : σ}
    {found : β} :
    ((step >>= fun value => pure (f value)).outcome log state).1.result = .ok found ↔
      ∃ value, (step.outcome log state).1.result = .ok value ∧ f value = found := by
  rw [outcome_bind]
  rcases step.outcome log state with ⟨⟨result, reached⟩, after⟩
  cases result with
  | error error => simp
  | ok value => simp

/-- What a step comes to from a state, whatever the log. If the input is accepted, the step answers
`value` and reaches `after`; otherwise it refuses the input in words of its own. -/
structure Decides (step : Step σ α) (state : σ) (accepted : Prop) (value : α) (after : σ) :
    Prop where
  answers : accepted → ∀ log,
    (step.outcome log state).1.result = .ok value ∧ (step.outcome log state).2 = after
  refuses : ¬ accepted → ∀ log, ∃ message,
    (step.outcome log state).1.result = .error (.user message) ∧ ¬ Grammar.IsRefusal message

namespace Decides

variable {state after later : σ} {accepted admitted : Prop} {value : α} {answer : β}

/-! ## What is decided -/

/-- Just the accepted inputs are answered, and with the one value. -/
theorem result_eq_ok_iff {step : Step σ α} (h : Decides step state accepted value after) {log : Log}
    {found : α} :
    (step.outcome log state).1.result = .ok found ↔ accepted ∧ found = value := by
  by_cases haccepted : accepted
  · rw [(h.answers haccepted log).1, and_iff_right haccepted, Except.ok.injEq]
    exact eq_comm
  · obtain ⟨message, hresult, -⟩ := h.refuses haccepted log
    rw [hresult]
    exact iff_of_false nofun fun hboth => haccepted hboth.1

/-- A step that decides fails only because of its input, in words of its own. -/
theorem user_of_error {step : Step σ α} (h : Decides step state accepted value after) {log : Log}
    {error : GenError} (herror : (step.outcome log state).1.result = .error error) :
    error.kind = .user ∧ ¬ Grammar.IsRefusal error.message := by
  by_cases haccepted : accepted
  · rw [(h.answers haccepted log).1] at herror
    cases herror
  · obtain ⟨message, hresult, hwords⟩ := h.refuses haccepted log
    rw [hresult] at herror
    cases herror
    exact ⟨rfl, hwords⟩

/-! ## Single steps -/

/-- A value is answered in any case. -/
theorem pure : Decides (pure value : Step σ α) state True value state :=
  ⟨fun _ _ => ⟨rfl, rfl⟩, fun h => absurd trivial h⟩

theorem record {level : LogLevel} {text : String} :
    Decides (Step.record level text : Step σ Unit) state True () state :=
  ⟨fun _ _ => ⟨rfl, rfl⟩, fun h => absurd trivial h⟩

/-- Reading the state answers the state. -/
theorem read : Decides (Step.state : Step σ σ) state True state state :=
  ⟨fun _ _ => ⟨rfl, rfl⟩, fun h => absurd trivial h⟩

/-- Changing the state is never refused. -/
theorem onState (change : σ → σ) : Decides (Step.onState change) state True () (change state) :=
  ⟨fun _ _ => ⟨rfl, rfl⟩, fun h => absurd trivial h⟩

/-- A refusal in words of the generator. The value and the state never come into play. -/
theorem refuse {message : String} (h : InOwnWords message) :
    Decides (Step.refuse message : Step σ α) state False value after :=
  ⟨False.elim, fun _ _ => ⟨message, rfl, h.not_isRefusal⟩⟩

/-- A result that was computed before is accepted or refused as it is. -/
theorem liftExcept {result : Except GenError α} (hok : accepted → result = .ok value)
    (herror : ¬ accepted → ∃ message, result = .error (.user message) ∧
      InOwnWords message) :
    Decides (liftExcept result : Step σ α) state accepted value state := by
  refine ⟨fun h log => ?_, fun h log => ?_⟩
  · rw [hok h]
    exact ⟨rfl, rfl⟩
  · obtain ⟨message, hresult, hwords⟩ := herror h
    rw [hresult]
    exact ⟨message, rfl, hwords.not_isRefusal⟩

/-! ## Steps put together -/

/-- The condition of a step may be put in other words. -/
theorem congr {step : Step σ α} (h : Decides step state accepted value after)
    (hiff : accepted ↔ admitted) : Decides step state admitted value after :=
  ⟨fun hadmitted => h.answers (hiff.2 hadmitted),
    fun hnot => h.refuses fun haccepted => hnot (hiff.1 haccepted)⟩

/-- What follows a step that accepts goes on with the value and from the state that it has reached,
and from some log. -/
theorem exists_outcome_bind {step : Step σ α} (h : Decides step state accepted value after)
    (haccepted : accepted) (next : α → Step σ β) (log : Log) :
    ∃ reached, (step >>= next).outcome log state = (next value).outcome reached after := by
  obtain ⟨hresult, hafter⟩ := h.answers haccepted log
  rw [outcome_bind]
  rcases hstep : step.outcome log state with ⟨⟨result, reached⟩, state'⟩
  rw [hstep] at hresult hafter
  dsimp only at hresult hafter
  subst hresult hafter
  exact ⟨reached, rfl⟩

/-- What follows a step is decided where the step accepts. -/
theorem bind {step : Step σ α} {next : α → Step σ β} (h : Decides step state accepted value after)
    (hnext : accepted → Decides (next value) after admitted answer later) :
    Decides (step >>= next) state (accepted ∧ admitted) answer later := by
  refine ⟨fun ⟨haccepted, hadmitted⟩ log => ?_, fun hnot log => ?_⟩
  · obtain ⟨reached, hreached⟩ := h.exists_outcome_bind haccepted next log
    rw [hreached]
    exact (hnext haccepted).answers hadmitted reached
  · by_cases haccepted : accepted
    · obtain ⟨reached, hreached⟩ := h.exists_outcome_bind haccepted next log
      rw [hreached]
      exact (hnext haccepted).refuses (fun hadmitted => hnot ⟨haccepted, hadmitted⟩) reached
    · obtain ⟨message, hresult, hwords⟩ := h.refuses haccepted log
      exact ⟨message, result_bind_of_error hresult, hwords⟩

/-- A step that accepts any input comes before one that decides. -/
theorem andThen {step : Step σ α} {next : α → Step σ β} (h : Decides step state True value after)
    (hnext : Decides (next value) after admitted answer later) :
    Decides (step >>= next) state admitted answer later :=
  (h.bind fun _ => hnext).congr (and_iff_right trivial)

/-- A step that decides comes before one that accepts any input. -/
theorem before {step : Step σ α} {next : α → Step σ β} (h : Decides step state accepted value after)
    (hnext : Decides (next value) after True answer later) :
    Decides (step >>= next) state accepted answer later :=
  (h.bind fun _ => hnext).congr (and_iff_left trivial)

/-- A message that is logged on the way decides nothing. -/
theorem logged {level : LogLevel} {text : String} {rest : Step σ β}
    (h : Decides rest state admitted answer later) :
    Decides (Step.record level text >>= fun _ => rest) state admitted answer later :=
  andThen record h

/-- A step whose value is only handed on. -/
theorem andReturn {step : Step σ α} (h : Decides step state accepted value after) (f : α → β) :
    Decides (step >>= fun value => Pure.pure (f value)) state accepted (f value) after :=
  h.before pure

/-- What is made of the answer is answered under the same condition. -/
theorem map {step : Step σ α} (h : Decides step state accepted value after) (f : α → β) :
    Decides (f <$> step) state accepted (f value) after := by
  rw [map_eq_pure_bind]
  exact h.andReturn f

/-- Without its answer a step has the same condition. -/
theorem discard {step : Step σ α} (h : Decides step state accepted value after) :
    Decides (discard step) state accepted () after := h.map _

/-- Nothing follows a refusal. -/
theorem refused {message : String} {next : α → Step σ β} (hwords : InOwnWords message) :
    Decides (Step.refuse message >>= next) state False answer later :=
  ⟨False.elim, fun _ _ => ⟨message, rfl, hwords.not_isRefusal⟩⟩

/-- A check that refuses some inputs, and what follows it. -/
theorem guarded {c : Prop} [Decidable c] {message : String} {next : Unit → Step σ α}
    (hwords : InOwnWords message)
    (h : ¬ c → Decides (next ()) state admitted value after) :
    Decides (if c then Step.refuse message >>= next else next ()) state (¬ c ∧ admitted) value
      after := by
  split
  · rename_i hc
    exact (refused hwords).congr (by simp [hc])
  · rename_i hc
    exact (h hc).congr (by simp [hc])

/-- Inside of a scope a step has the same condition. -/
theorem inScope {name : String} {body : Step σ α} (h : Decides body state accepted value after) :
    Decides (Step.inScope name body) state accepted value after :=
  ⟨fun haccepted log => h.answers haccepted (log.push name),
    fun hnot log => h.refuses hnot (log.push name)⟩

/-! ## A step for each item -/

/-- Steps that leave the state as it is accept a list when they accept every item. -/
theorem mapM {f : α → Step σ β} {accepts : α → Prop} {g : α → β} {items : List α}
    (h : ∀ item ∈ items, Decides (f item) state (accepts item) (g item) state) :
    Decides (items.mapM f) state (∀ item ∈ items, accepts item) (items.map g) state := by
  induction items with
  | nil => exact pure.congr (by simp)
  | cons item rest ih =>
    obtain ⟨hitem, hrest⟩ := List.forall_mem_cons.1 h
    rw [List.mapM_cons]
    refine (hitem.bind fun _ => (ih hrest).andReturn (g item :: ·)).congr ?_
    rw [List.forall_mem_cons]

/-- Steps that accept any item accept any list. -/
theorem mapEach {f : α → Step σ β} {g : α → β} {items : List α}
    (h : ∀ item ∈ items, Decides (f item) state True (g item) state) :
    Decides (items.mapM f) state True (items.map g) state :=
  (mapM h).congr (iff_true_intro fun _ _ => trivial)

/-- Steps that go from state to state, each of which is told by what was seen before. -/
theorem forM {γ : Type} {f : α → Step σ Unit} {accepts : α → Prop} {at_ : γ → σ}
    {next : γ → α → γ} {items : List α} (seen : γ)
    (h : ∀ item ∈ items, ∀ seen,
      Decides (f item) (at_ seen) (accepts item) () (at_ (next seen item))) :
    Decides (items.forM f) (at_ seen) (∀ item ∈ items, accepts item) ()
      (at_ (items.foldl next seen)) := by
  induction items generalizing seen with
  | nil => exact pure.congr (by simp)
  | cons item rest ih =>
    obtain ⟨hitem, hrest⟩ := List.forall_mem_cons.1 h
    refine ((hitem seen).bind fun _ => ih (next seen item) hrest).congr ?_
    rw [List.forall_mem_cons]

end Decides

end Step

/-! ## Reading -/

section

variable {σ α β : Type} {grammar : Source.Grammar α} {text : String} {state : σ}

/-- A text that is a fragment is read as the fragment. -/
theorem Source.Grammar.read_decides {value : α} (h : grammar.parse text = .ok value) :
    (grammar.read text).Decides state True value state := by
  unfold read
  rw [h]
  exact .logged .pure

/-- A text that is no fragment fails the reading of it with its refusal, and so all that follows. -/
theorem Source.Grammar.result_read_of_error {error : SyntaxError}
    (h : grammar.parse text = .error error) (next : α → Step σ β) (log : Log) :
    ((grammar.read text >>= next).outcome log state).1.result =
      .error (.user (grammar.refusal text error)) := by
  apply Step.result_bind_of_error
  unfold read
  rw [h]
  rfl

end

/-! ## Instructions -/

namespace Handlers

variable {V : Vocabulary} {Vs : List Vocabulary}

/-- Carrying out an instruction is decided by the handler of its vocabulary, and what the answer
carries is collected. -/
theorem exec_decides (handlers : Handlers Vs) (member : Member V Vs) (term : V.Term)
    {state : handlers.combined.State} (collected : Codegen) {accepted : Prop} {answer : V.Answer}
    {after : (handlers.get member).State}
    (h : ((handlers.get member).handle term).Decides (handlers.stateOf member state) accepted answer
      after) :
    (handlers.combined.exec member term).Decides ⟨state, collected⟩ accepted answer
      ⟨handlers.withState member after state, V.contribute answer collected⟩ := by
  refine ⟨fun haccepted log => ?_, fun hnot log => ?_⟩
  · obtain ⟨hresult, hafter⟩ := h.answers haccepted log
    rw [handlers.outcome_exec ⟨member, term⟩]
    simp only [perform, sessionAfter, hresult, hafter, Vocabulary.collectResult, and_self]
  · rw [handlers.outcome_exec ⟨member, term⟩]
    exact h.refuses hnot log

end Handlers

/-- A run in a session of its own answers what its step decides and everything collected. -/
theorem Session.whole_decides {σ τ α : Type} {start : σ} {step : Step (Session σ) α} {state : τ}
    {accepted : Prop} {value : α} {after : Session σ}
    (h : step.Decides (Session.start start) accepted value after) :
    (Session.whole start step).Decides state accepted (value, after.collected) state := by
  refine ⟨fun haccepted log => ⟨?_, rfl⟩, fun hnot log => ?_⟩
  · obtain ⟨hresult, hafter⟩ := h.answers haccepted log
    change Except.map (·, (step.outcome log (Session.start start)).2.collected)
      (step.outcome log (Session.start start)).1.result = _
    rw [hresult, hafter]
    rfl
  · obtain ⟨message, hresult, hwords⟩ := h.refuses hnot log
    refine ⟨message, ?_, hwords⟩
    change Except.map _ (step.outcome log (Session.start start)).1.result = _
    rw [hresult]
    rfl

end Stubwright
