import Stubwright.Interpreter
import Stubwright.Source.Fragment

/-!
# Traces

A step logs messages, and scopes with what is logged inside of them. What it logs, what it answers
and which state it reaches depend on the state alone: no step reads the log, and none closes a scope
that it did not open. What is true of every message that a step may log is carried along with the
trace, whether the step succeeds or fails.

## Main definitions

* `Trace` — messages and closed scopes, in the order in which they are logged
* `Trace.entries`, `Log.write` — what a trace leaves in a log
* `Trace.All` — every message of a trace is allowed
* `Step.Traces` — from each state, a step logs one trace of allowed messages, whatever was logged
  before
* `Handler.Traces` — so does every instruction of a handler

## Main results

* `Trace.entries_under` — within more scopes a trace leaves the same entries, with longer paths
* `Trace.All.of_mem_entries` — what is allowed is true of the entries
* `Step.Traces.bind`, `Step.Traces.inScope` — steps one after another, and steps in a scope
* `Step.Traces.mapM`, `Step.Traces.foldlM` — a step for each item of a list
* `Handler.Traces.exec` — carrying out an instruction
-/

namespace Stubwright

/-- What a log warns of when a scope is closed and none is open. -/
def Log.unbalancedPop : String := "unbalanced pop: no scope is open"

/-- With no open scope, there is only a warning. -/
theorem Log.pop_of_scope_eq_nil {log : Log} (h : log.scope = []) :
    log.pop = log.record .warning unbalancedPop := by
  unfold pop
  rw [h]
  rfl

/-- What is logged between two points at which the same scopes are open: messages, and scopes that
are closed again. -/
inductive Trace where
  | done
  | message (level : LogLevel) (text : String) (rest : Trace)
  | scope (name : String) (inner rest : Trace)
deriving DecidableEq, Repr

/-- The entry with further scopes around it. -/
def LogEntry.under (outer : List String) (entry : LogEntry) : LogEntry :=
  { entry with path := outer ++ entry.path }

namespace Trace

/-- A trace and what is logged after it. -/
def append : Trace → Trace → Trace
  | done, after => after
  | message level text rest, after => message level text (rest.append after)
  | scope name inner rest, after => scope name inner (rest.append after)

/-- The entries of a trace that is logged within the scopes of `path`. -/
def entries : Trace → List String → List LogEntry
  | done, _ => []
  | message level text rest, path => ⟨level, path, .message text⟩ :: rest.entries path
  | scope name inner rest, path =>
    let opened := path ++ [name]
    ⟨.debug, opened, .push⟩ :: inner.entries opened ++ ⟨.debug, opened, .pop⟩ :: rest.entries path

/-- Every message of a trace, however deep in its scopes, is allowed. -/
def All (allowed : LogLevel → String → Prop) : Trace → Prop
  | done => True
  | message level text rest => allowed level text ∧ rest.All allowed
  | scope _ inner rest => inner.All allowed ∧ rest.All allowed

@[simp] theorem entries_append (first second : Trace) (path : List String) :
    (first.append second).entries path = first.entries path ++ second.entries path := by
  induction first with
  | done => rfl
  | message level text rest ih => simp [append, entries, ih]
  | scope name inner rest _ ih => simp [append, entries, ih]

/-- Within more scopes a trace leaves the same entries, and their paths begin with these scopes. -/
theorem entries_under (trace : Trace) (outer path : List String) :
    trace.entries (outer ++ path) = (trace.entries path).map (LogEntry.under outer) := by
  induction trace generalizing path with
  | done => rfl
  | message level text rest ih => simp [entries, LogEntry.under, ih]
  | scope name inner rest ihInner ihRest =>
    simp only [entries, List.append_assoc, ihInner, ihRest, List.map_append, List.map_cons]
    rfl

variable {allowed admitted : LogLevel → String → Prop} {trace : Trace}

theorem all_append {first second : Trace} :
    (first.append second).All allowed ↔ first.All allowed ∧ second.All allowed := by
  induction first with
  | done => simp [append, All]
  | message level text rest ih => simp [append, All, ih, and_assoc]
  | scope name inner rest _ ih => simp [append, All, ih, and_assoc]

theorem All.mono (h : trace.All allowed)
    (himp : ∀ level text, allowed level text → admitted level text) : trace.All admitted := by
  induction trace with
  | done => trivial
  | message level text rest ih => exact ⟨himp level text h.1, ih h.2⟩
  | scope name inner rest ihInner ihRest => exact ⟨ihInner h.1, ihRest h.2⟩

/-- The messages among the entries are those of the trace, so they are allowed. -/
theorem All.of_mem_entries (h : trace.All allowed) {path : List String} {entry : LogEntry}
    (hentry : entry ∈ trace.entries path) {text : String} (hevent : entry.event = .message text) :
    allowed entry.level text := by
  induction trace generalizing path with
  | done => cases hentry
  | message level found rest ih =>
    rcases List.mem_cons.1 hentry with rfl | hrest
    · obtain rfl := LogEvent.message.inj hevent
      exact h.1
    · exact ih h.2 hrest
  | scope name inner rest ihInner ihRest =>
    simp only [entries, List.cons_append, List.mem_cons, List.mem_append] at hentry
    rcases hentry with rfl | hinner | rfl | hrest
    · cases hevent
    · exact ihInner h.1 hinner
    · cases hevent
    · exact ihRest h.2 hrest

end Trace

/-! ## Writing -/

namespace Log

/-- The log after a trace. The open scopes are the same as before. -/
def write (log : Log) (trace : Trace) : Log :=
  ⟨log.entries ++ (trace.entries log.scope).toArray, log.scope⟩

@[simp] theorem write_done (log : Log) : log.write .done = log := by
  simp [write, Trace.entries]

theorem write_append (log : Log) (first second : Trace) :
    log.write (first.append second) = (log.write first).write second := by
  simp [write]

theorem write_message (log : Log) (level : LogLevel) (text : String) :
    log.write (.message level text .done) = log.record level text := by
  simp [write, Trace.entries, record, add]

/-- The scope that was opened last is closed first. -/
theorem pop_of_scope_eq {log : Log} {outer : List String} {name : String}
    (h : log.scope = outer ++ [name]) :
    log.pop = ⟨log.entries.push ⟨.debug, outer ++ [name], .pop⟩, outer⟩ := by
  obtain ⟨entries, scope⟩ := log
  obtain rfl : scope = outer ++ [name] := h
  unfold pop
  split
  · simp_all
  · rename_i heq
    simp [← heq]

/-- A scope is opened, something is logged inside of it, and it is closed. -/
theorem write_scope (log : Log) (name : String) (inner : Trace) :
    log.write (.scope name inner .done) = ((log.push name).write inner).pop := by
  have hscope : ((log.push name).write inner).scope = log.scope ++ [name] := rfl
  rw [pop_of_scope_eq hscope]
  simp [write, Trace.entries, push]

end Log

/-! ## Steps -/

namespace Step

variable {σ τ α β : Type}

/-- From each state, a step comes to one result and one state and logs one trace of allowed
messages, whatever the log holds and whichever scopes are open. -/
def Traces (allowed : LogLevel → String → Prop) (step : Step σ α) : Prop :=
  ∀ state, ∃ result trace after, trace.All allowed ∧
    ∀ log, step.outcome log state = (⟨result, log.write trace⟩, after)

namespace Traces

variable {allowed admitted : LogLevel → String → Prop}

/-- What allows more messages allows the same steps. -/
theorem mono {step : Step σ α} (h : step.Traces allowed)
    (himp : ∀ level text, allowed level text → admitted level text) : step.Traces admitted := by
  intro state
  obtain ⟨result, trace, after, hall, houtcome⟩ := h state
  exact ⟨result, trace, after, hall.mono himp, houtcome⟩

/-! ### Single steps -/

/-- A step that logs nothing. -/
theorem silent {step : Step σ α} (h : ∀ state, ∃ result after, ∀ log,
    step.outcome log state = (⟨result, log⟩, after)) : step.Traces allowed := by
  intro state
  obtain ⟨result, after, houtcome⟩ := h state
  exact ⟨result, .done, after, trivial, fun log => by rw [houtcome, Log.write_done]⟩

/-- A value is answered without logging anything. -/
theorem pure {value : α} : (pure value : Step σ α).Traces allowed :=
  silent fun state => ⟨.ok value, state, fun _ => rfl⟩

theorem throw {error : GenError} : (throw error : Step σ α).Traces allowed :=
  silent fun state => ⟨.error error, state, fun _ => rfl⟩

/-- A refusal by itself logs nothing. -/
theorem refuse {message : String} : (Step.refuse message : Step σ α).Traces allowed := throw

theorem defect {message : String} : (Step.defect message : Step σ α).Traces allowed := throw

theorem record {level : LogLevel} {text : String} (h : allowed level text) :
    (Step.record level text : Step σ Unit).Traces allowed := fun state =>
  ⟨.ok (), .message level text .done, state, ⟨h, trivial⟩, fun log => by
    rw [outcome_record, Log.write_message]⟩

theorem state : (Step.state : Step σ σ).Traces allowed :=
  silent fun state => ⟨.ok state, state, fun _ => rfl⟩

/-- A change of the state logs nothing. -/
theorem onState {change : σ → σ} : (Step.onState change).Traces allowed :=
  silent fun state => ⟨.ok (), change state, fun _ => rfl⟩

/-- A result that was computed before logs nothing. -/
theorem liftExcept {result : Except GenError α} :
    (liftExcept result : Step σ α).Traces allowed := by
  cases result with
  | error error => exact throw
  | ok value => exact pure

/-! ### Steps put together -/

/-- The second step goes on from the log that the first one left, which differs from the log before
by a trace that is the same for all logs. -/
theorem bind {step : Step σ α} {next : α → Step σ β} (h : step.Traces allowed)
    (hnext : ∀ value, (next value).Traces allowed) : (step >>= next).Traces allowed := by
  intro state
  obtain ⟨result, first, reached, hall, hfirst⟩ := h state
  cases result with
  | error error =>
    refine ⟨.error error, first, reached, hall, fun log => ?_⟩
    rw [outcome_bind, hfirst]
  | ok value =>
    obtain ⟨result, second, after, hrest, hsecond⟩ := hnext value reached
    refine ⟨result, first.append second, after, Trace.all_append.2 ⟨hall, hrest⟩, fun log => ?_⟩
    rw [outcome_bind, hfirst, Log.write_append]
    exact hsecond (log.write first)

/-- A message that is logged on the way. -/
theorem logged {level : LogLevel} {text : String} {rest : Step σ β} (htext : allowed level text)
    (h : rest.Traces allowed) : (Step.record level text >>= fun _ => rest).Traces allowed :=
  (record htext).bind fun _ => h

/-- What is made of the answer logs nothing further. -/
theorem map {step : Step σ α} {f : α → β} (h : step.Traces allowed) :
    (f <$> step).Traces allowed := by
  rw [map_eq_pure_bind]
  exact h.bind fun _ => pure

theorem discard {step : Step σ α} (h : step.Traces allowed) : (discard step).Traces allowed := h.map

/-- Nothing behind a failure is carried out. -/
theorem stopped {error : GenError} {next : α → Step σ β} :
    ((MonadExcept.throw error : Step σ α) >>= next).Traces allowed :=
  silent fun state => ⟨.error error, state, fun _ => rfl⟩

/-- A check that stops some runs, and what follows it. -/
theorem guarded {c : Prop} [Decidable c] {stop : Step σ Unit} {next : Unit → Step σ α}
    (hstop : stop.Traces allowed) (h : (next ()).Traces allowed) :
    (if c then stop >>= next else next ()).Traces allowed := by
  split
  · exact hstop.bind fun _ => h
  · exact h

/-- The scope is closed whatever its body comes to, so what is logged in it becomes one scope of the
trace. -/
theorem inScope {name : String} {body : Step σ α} (h : body.Traces allowed) :
    (Step.inScope name body).Traces allowed := by
  intro state
  obtain ⟨result, inner, after, hall, hbody⟩ := h state
  refine ⟨result, .scope name inner .done, after, ⟨hall, trivial⟩, fun log => ?_⟩
  rw [outcome_inScope, hbody, Log.write_scope]

/-- A step that carries out another one in a part of its state, and goes by nothing but what this
one comes to. -/
theorem within {step : Step σ α} {whole : Step τ β} (h : step.Traces allowed) (part : τ → σ)
    (finish : τ → Except GenError α → σ → Except GenError β × τ)
    (houtcome : ∀ log state, whole.outcome log state =
      let reached := step.outcome log (part state)
      let finished := finish state reached.1.result reached.2
      (⟨finished.1, reached.1.log⟩, finished.2)) : whole.Traces allowed := by
  intro state
  obtain ⟨result, trace, after, hall, hstep⟩ := h (part state)
  refine ⟨(finish state result after).1, trace, (finish state result after).2, hall, fun log => ?_⟩
  rw [houtcome, hstep]

theorem onFst {step : Step σ α} (h : step.Traces allowed) :
    (step.onFst : Step (σ × τ) α).Traces allowed :=
  h.within Prod.fst (fun state result after => (result, after, state.2)) fun _ _ => rfl

theorem onSnd {step : Step τ α} (h : step.Traces allowed) :
    (step.onSnd : Step (σ × τ) α).Traces allowed :=
  h.within Prod.snd (fun state result after => (result, state.1, after)) fun _ _ => rfl

/-! ### A step for each item -/

/-- The traces of the items follow each other. -/
theorem mapM {f : α → Step σ β} {items : List α} (h : ∀ item ∈ items, (f item).Traces allowed) :
    (items.mapM f).Traces allowed := by
  induction items with
  | nil => exact pure
  | cons item rest ih =>
    obtain ⟨hitem, hrest⟩ := List.forall_mem_cons.1 h
    rw [List.mapM_cons]
    exact hitem.bind fun _ => (ih hrest).bind fun _ => pure

theorem forM {f : α → Step σ Unit} {items : List α} (h : ∀ item ∈ items, (f item).Traces allowed) :
    (items.forM f).Traces allowed := by
  induction items with
  | nil => exact pure
  | cons item rest ih =>
    obtain ⟨hitem, hrest⟩ := List.forall_mem_cons.1 h
    exact hitem.bind fun _ => ih hrest

theorem foldlM {f : β → α → Step σ β} {items : List α} {start : β}
    (h : ∀ value item, (f value item).Traces allowed) : (items.foldlM f start).Traces allowed := by
  induction items generalizing start with
  | nil => exact pure
  | cons item rest ih =>
    rw [List.foldlM_cons]
    exact (h start item).bind fun _ => ih

end Traces

end Step

/-- A text that is read is noted, whether it is refused or not. -/
theorem Source.Grammar.read_traces {σ α : Type} {allowed : LogLevel → String → Prop}
    {grammar : Grammar α} {text : String} (h : allowed .debug (grammar.note text)) :
    (grammar.read text : Step σ α).Traces allowed := by
  unfold read
  refine Step.Traces.logged h ?_
  split
  · exact .pure
  · exact .refuse

/-! ## Instructions -/

namespace Session

variable {σ α : Type} {allowed : LogLevel → String → Prop}

theorem onHandler_traces {step : Step σ α} (h : step.Traces allowed) :
    (onHandler step).Traces allowed :=
  h.within Session.handler (fun state result after => (result, ⟨after, state.collected⟩))
    fun _ _ => rfl

theorem collect_traces (change : Codegen → Codegen) :
    (collect change : Step (Session σ) Unit).Traces allowed := .onState

/-- A run in a session of its own begins with the same session each time. -/
theorem whole_traces {τ : Type} {start : σ} {step : Step (Session σ) α} (h : step.Traces allowed) :
    (whole start step : Step τ (α × Codegen)).Traces allowed :=
  h.within (fun _ => Session.start start)
    (fun state result after => (result.map (·, after.collected), state)) fun _ _ => rfl

end Session

namespace Handler

variable {V W : Vocabulary} {Vs : List Vocabulary}

/-- Every instruction of a handler logs a trace of messages that it is allowed. -/
def Traces (allowed : V.Term → LogLevel → String → Prop) (handler : Handler V) : Prop :=
  ∀ term, (handler.handle term).Traces (allowed term)

namespace Traces

theorem forEmpty {allowed : Vocabulary.empty.Term → LogLevel → String → Prop} :
    Handler.forEmpty.Traces allowed := nofun

/-- An instruction of a sum may log what it may log in its half. -/
theorem both {first : Handler V} {second : Handler W}
    {allowed : (V.sum W).Term → LogLevel → String → Prop}
    (hfirst : first.Traces fun term => allowed (.inl term))
    (hsecond : second.Traces fun term => allowed (.inr term)) : (first.both second).Traces allowed
  | .inl term => (hfirst term).onFst.map
  | .inr term => (hsecond term).onSnd.map

theorem dispatch {handler : Handler V} {allowed : V.Term → LogLevel → String → Prop}
    (h : handler.Traces allowed) (term : V.Term) : (handler.dispatch term).Traces (allowed term) :=
  (Session.onHandler_traces (h term)).bind fun _ =>
    (Session.collect_traces _).bind fun _ => .pure

/-- Carrying out an instruction logs what the handler logs, also where the answer is a stray one. -/
theorem exec {handler : Handler (.all Vs)}
    {allowed : (Vocabulary.all Vs).Term → LogLevel → String → Prop} (h : handler.Traces allowed)
    (member : Member V Vs) (term : V.Term) :
    (handler.exec member term).Traces (allowed (member.inject term)) := by
  apply (h.dispatch (member.inject term)).bind
  intro answer
  split
  · exact .pure
  · exact .defect

end Traces

end Handler

end Stubwright
