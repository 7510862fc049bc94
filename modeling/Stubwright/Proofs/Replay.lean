import Stubwright.Proofs.Scopes

/-!
# Replaying a log

A log tells the open scopes twice: in the scopes that it keeps, and in the markers among its
entries. Whatever is done to a log that starts empty, the two agree, and so does the path of each
entry with the markers before it. This holds as well where more scopes are closed than were opened,
since such a closing leaves no marker.

What an operation leaves in a log depends on the open scopes alone. A branch that starts in the same
scopes is therefore as good as the log itself, and can be put behind it later.

## Main definitions

* `LogOp` — what is done to a log: a scope is opened or closed, or a message is recorded
* `LogOp.entry`, `LogOp.entries` — what operations leave in a log within the open scopes
* `Log.run` — operations carried out on a log, one after another

## Main results

* `Log.apply_eq`, `Log.run_eq` — one operation and a run of them, by the entries that they leave
* `LogOp.map_path_entries` — the paths that operations note are told by the markers
* `Log.run_replays` — a log beside the replay of its markers, and a branch beside its log
-/

namespace Stubwright

/-! ## Operations -/

/-- What is done to a log. -/
inductive LogOp where
  | push (name : String)
  | pop
  | record (level : LogLevel) (text : String)
deriving DecidableEq, Repr

namespace LogOp

/-- The entry that an operation leaves, when `scopes` are open. With no open scope there is nothing
to close, and the entry is a warning instead of a marker. -/
def entry (scopes : List String) : LogOp → LogEntry
  | push name => ⟨.debug, scopes ++ [name], .push⟩
  | pop => if scopes = [] then ⟨.warning, [], .message Log.unbalancedPop⟩ else ⟨.debug, scopes, .pop⟩
  | record level text => ⟨level, scopes, .message text⟩

/-- The entries that operations leave one after another. Each of them is carried out in the scopes
that are open behind the entry before it. -/
def entries (scopes : List String) : List LogOp → List LogEntry
  | [] => []
  | op :: rest =>
    let left := op.entry scopes
    left :: entries (left.openBehind scopes) rest

/-- The path of an entry is that of the scopes around it. -/
theorem path_entry (scopes : List String) (op : LogOp) :
    (op.entry scopes).path = (op.entry scopes).enclosing scopes := by
  cases op with
  | push name => simp [entry, LogEntry.enclosing, LogEntry.text]
  | pop =>
    by_cases h : scopes = []
    · simp [entry, h, LogEntry.enclosing]
    · simp [entry, h, LogEntry.enclosing]
  | record level text => rfl

/-- The paths of the entries tell nothing but the scopes around them and their own markers. -/
theorem map_path_entries (scopes : List String) (ops : List LogOp) :
    (entries scopes ops).map (·.path) = scopePaths scopes (entries scopes ops) := by
  induction ops generalizing scopes with
  | nil => rfl
  | cons op rest ih => exact congrArg₂ List.cons (op.path_entry scopes) (ih _)

end LogOp

namespace Log

/-- A log after one operation. -/
def apply (log : Log) : LogOp → Log
  | .push name => log.push name
  | .pop => log.pop
  | .record level text => log.record level text

/-- A log after operations that are carried out one after another. -/
def run (log : Log) (ops : List LogOp) : Log := ops.foldl apply log

/-- An operation adds one entry, and changes the open scopes as this entry says. -/
theorem apply_eq (log : Log) (op : LogOp) :
    log.apply op =
      ⟨log.entries.push (op.entry log.scope), (op.entry log.scope).openBehind log.scope⟩ := by
  cases op with
  | push name => simp [apply, push, LogOp.entry, LogEntry.openBehind, LogEntry.text]
  | pop =>
    rcases List.eq_nil_or_concat' log.scope with h | ⟨outer, name, h⟩
    · rw [apply, pop_of_scope_eq_nil h]
      simp [record, add, LogOp.entry, h, LogEntry.openBehind]
    · rw [apply, pop_of_scope_eq h]
      simp [LogOp.entry, h, LogEntry.openBehind]
  | record level text => rfl

/-- Operations add the entries that they leave in the open scopes, and nothing else of the log
matters to them. -/
theorem run_eq (log : Log) (ops : List LogOp) :
    log.run ops = ⟨log.entries ++ (LogOp.entries log.scope ops).toArray,
      openScopes log.scope (LogOp.entries log.scope ops)⟩ := by
  induction ops generalizing log with
  | nil => simp [run, LogOp.entries]
  | cons op rest ih =>
    change (log.apply op).run rest = _
    rw [ih, apply_eq]
    simp [LogOp.entries]

/-- Operations on a branch of a log, put behind it, are operations on the log. -/
theorem append_run_fork (log : Log) (ops : List LogOp) : log ++ log.fork.run ops = log.run ops := by
  rw [run_eq, run_eq]
  change append log _ = _
  simp [append, fork]

/-- Operations on an empty log leave their entries, of which the markers tell everything about
scopes: a replay of the markers before an entry gives the path of the entry, and a replay of all
markers gives the open scopes. Where no scope is open, closing one adds a warning and no marker.
Carried out on a branch of any log, the operations leave what they leave in this log itself, once
the branch is put behind it. -/
theorem run_replays (ops : List LogOp) :
    let log := (∅ : Log).run ops
    let entries := log.entries.toList
    entries = LogOp.entries [] ops ∧
      entries.map (·.path) = scopePaths [] entries ∧
      log.scope = openScopes [] entries ∧
      (log.scope = [] →
        log.pop = ⟨log.entries.push ⟨.warning, [], .message unbalancedPop⟩, []⟩) ∧
      ∀ base : Log, base ++ base.fork.run ops = base.run ops := by
  have hrun : (∅ : Log).run ops =
      ⟨(LogOp.entries [] ops).toArray, openScopes [] (LogOp.entries [] ops)⟩ := by
    rw [run_eq]
    simp [EmptyCollection.emptyCollection, empty]
  refine ⟨by rw [hrun], ?_, by rw [hrun], fun hscope => ?_, fun base => base.append_run_fork ops⟩
  · rw [hrun]
    exact LogOp.map_path_entries [] ops
  · rw [pop_of_scope_eq_nil hscope, record, hscope, add, hscope]

/-- A scope that is closed twice, alone and inside of another scope. -/
theorem run_replays_closedTwice :
    let ops : List LogOp := [.push "pet", .record .info "read", .pop, .pop]
    let log := (∅ : Log).run ops
    let outer := (∅ : Log).push "run"
    log.entries.toList.map (·.path) = [["pet"], ["pet"], ["pet"], []] ∧
      (log.scope = [] ∧
        log.pop = ⟨log.entries.push ⟨.warning, [], .message unbalancedPop⟩, []⟩) ∧
      outer ++ outer.fork.run ops = outer.run ops := by
  intro ops log outer
  obtain ⟨-, hpaths, -, hpop, hbranch⟩ := run_replays ops
  have hscope : log.scope = [] := by decide
  exact ⟨hpaths.trans (by decide), ⟨hscope, hpop hscope⟩, hbranch outer⟩

end Log

end Stubwright
