/-!
# Diagnostics logs

A log is a sequence of entries together with the scopes that are open. Opening and closing a
scope leave a marker entry, and every entry holds the path of scopes around it, so a log can be
cut anywhere and still be read.

## Main definitions

* `LogLevel` — the severity of an entry, ordered from `debug` to `error`
* `LogEntry` — a marker or a message, with its level and its scope path
* `Log.push`, `Log.pop`, `Log.record` — the three ways a log grows
* `Log.fork`, `Log.append` — a branch that starts in the open scopes, and joining it back
* `Log.render` — the entries from a level upward, indented by scope depth
-/

namespace Stubwright

/-! ## Levels -/

/-- The severity of a log entry. -/
inductive LogLevel where
  | debug
  | info
  | warning
  | error
deriving DecidableEq, Repr

namespace LogLevel

/-- The place of a level in the order of severity. -/
def rank : LogLevel → Nat
  | debug => 0
  | info => 1
  | warning => 2
  | error => 3

instance : LE LogLevel := ⟨fun a b => a.rank ≤ b.rank⟩

instance (a b : LogLevel) : Decidable (a ≤ b) := inferInstanceAs (Decidable (a.rank ≤ b.rank))

/-- The level as it is written in a rendered log. -/
def label : LogLevel → String
  | debug => "DEBUG"
  | info => "INFO"
  | warning => "WARNING"
  | error => "ERROR"

instance : ToString LogLevel := ⟨label⟩

/-- The level in lower case, as configuration files spell it. -/
def keyword : LogLevel → String
  | debug => "debug"
  | info => "info"
  | warning => "warning"
  | error => "error"

/-- The label filled up with spaces to the width of the longest one. -/
def column (level : LogLevel) : String :=
  level.label.pushn ' ' (7 - level.label.length)

/-- Reads a level, whatever the case of its ASCII letters. A level that is not known is answered
by the lower-cased text. -/
def parse (text : String) : Except String LogLevel :=
  let lower := text.map Char.toLower
  if lower = "debug" then .ok debug
  else if lower = "info" then .ok info
  else if lower = "warning" ∨ lower = "warn" then .ok warning
  else if lower = "error" then .ok error
  else .error lower

/-- What is said of a text that is no level. -/
def unknownMessage (lower : String) : String :=
  s!"unknown log level '{lower}'; expected debug, info, warning or error"

end LogLevel

/-! ## Entries -/

/-- What a log entry records: that a scope was opened, that it was closed, or a message. -/
inductive LogEvent where
  | push
  | pop
  | message (text : String)
deriving DecidableEq, Repr

/-- One entry of a log. The path lists the enclosing scopes, outermost first; the path of a marker
ends with the scope that it opens or closes. -/
structure LogEntry where
  level : LogLevel
  path : List String
  event : LogEvent
deriving DecidableEq, Repr

namespace LogEntry

/-- The text of a message, or the name of the scope that a marker opens or closes. -/
def text (entry : LogEntry) : String :=
  match entry.event with
  | .message text => text
  | .push | .pop => entry.path.getLast?.getD ""

/-- Whether the entry opens or closes a scope. -/
def isMarker (entry : LogEntry) : Bool :=
  match entry.event with
  | .message _ => false
  | .push | .pop => true

end LogEntry

/-! ## Logs -/

/-- A diagnostics log: its entries in order, and the names of the open scopes, outermost first. -/
structure Log where
  entries : Array LogEntry
  scope : List String
deriving DecidableEq, Repr

namespace Log

/-- The log without entries and without open scopes. -/
def empty : Log := ⟨#[], []⟩

instance : EmptyCollection Log := ⟨empty⟩

instance : Inhabited Log := ⟨empty⟩

/-- Adds an entry and leaves the open scopes as they are. -/
def add (log : Log) (entry : LogEntry) : Log :=
  { log with entries := log.entries.push entry }

/-- Adds a message in the current scope. -/
def record (log : Log) (level : LogLevel) (text : String) : Log :=
  log.add ⟨level, log.scope, .message text⟩

/-- Opens a scope inside the current one. -/
def push (log : Log) (name : String) : Log :=
  let path := log.scope ++ [name]
  { entries := log.entries.push ⟨.debug, path, .push⟩, scope := path }

/-- Closes the innermost scope. With no open scope this is a warning and leaves no marker. -/
def pop (log : Log) : Log :=
  match log.scope with
  | [] => log.record .warning "unbalanced pop: no scope is open"
  | path@(_ :: _) =>
    { entries := log.entries.push ⟨.debug, path, .pop⟩, scope := path.dropLast }

/-- An independent branch: no entries, and the same open scopes. -/
def fork (log : Log) : Log := { log with entries := #[] }

/-- Puts `branch` after `log` and goes on from the scopes open in `branch`. -/
def append (log branch : Log) : Log :=
  { entries := log.entries ++ branch.entries, scope := branch.scope }

instance : Append Log := ⟨append⟩

/-- The number of entries. -/
def size (log : Log) : Nat := log.entries.size

/-- Two spaces for each of `depth` scopes. -/
def margin (depth : Nat) : String := "".pushn ' ' (2 * depth)

/-- The line of an entry in a rendered log. A scope is shown where it opens, at every level, so
that the messages inside keep their context; a message is shown from `least` upward. -/
def line (least : LogLevel) (entry : LogEntry) : String :=
  match entry.event with
  | .push => margin (entry.path.length - 1) ++ entry.text ++ "\n"
  | .pop => ""
  | .message text =>
    if least ≤ entry.level then
      margin entry.path.length ++ entry.level.column ++ " " ++ text ++ "\n"
    else ""

/-- The entries at level `least` and above, indented by scope depth. -/
def render (log : Log) (least : LogLevel) : String :=
  String.join (log.entries.toList.map (line least))

end Log

end Stubwright
