import Stubwright.Source.SyntaxError

/-!
# Parsers

A parser reads tokens from the front of a list. It knows no positions: a failure says how many
tokens were left to read where it arose, from which the position in a text is found again.

## Main definitions

* `Parser` — parsers over tokens
* `Parser.many`, `Parser.extend` — repetition, to a list and from a start value
* `Parser.name`, `Parser.qualifiedName` — names
-/

namespace Stubwright.Source

/-- A failure of a parser: the fault, and the number of tokens left where it arose. -/
structure ParseFailure where
  fault : SyntaxFault
  remaining : Nat
deriving DecidableEq

/-- A parser over tokens. -/
abbrev Parser := StateT (List Token) (Except ParseFailure)

namespace Parser

variable {α β : Type}

/-- Fails at the next token. -/
def fail (fault : SyntaxFault) : Parser α := fun ts => .error ⟨fault, ts.length⟩

/-- Fails where `remaining` tokens were left. -/
def failAt (remaining : Nat) (fault : SyntaxFault) : Parser α := fun _ => .error ⟨fault, remaining⟩

/-- The number of tokens left. -/
def remaining : Parser Nat := fun ts => .ok (ts.length, ts)

/-- The next token, which is not read. -/
def peek : Parser (Option Token) := fun ts => .ok (ts.head?, ts)

/-- The token after the next one; neither is read. -/
def peekSecond : Parser (Option Token) := fun ts => .ok (ts[1]?, ts)

/-- Reads one token. -/
def skip : Parser Unit := fun ts => .ok ((), ts.drop 1)

/-- Fails because something else was expected. -/
def unexpected (what : String) : Parser α := fun ts =>
  .error ⟨.expected what ts.head?, ts.length⟩

/-- Reads a given token if it is next, and says whether it was. -/
def take? (token : Token) : Parser Bool := fun ts =>
  match ts with
  | [] => .ok (false, ts)
  | t :: rest => if t = token then .ok (true, rest) else .ok (false, ts)

/-- Reads a symbol if it is next. -/
def symbol? (s : Symbol) : Parser Bool := take? (.symbol s)

/-- Reads a word if it is next. -/
def word? (text : String) : Parser Bool := take? (.word text)

/-- Reads a symbol, or fails with what was expected. -/
def expect (s : Symbol) (what : String) : Parser Unit := do
  if ← symbol? s then pure () else unexpected what

/-- Whether a symbol is next. -/
def atSymbol (s : Symbol) : Parser Bool := do return (← peek) = some (.symbol s)

/-- Repeats a step while it answers a value, at most `rounds` times. -/
def manyUpTo (item : Parser (Option α)) : Nat → Parser (List α)
  | 0 => pure []
  | rounds + 1 => do
    match ← item with
    | none => pure []
    | some value => return value :: (← manyUpTo item rounds)

/-- Repeats a step while it answers a value. Every step that answers one reads a token, so one
round more than there are tokens is enough. -/
def many (item : Parser (Option α)) : Parser (List α) := fun ts =>
  manyUpTo item (ts.length + 1) ts

/-- Extends a value while the step answers a new one, at most `rounds` times. -/
def extendUpTo (step : α → Parser (Option α)) : Nat → α → Parser α
  | 0, value => pure value
  | rounds + 1, value => do
    match ← step value with
    | none => pure value
    | some next => extendUpTo step rounds next

/-- Extends a value while the step answers a new one. Every step that answers one reads a token,
so one round more than there are tokens is enough. -/
def extend (step : α → Parser (Option α)) (value : α) : Parser α := fun ts =>
  extendUpTo step (ts.length + 1) value ts

/-- Items with commas between them, at least one. -/
def commaSeparated (item : Parser α) : Parser (List α) := do
  let first ← item
  let rest ← many do
    if ← symbol? .comma then some <$> item else pure none
  return first :: rest

/-- Items with commas between them up to a closing symbol; the opening symbol was read. -/
def upTo (close : Symbol) (what : String) (item : Parser α) : Parser (List α) := do
  if ← symbol? close then pure []
  else
    let items ← commaSeparated item
    expect close what
    return items

/-- A simple name. -/
def name : Parser Name := do
  match ← peek with
  | some (.word text) =>
    if h : IsName text then
      skip
      return ⟨text, h⟩
    else if Naming.isReserved text then fail (.reservedWord text)
    else unexpected "identifier"
  | _ => unexpected "identifier"

/-- A dot and the name after it, when a word follows the dot. -/
def dotName? : Parser (Option Name) := do
  match ← peek, ← peekSecond with
  | some (.symbol .dot), some (.word _) =>
    skip
    some <$> name
  | _, _ => pure none

/-- Names with dots between them. -/
def qualifiedName : Parser QualifiedName := do
  let first ← name
  let rest ← many dotName?
  return .ofSegments first rest

end Parser

end Stubwright.Source
