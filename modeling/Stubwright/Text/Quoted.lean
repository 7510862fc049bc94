import Stubwright.Text.Classes
import Stubwright.Text.Invisible

/-!
# Text literals

How a text is written between double quotes, so that it stays on one line and reads back.

## Main definitions

* `escapeChar` — a character inside a text literal
* `quote` — a text literal
* `display` — a text as diagnostics show it
-/

namespace Stubwright.Text

/-- A character inside a text literal. Both marks that would end or change the literal are escaped,
and so is every control character: a text literal stays on its line. -/
def escapeChar (c : Char) : List Char :=
  if c = '"' then ['\\', '"']
  else if c = '\\' then ['\\', '\\']
  else if c = '\n' then ['\\', 'n']
  else if c = '\t' then ['\\', 't']
  else if c = '\r' then ['\\', 'r']
  else if c = '\x08' then ['\\', 'b']
  else if c = '\x0c' then ['\\', 'f']
  else if isControl c then
    ['\\', 'u', '0', '0', hexDigit (c.toNat / 16), hexDigit (c.toNat % 16)]
  else [c]

/-- A text literal with this value. -/
def quote (value : String) : String :=
  String.ofList ('"' :: value.toList.flatMap escapeChar ++ ['"'])

/-! ## Diagnostics -/

/-- Whether a character shows by itself. -/
def isVisible (c : Char) : Bool :=
  !isControl c && !isInvisible c

/-- A character in a text that diagnostics show: one that does not show by itself is given by its
code. -/
def displayChar (c : Char) : List Char :=
  if c = '"' then ['\\', '"']
  else if c = '\\' then ['\\', '\\']
  else if c = '\n' then ['\\', 'n']
  else if c = '\t' then ['\\', 't']
  else if c = '\r' then ['\\', 'r']
  else if c = '\x00' then ['\\', '0']
  else if isVisible c then [c]
  else ['\\', 'u', '\x7b'] ++ Nat.toDigits 16 c.toNat ++ ['\x7d']

/-- A text between double quotes as diagnostics show it. -/
def display (value : String) : String :=
  String.ofList ('"' :: value.toList.flatMap displayChar ++ ['"'])

end Stubwright.Text

