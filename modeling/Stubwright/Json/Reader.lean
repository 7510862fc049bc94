import Stubwright.Json.Basic

/-!
# Reading JSON

The strict grammar: no comments, no trailing commas, no leading zeros, nothing after the value but
white space.

## Main definitions

* `Json.units?`, `Json.joinUnits?` — a string as code units, and the text that they spell
* `Json.numeral?` — a number
* `Json.parse?` — a whole document
-/

namespace Stubwright.Json

open Text

/-- White space of JSON. -/
def isSpace (c : Char) : Bool := c = ' ' || c = '\t' || c = '\n' || c = '\r'

/-- A text without the white space it begins with. -/
def skipSpace (cs : List Char) : List Char := cs.dropWhile isSpace

/-! ## Strings -/

/-- The character that an escape of one letter stands for. -/
def escaped? : Char → Option Char
  | '"' => some '"'
  | '\\' => some '\\'
  | '/' => some '/'
  | 'b' => some '\x08'
  | 'f' => some '\x0c'
  | 'n' => some '\n'
  | 'r' => some '\r'
  | 't' => some '\t'
  | _ => none

/-- The value of four hexadecimal digits. -/
def codeUnit? (a b c d : Char) : Option Nat :=
  if [a, b, c, d].all isHexDigit then
    some ([a, b, c, d].foldl (fun n digit => 16 * n + hexDigitValue digit) 0)
  else none

/-- The codes in a string up to its closing mark, and what follows it. Control characters have to be
escaped. A code may be that of half a character. -/
def units? : List Char → Option (List Nat × List Char)
  | [] => none
  | '"' :: rest => some ([], rest)
  | '\\' :: 'u' :: a :: b :: c :: d :: rest => do
    let unit ← codeUnit? a b c d
    let (units, after) ← units? rest
    return (unit :: units, after)
  -- An escape with fewer than four digits comes here, where `u` stands for nothing.
  | '\\' :: letter :: rest => do
    let c ← escaped? letter
    let (units, after) ← units? rest
    return (c.toNat :: units, after)
  | c :: rest =>
    if c = '\\' || c.toNat < 0x20 then none
    else do
      let (units, after) ← units? rest
      return (c.toNat :: units, after)

/-- The first half of a character outside the basic plane. -/
def isLeadingHalf (unit : Nat) : Bool := 0xd800 ≤ unit && unit ≤ 0xdbff

/-- The second half of a character outside the basic plane. -/
def isTrailingHalf (unit : Nat) : Bool := 0xdc00 ≤ unit && unit ≤ 0xdfff

/-- The text that codes spell, in which both halves of a character stand together. -/
def joinUnits? : List Nat → Option (List Char)
  | [] => some []
  | [unit] => do return [← charOfCode? unit]
  | unit :: next :: rest =>
    if isLeadingHalf unit && isTrailingHalf next then do
      let c ← charOfCode? (0x10000 + (unit - 0xd800) * 0x400 + (next - 0xdc00))
      return c :: (← joinUnits? rest)
    else do
      let c ← charOfCode? unit
      return c :: (← joinUnits? (next :: rest))

/-- The text of a string whose opening mark was read, and what follows it. -/
def text? (cs : List Char) : Option (Option String × List Char) :=
  (units? cs).map fun (units, rest) => ((joinUnits? units).map String.ofList, rest)

/-! ## Numbers -/

/-- Digits at the front, at least one. -/
def digits? (cs : List Char) : Option (List Char × List Char) :=
  match cs.takeWhile Char.isDigit with
  | [] => none
  | digits => some (digits, cs.dropWhile Char.isDigit)

/-- The digits in front of the point: more than one only when the first is not zero. -/
def whole? (cs : List Char) : Option (List Char × List Char) := do
  let (digits, rest) ← digits? cs
  if digits.head? = some '0' ∧ digits.length ≠ 1 then none
  return (digits, rest)

/-- The digits after the point, if there is one. -/
def fraction? : List Char → Option (List Char × List Char)
  | '.' :: rest => digits? rest
  | rest => some ([], rest)

/-- The exponent, if there is one. -/
def exponent? : List Char → Option (Option Int × List Char)
  | [] => some (none, [])
  | c :: rest =>
    if c ≠ 'e' ∧ c ≠ 'E' then some (none, c :: rest)
    else do
      let (isNegative, rest) := match rest with
        | '-' :: rest => (true, rest)
        | '+' :: rest => (false, rest)
        | rest => (false, rest)
      let (digits, rest) ← digits? rest
      let size : Int := Nat.ofDigitChars 10 digits 0
      return (some (if isNegative then -size else size), rest)

/-- A number at the front. -/
def numeral? (cs : List Char) : Option (Numeral × List Char) := do
  let (isNegative, rest) := match cs with
    | '-' :: rest => (true, rest)
    | rest => (false, rest)
  let (whole, rest) ← whole? rest
  let (fraction, rest) ← fraction? rest
  let (exponent, rest) ← exponent? rest
  return (⟨isNegative, whole, fraction, exponent⟩, rest)

/-! ## Values -/

/-- The word at the front, with the value it stands for. -/
def word? (cs : List Char) : Option (Json × List Char) :=
  let words := [("null".toList, null), ("true".toList, bool true), ("false".toList, bool false)]
  (words.find? fun (word, _) => word.isPrefixOf cs).map fun (word, value) =>
    (value, cs.drop word.length)

mutual

/-- A value at the front, read in at most `fuel` steps. -/
def value? : Nat → List Char → Option (Json × List Char)
  | 0, _ => none
  | fuel + 1, cs =>
    match skipSpace cs with
    | '"' :: rest => (text? rest).map fun (text, rest) => (string text, rest)
    | '[' :: rest =>
      match skipSpace rest with
      | ']' :: rest => some (array [], rest)
      | rest => (items? fuel rest).map fun (items, rest) => (array items, rest)
    | '\x7b' :: rest =>
      match skipSpace rest with
      | '\x7d' :: rest => some (object [], rest)
      | rest => (fields? fuel rest).map fun (fields, rest) => (object fields, rest)
    | rest =>
      match word? rest with
      | some answer => some answer
      | none => (numeral? rest).map fun (value, rest) => (number value, rest)

/-- The items of an array up to its end, at least one. -/
def items? : Nat → List Char → Option (List Json × List Char)
  | 0, _ => none
  | fuel + 1, cs => do
    let (item, rest) ← value? fuel cs
    match skipSpace rest with
    | ']' :: rest => return ([item], rest)
    | ',' :: rest =>
      let (items, rest) ← items? fuel rest
      return (item :: items, rest)
    | _ => none

/-- The fields of an object up to its end, at least one. -/
def fields? : Nat → List Char → Option (List (Option String × Json) × List Char)
  | 0, _ => none
  | fuel + 1, cs => do
    let (name, rest) ← match skipSpace cs with
      | '"' :: rest => text? rest
      | _ => none
    let rest ← match skipSpace rest with
      | ':' :: rest => some rest
      | _ => none
    let (value, rest) ← value? fuel rest
    match skipSpace rest with
    | '\x7d' :: rest => return ([(name, value)], rest)
    | ',' :: rest =>
      let (fields, rest) ← fields? fuel rest
      return ((name, value) :: fields, rest)
    | _ => none

end

/-- Reads a document. Every second step reads a character, so the steps do not run out. -/
def parse? (document : String) : Option Json :=
  let cs := document.toList
  match value? (2 * cs.length + 2) cs with
  | some (value, rest) => if skipSpace rest = [] then some value else none
  | none => none

end Stubwright.Json
