import Stubwright.Text.Classes

/-!
# JSON values

A value as a document spells it: fields keep their order and may repeat, numbers keep their digits,
and a text may hold an escape that stands for no character.

## Main definitions

* `Numeral` — a number by its digits
* `Json` — a value
* `Json.isSound` — whether all that a value holds can be represented
-/

namespace Stubwright

/-! ## Numbers -/

/-- A number as it is written: digits before and after the point, and an exponent. -/
structure Numeral where
  isNegative : Bool
  whole : List Char
  fraction : List Char
  exponent : Option Int
deriving DecidableEq, Repr

namespace Numeral

/-- The digits of a number taken together. -/
def significand (n : Numeral) : Nat := Nat.ofDigitChars 10 (n.whole ++ n.fraction) 0

/-- The power of ten that goes with the significand. -/
def scale (n : Numeral) : Int := n.exponent.getD 0 - n.fraction.length

/-- The least number that is too large for a double: it lies half a step above the largest one. -/
def doubleLimit : Nat := Nat.pow 2 1024 - Nat.pow 2 970

/-- The number of digits in front of the point in the doubles next to the limit. -/
def doubleDigits : Int := 309

/-- Whether a number can be rounded to a double. The powers are only taken where the digits in front
of the point do not tell. -/
def isInRange (n : Numeral) : Bool :=
  let digits : Int := (Nat.toDigits 10 n.significand).length + n.scale
  if n.significand = 0 ∨ digits < doubleDigits then true
  else if doubleDigits < digits then false
  else n.significand * Nat.pow 10 n.scale.toNat < doubleLimit * Nat.pow 10 (-n.scale).toNat

/-- The natural number below `2 ^ 64` that is written without a sign, a point or an exponent. -/
def natural? (n : Numeral) : Option Nat :=
  if n.isNegative ∨ n.fraction ≠ [] ∨ n.exponent.isSome ∨ 0x10000000000000000 ≤ n.significand then none
  else some n.significand

end Numeral

/-! ## Values -/

/-- A JSON value. A string is `none` when one of its escapes stands for half a character. -/
inductive Json where
  | null
  | bool (value : Bool)
  | number (value : Numeral)
  | string (value : Option String)
  | array (items : List Json)
  | object (fields : List (Option String × Json))
deriving Repr

namespace Json

instance : Inhabited Json := ⟨null⟩

mutual

/-- Whether a value is made of numbers in range and proper texts, with arrays and objects nested at
most `room` deep. -/
def isSound (room : Nat) : Json → Bool
  | null | bool _ => true
  | number value => value.isInRange
  | string value => value.isSome
  | array items => room ≠ 0 && areSoundItems (room - 1) items
  | object fields => room ≠ 0 && areSoundFields (room - 1) fields

/-- Whether all items of an array are sound. -/
def areSoundItems (room : Nat) : List Json → Bool
  | [] => true
  | item :: rest => isSound room item && areSoundItems room rest

/-- Whether all fields of an object are sound. -/
def areSoundFields (room : Nat) : List (Option String × Json) → Bool
  | [] => true
  | (name, value) :: rest => name.isSome && isSound room value && areSoundFields room rest

end

end Json

end Stubwright
