import Stubwright.GenError

/-!
# Version requirements

A requirement is a list of comparators, all of which a version has to satisfy, as semantic
versioning and its usual tools define them. A version here is a release; a comparator may name a
pre-release, which comes before the release with the same numbers.

## Main definitions

* `Version`, `Comparator` — releases and the conditions on them
* `Requirement.parse?` — reads a requirement
* `Requirement.admits` — whether a release satisfies it
* `checkRequirement` — the check of a description against this generator
-/

namespace Stubwright

/-- The numbers of a release. -/
structure Version where
  major : Nat
  minor : Nat
  patch : Nat
deriving DecidableEq, Repr

/-- The numbers with dots between them. -/
def Version.text (v : Version) : String := s!"{v.major}.{v.minor}.{v.patch}"

/-- The operator of a comparator. A comparator with a wildcard and no operator asks for the numbers
before the wildcard. -/
inductive VersionOp where
  | exact
  | greater
  | greaterEq
  | less
  | lessEq
  | tilde
  | caret
  | wildcard
deriving DecidableEq, Repr

/-- A condition on a version. The numbers behind a missing one are missing as well. -/
structure Comparator where
  op : VersionOp
  major : Nat
  minor : Option Nat
  patch : Option Nat
  isPrerelease : Bool
deriving DecidableEq, Repr

/-- The comparators of a requirement; none of them admits every version. -/
abbrev Requirement := List Comparator

/-! ## When a release satisfies a comparator -/

namespace Comparator

/-- The release has the numbers that are given. -/
def isExact (c : Comparator) (v : Version) : Bool :=
  v.major == c.major && c.minor.all (v.minor == ·) && c.patch.all (v.patch == ·)
    && !c.isPrerelease

/-- The release comes after everything with the numbers that are given. -/
def isGreater (c : Comparator) (v : Version) : Bool :=
  if v.major ≠ c.major then v.major > c.major
  else match c.minor with
    | none => false
    | some minor =>
      if v.minor ≠ minor then v.minor > minor
      else match c.patch with
        | none => false
        | some patch => if v.patch ≠ patch then v.patch > patch else c.isPrerelease

/-- The release comes before everything with the numbers that are given. -/
def isLess (c : Comparator) (v : Version) : Bool :=
  if v.major ≠ c.major then v.major < c.major
  else match c.minor with
    | none => false
    | some minor =>
      if v.minor ≠ minor then v.minor < minor
      else match c.patch with
        | none => false
        | some patch => v.patch < patch

/-- The release differs at most in its patch number, which is not smaller. -/
def isTilde (c : Comparator) (v : Version) : Bool :=
  v.major == c.major && c.minor.all (v.minor == ·) && c.patch.all (· ≤ v.patch)

/-- The release is compatible: it has the same first number that is not zero, and no number behind
it makes the release smaller. -/
def isCaret (c : Comparator) (v : Version) : Bool :=
  v.major == c.major && match c.minor, c.patch with
    | none, _ => true
    | some minor, none => if c.major > 0 then v.minor ≥ minor else v.minor == minor
    | some minor, some patch =>
      if c.major > 0 then v.minor > minor || (v.minor == minor && v.patch ≥ patch)
      else if minor > 0 then v.minor == minor && v.patch ≥ patch
      else v.minor == minor && v.patch == patch

/-- Whether a release satisfies a comparator. -/
def admits (c : Comparator) (v : Version) : Bool :=
  match c.op with
  | .exact | .wildcard => c.isExact v
  | .greater => c.isGreater v
  | .greaterEq => c.isExact v || c.isGreater v
  | .less => c.isLess v
  | .lessEq => c.isExact v || c.isLess v
  | .tilde => c.isTilde v
  | .caret => c.isCaret v

end Comparator

namespace Requirement

/-- Whether a release satisfies a requirement. -/
def admits (requirement : Requirement) (v : Version) : Bool :=
  requirement.all (·.admits v)

/-! ## Reading a requirement -/

/-- Version numbers are smaller than this, as they fit into 64 bits. -/
def numberLimit : Nat := 0x10000000000000000

/-- A requirement has at most this many comparators. -/
def comparatorLimit : Nat := 32

/-- A text without the spaces it begins with. -/
def skipSpaces (cs : List Char) : List Char := cs.dropWhile (· = ' ')

/-- A wildcard at the front. -/
def wildcard? : List Char → Option (List Char)
  | '*' :: rest | 'x' :: rest | 'X' :: rest => some rest
  | _ => none

/-- A number at the front, without leading zeros. -/
def number? (cs : List Char) : Option (Nat × List Char) :=
  let digits := cs.takeWhile Char.isDigit
  let value := Nat.ofDigitChars 10 digits 0
  if digits = [] ∨ (digits.length > 1 ∧ digits.head? = some '0') ∨ numberLimit ≤ value then none
  else some (value, cs.dropWhile Char.isDigit)

/-- The operator at the front, if one is written. -/
def op? : List Char → Option (VersionOp × List Char)
  | '=' :: rest => some (.exact, rest)
  | '>' :: '=' :: rest => some (.greaterEq, rest)
  | '>' :: rest => some (.greater, rest)
  | '<' :: '=' :: rest => some (.lessEq, rest)
  | '<' :: rest => some (.less, rest)
  | '~' :: rest => some (.tilde, rest)
  | '^' :: rest => some (.caret, rest)
  | _ => none

/-- One number of a comparator after its dot: a number or a wildcard, or nothing without a dot. -/
inductive Part where
  | missing
  | wildcard
  | number (value : Nat)
deriving DecidableEq, Repr

/-- The number that a part gives. -/
def Part.value? : Part → Option Nat
  | missing | wildcard => none
  | number value => some value

/-- The part at the front. -/
def part? : List Char → Option (Part × List Char)
  | '.' :: rest =>
    match wildcard? rest with
    | some after => some (.wildcard, after)
    | none => (number? rest).map fun (value, after) => (.number value, after)
  | rest => some (.missing, rest)

/-- A character of a pre-release or build name. -/
def isLabelChar (c : Char) : Bool := c.isAlphanum || c == '-' || c == '.'

/-- A text cut at its dots. -/
def segments : List Char → List (List Char)
  | [] => [[]]
  | '.' :: rest => [] :: segments rest
  | c :: rest =>
    match segments rest with
    | first :: others => (c :: first) :: others
    | [] => [[c]]

/-- Whether a segment of a pre-release or build name is well formed. A number in the name of a
pre-release has no leading zeros. -/
def isSegment (inPrerelease : Bool) (segment : List Char) : Bool :=
  segment ≠ [] && !(inPrerelease && segment.all Char.isDigit && segment.length > 1
    && segment.head? == some '0')

/-- What follows the name of a pre-release or build after its mark, when the mark is next. The
first component says whether it was. -/
def label? (mark : Char) (inPrerelease : Bool) (cs : List Char) :
    Option (Bool × List Char) :=
  match cs with
  | [] => some (false, [])
  | c :: rest =>
    if c ≠ mark then some (false, cs)
    else if (segments (rest.takeWhile isLabelChar)).all (isSegment inPrerelease) then
      some (true, rest.dropWhile isLabelChar)
    else none

/-- A comparator at the front, and what follows it and its spaces. -/
def comparator? (cs : List Char) : Option (Comparator × List Char) := do
  let (op, rest) := (op? cs).getD (.caret, cs)
  let (major, rest) ← number? (skipSpaces rest)
  let (minor, rest) ← part? rest
  let (patch, rest) ← part? rest
  -- Behind a wildcard nothing but a wildcard may stand.
  if minor = .wildcard ∧ patch.value?.isSome then none
  let (isPrerelease, rest) ←
    if patch.value?.isSome then label? '-' true rest else some (false, rest)
  let (_, rest) ← if patch.value?.isSome then label? '+' false rest else some (false, rest)
  let isOpen := minor = .wildcard ∨ patch = .wildcard
  let op := if (op? cs).isNone ∧ isOpen then .wildcard else op
  return (⟨op, major, minor.value?, patch.value?, isPrerelease⟩, skipSpaces rest)

/-- Comparators with commas between them, at most `room` of them. -/
def comparators? : Nat → List Char → Option Requirement
  | 0, _ => none
  | room + 1, cs => do
    let (comparator, rest) ← comparator? cs
    match rest with
    | [] => return [comparator]
    | ',' :: rest => return comparator :: (← comparators? room (skipSpaces rest))
    | _ => none

/-- Reads a requirement. A wildcard on its own admits every version. -/
def parse? (text : String) : Option Requirement :=
  let cs := skipSpaces text.toList
  match wildcard? cs with
  | some rest => if skipSpaces rest = [] then some [] else none
  | none => comparators? comparatorLimit cs

end Requirement

/-! ## The version of this generator -/

/-- The version of this generator. -/
def generatorVersion : Version := ⟨0, 2, 0⟩

/-- Checks that this generator satisfies a requirement. -/
def checkRequirement (text : String) : Except GenError Unit :=
  match Requirement.parse? text with
  | none => .error (.user s!"invalid version requirement '{text}'")
  | some requirement =>
    if requirement.admits generatorVersion then .ok ()
    else
      let version := generatorVersion.text
      .error (.user s!"description requires apigen '{text}', but this is apigen {version}")

end Stubwright
