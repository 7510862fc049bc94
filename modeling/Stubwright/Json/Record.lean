import Stubwright.Json.Basic

/-!
# Records in JSON

How the parts of a document are taken from JSON values. A record is an object with named fields, or
the array of its fields in order. A choice is told by a tag among the fields, or at the head of the
array.

## Main definitions

* `Json.record?` — the fields of a record
* `Json.required?`, `Json.defaulted?`, `Json.optional?` — what a field that is missing means
* `Json.keyword?` — one of a closed set of words
* `Json.tagged?` — a choice and its fields
-/

namespace Stubwright.Json

variable {α : Type}

/-! ## Plain values -/

/-- A text. -/
def asText? : Json → Option String
  | string value => value
  | _ => none

/-- A truth value. -/
def asBool? : Json → Option Bool
  | bool value => some value
  | _ => none

/-- A natural number. -/
def asNatural? : Json → Option Nat
  | number value => value.natural?
  | _ => none

/-- A list, each item of which `read` takes. -/
def asList? (read : Json → Option α) : Json → Option (List α)
  | array items => items.mapM read
  | _ => none

/-- One of a closed set of words: as a text, or as the name of the single field of an object, whose
value is null. -/
def keyword? (choices : List α) (spelling : α → String) : Json → Option α
  | string (some text) => choices.find? (spelling · = text)
  | object [(some text, null)] => choices.find? (spelling · = text)
  | _ => none

/-! ## Fields -/

/-- The value of a field of an object, which may be missing but must not repeat. -/
def single? (name : String) (fields : List (Option String × Json)) : Option (Option Json) :=
  match fields.filter (·.1 = some name) with
  | [] => some none
  | [(_, value)] => some (some value)
  | _ :: _ :: _ => none

/-- An object without the fields of a name. -/
def without (name : String) (fields : List (Option String × Json)) :
    List (Option String × Json) := fields.filter (·.1 ≠ some name)

/-- The fields of a record in the order of `names`. An object may have other fields, which are left
out; an array may end early. -/
def record? (names : List String) : Json → Option (List (Option Json))
  | object fields =>
    if fields.all (·.1.isSome) then names.mapM (single? · fields) else none
  | array items =>
    if items.length ≤ names.length then
      some (items.map some ++ List.replicate (names.length - items.length) none)
    else none
  | _ => none

/-- A field that has to be there. -/
def required? (read : Json → Option α) (field : Option Json) : Option α := field.bind read

/-- A field that stands for `fallback` when it is missing. -/
def defaulted? (fallback : α) (read : Json → Option α) : Option Json → Option α
  | none => some fallback
  | some value => read value

/-- A field that may be missing or null. -/
def optional? (read : Json → Option α) : Option Json → Option (Option α)
  | none | some null => some none
  | some value => (read value).map some

/-! ## Choices -/

/-- The variant that a tag names: by its word or, where `allowsIndex`, by its place. -/
def variant? (variants : List String) (allowsIndex : Bool) (tag : Json) : Option String :=
  match tag with
  | string (some word) => variants.find? (· = word)
  | number place => if allowsIndex then place.natural?.bind (variants[·]?) else none
  | _ => none

/-- A choice between variants, and the value without its tag. -/
def tagged? (tag : String) (variants : List String) (allowsIndex : Bool) :
    Json → Option (String × Json)
  | object fields => do
    let value ← (single? tag fields).join
    let variant ← variant? variants allowsIndex value
    return (variant, object (without tag fields))
  | array (first :: rest) => do
    let variant ← variant? variants allowsIndex first
    return (variant, array rest)
  | _ => none

/-- Whether nothing stands where a variant has no fields. An object may have others. -/
def isBare : Json → Bool
  | object _ | array [] => true
  | _ => false

end Stubwright.Json
