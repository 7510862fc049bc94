import Stubwright.Description
import Stubwright.Source.Decl

/-!
# Routes

An endpoint after its types are resolved and its names are made identifiers.

## Main definitions

* `Route`, `RouteParam` — routes and their parameters
* `PathSegment`, `pathSegments` — a path as literal text and parameters
* `placeholders`, `strayText` — the well-formed placeholders of a path, and the text around them
-/

namespace Stubwright

open Source

/-! ## Paths -/

/-- A part of a path: literal text, or the name between two braces. -/
inductive PathSegment where
  | literal (text : String)
  | param (name : String)
deriving DecidableEq, Repr

/-- Literal text as a segment, unless it is empty. -/
def PathSegment.ofText : List Char → List PathSegment
  | [] => []
  | cs@(_ :: _) => [.literal (String.ofList cs)]

/-- The segments of a path whose last literal text so far, and the name after an open brace, were
read. A brace that is never closed is literal text. -/
def pathSegmentsFrom (literal : List Char) (open? : Option (List Char)) :
    List Char → List PathSegment
  | [] =>
    match open? with
    | none => PathSegment.ofText literal
    | some name => PathSegment.ofText (literal ++ '\x7b' :: name)
  | c :: rest =>
    match open? with
    | none =>
      if c = '\x7b' then pathSegmentsFrom literal (some []) rest
      else pathSegmentsFrom (literal ++ [c]) none rest
    | some name =>
      if c = '\x7d' then
        PathSegment.ofText literal
          ++ .param (String.ofList name) :: pathSegmentsFrom [] none rest
      else pathSegmentsFrom literal (some (name ++ [c])) rest

/-- The segments of a path: what stands between a brace and the next closing one is a parameter,
and the rest is literal text. -/
def pathSegments (path : String) : List PathSegment := pathSegmentsFrom [] none path.toList

/-- A character that may begin the name of a placeholder. -/
def isPlaceholderStart (c : Char) : Bool := c.isAlpha || c == '_'

/-- A character that may stand in the name of a placeholder. -/
def isPlaceholderPart (c : Char) : Bool := c.isAlphanum || c == '_' || c == '-'

/-- The name of the placeholder whose opening brace was read, if it is well formed and closed. -/
def placeholder? (cs : List Char) : Option (List Char) :=
  let name := cs.takeWhile isPlaceholderPart
  if name.head?.any isPlaceholderStart ∧ (cs.dropWhile isPlaceholderPart).head? = some '\x7d' then
    some name
  else none

/-- The placeholders of a path and the text around them, where the first `skip` characters belong
to a placeholder that was read. -/
def scanPlaceholders (skip : Nat) : List Char → List String × List Char
  | [] => ([], [])
  | c :: rest =>
    match skip with
    | skip + 1 => scanPlaceholders skip rest
    | 0 =>
      match if c = '\x7b' then placeholder? rest else none with
      | some name =>
        let (names, stray) := scanPlaceholders (name.length + 1) rest
        (String.ofList name :: names, stray)
      | none =>
        let (names, stray) := scanPlaceholders 0 rest
        (names, c :: stray)

/-- The names of the well-formed placeholders of a path, from the left. -/
def placeholders (path : String) : List String := (scanPlaceholders 0 path.toList).1

/-- The text of a path around its well-formed placeholders. -/
def strayText (path : String) : List Char := (scanPlaceholders 0 path.toList).2

/-! ## Routes -/

/-- A parameter of a route: its name on the wire, its name in Java, where it stands, its type. -/
structure RouteParam where
  name : String
  term : Name
  location : ParamLocation
  type : Ty
deriving DecidableEq

/-- An endpoint with resolved types. The response is the body of the first successful one. -/
structure Route where
  operation : Name
  client : String
  method : HttpMethod
  path : String
  params : List RouteParam
  body : Option Ty
  response : Option Ty
deriving DecidableEq

/-- The segments of the path of a route. -/
def Route.segments (route : Route) : List PathSegment := pathSegments route.path

/-- A route as a client offers it, with the type that its method returns. -/
structure ClientRoute where
  route : Route
  returnType : Ty
deriving DecidableEq

/-- A route as a server offers it: the type that its method returns, the annotations of the method,
and those of each parameter of the route. -/
structure ServerRoute where
  route : Route
  returnType : Ty
  annotations : List AnnotationUse
  paramAnnotations : List (List AnnotationUse)
deriving DecidableEq

/-- A property of a model after its type is resolved. -/
structure ModelField where
  name : String
  term : Name
  type : Ty
  isRequired : Bool
deriving DecidableEq

/-- A variant of a union: the value of the discriminator on the wire, and the type. -/
structure UnionVariant where
  value : String
  type : Ty
deriving DecidableEq

end Stubwright
