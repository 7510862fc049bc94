import Stubwright.JavaName
import Stubwright.Naming.Unique
import Stubwright.Route
import Stubwright.Source.Printer
import Stubwright.Vocabulary

/-!
# Resolution of descriptions

Schemas are indexed under their wire names, type references are resolved against the index, and
endpoints become routes.

## Main definitions

* `SchemaIndex` — the schemas registered so far, with their Java names
* `Resolution.resolve` — the Java type of a type reference
* `Resolution.extractRoute` — the route of an endpoint
* `Resolution.vocabulary`, `Resolution.handler` — the instructions and what carries them out
-/

namespace Stubwright

open Source

/-- The registered schemas: wire names with the Java names of their types. -/
structure SchemaIndex where
  entries : List (String × Name)
deriving DecidableEq

namespace SchemaIndex

/-- The index without schemas. -/
def empty : SchemaIndex := ⟨[]⟩

instance : EmptyCollection SchemaIndex := ⟨empty⟩

/-- The Java name of a schema. -/
def find? (index : SchemaIndex) (wire : String) : Option Name := index.entries.lookup wire

/-- The schema whose type has a Java name. -/
def owner? (index : SchemaIndex) (java : Name) : Option String :=
  (index.entries.find? fun entry => entry.2 = java).map Prod.fst

/-- Registers a schema. -/
def insert (index : SchemaIndex) (wire : String) (java : Name) : SchemaIndex :=
  ⟨index.entries ++ [(wire, java)]⟩

end SchemaIndex

namespace Resolution

variable {σ : Type}

/-! ## Schemas -/

/-- Registers a schema under a wire name that is new, with a Java name that is new. -/
def register (wire : String) : Step SchemaIndex Name := do
  let index ← Step.state
  if (index.find? wire).isSome then Step.refuse s!"duplicate schema name '{wire}'"
  let java ← JavaName.ofType wire
  match index.owner? java with
  | some previous =>
    Step.refuse s!"schemas '{previous}' and '{wire}' both map to Java type '{java}'"
  | none =>
    Step.debug s!"schema '{wire}' -> {java}"
    Step.onState (·.insert wire java)
    return java

/-! ## Types -/

/-- The Java type of a type reference. -/
def resolve (index : SchemaIndex) : TypeRef → Step σ Ty
  | .string => Grammar.type.read "String"
  | .integer => Grammar.type.read "Integer"
  | .long => Grammar.type.read "Long"
  | .number => Grammar.type.read "java.math.BigDecimal"
  | .boolean => Grammar.type.read "Boolean"
  | .date => Grammar.type.read "java.time.LocalDate"
  | .dateTime => Grammar.type.read "java.time.OffsetDateTime"
  | .ref name =>
    match index.find? name with
    | some java => Grammar.type.read java.text
    | none => Step.refuse s!"unknown schema reference '{name}'"
  | .array items => do
    let item ← resolve index items
    return item.list
  | .map values => do
    let key ← Grammar.type.read "String"
    let value ← resolve index values
    return .map key value

/-! ## Routes -/

/-- What is said of a path with a brace outside its placeholders. -/
def malformedPlaceholder (endpoint : Endpoint) : String :=
  s!"path '{endpoint.path}' of operation '{endpoint.operationId}' has a malformed placeholder; "
    ++ "expected '\x7bname\x7d' with a letter or '_' first"

/-- The least text of `names` that is not in `others`. -/
def leastMissing? (names others : List String) : Option String :=
  ((names.filter fun name => !others.contains name).mergeSort (· ≤ ·)).head?

/-- The names of the path parameters of an endpoint. -/
def pathParamNames (endpoint : Endpoint) : List String :=
  (endpoint.parameters.filter (·.location = .path)).map (·.name)

/-- What is wrong with the path of an endpoint, if anything: it begins with a slash, its braces
belong to placeholders, and the placeholders are the path parameters. -/
def pathFault? (endpoint : Endpoint) : Option String :=
  let path := endpoint.path
  if path.toList.head? ≠ some '/' then
    some s!"path '{path}' of operation '{endpoint.operationId}' must start with '/'"
  else if (strayText path).any fun c => c = '\x7b' || c = '\x7d' then
    some (malformedPlaceholder endpoint)
  else match leastMissing? (placeholders path) (pathParamNames endpoint) with
    | some missing =>
      some (s!"path '{path}' uses '\x7b" ++ missing
        ++ s!"\x7d' but declares no path parameter '{missing}'")
    | none =>
      (leastMissing? (pathParamNames endpoint) (placeholders path)).map fun unused =>
        s!"path parameter '{unused}' does not appear in path '{path}'"

/-- A parameter that may be left out is optional. One in the path never is. -/
def isOptionalParam (param : EndpointParameter) : Bool :=
  !param.isRequired && param.location ≠ .path

/-- The parameters of a route, whose Java names have to differ from each other and from those
`taken` by earlier ones. -/
def routeParams (index : SchemaIndex) (operationId : String) (taken : List Name) :
    List EndpointParameter → Step σ (List RouteParam)
  | [] => return []
  | param :: rest => do
    let term ← JavaName.ofMember param.name "param"
    if term ∈ taken then
      Step.refuse s!"parameters of operation '{operationId}' collide on name '{term}'"
    let resolved ← resolve index param.type
    let type := if isOptionalParam param then resolved.optional else resolved.unboxed
    let others ← routeParams index operationId (term :: taken) rest
    return ⟨param.name, term, param.location, type⟩ :: others

/-- The Java type of a body, if there is one. -/
def resolveBody (index : SchemaIndex) : Option TypeRef → Step σ (Option Ty)
  | none => return none
  | some type => do
    let resolved ← resolve index type
    return some resolved

/-- The Java type of the body of the first successful response. -/
def resolveResponse (index : SchemaIndex) (endpoint : Endpoint) : Step σ (Option Ty) :=
  match endpoint.responses.find? (·.isSuccess) with
  | some response => resolveBody index response.body
  | none => do
    let operationId := endpoint.operationId
    Step.warning s!"operation '{operationId}' declares no 2xx response; treating it as empty"
    return none

/-- The route of an endpoint. -/
def extractRoute (index : SchemaIndex) (endpoint : Endpoint) : Step σ Route := do
  if let some fault := pathFault? endpoint then Step.refuse fault
  let operation ← JavaName.ofMember endpoint.operationId "operation"
  let params ← routeParams index endpoint.operationId [] endpoint.parameters
  let body ← resolveBody index endpoint.requestBody
  let response ← resolveResponse index endpoint
  Step.debug s!"{endpoint.method.verb} {endpoint.path} -> {operation}"
  return ⟨operation, endpoint.group, endpoint.method, endpoint.path, params, body, response⟩

/-- The routes of endpoints, each in a scope of its own. An operation may occur once in a client;
`seen` lists the clients and operations before. -/
def extractRoutes (index : SchemaIndex) (seen : List (String × Name)) :
    List Endpoint → Step σ (List Route)
  | [] => return []
  | endpoint :: rest => do
    let route ← Step.inScope endpoint.operationId (extractRoute index endpoint)
    if (route.client, route.operation) ∈ seen then
      Step.refuse s!"duplicate operation '{route.operation}' in client '{route.client}'"
    let others ← extractRoutes index ((route.client, route.operation) :: seen) rest
    return route :: others

/-! ## Instructions -/

/-- An instruction: to register schemas, to resolve a type, perhaps as an optional one, or to turn
endpoints into routes. -/
inductive Term where
  | indexSchemas (schemas : List SchemaDef)
  | resolveType (type : TypeRef) (isOptional : Bool)
  | extractRoutes (endpoints : List Endpoint)
deriving DecidableEq

/-- An answer, one kind for each kind of instruction. -/
inductive Answer where
  | indexed (names : List Name)
  | type (type : Ty)
  | routes (routes : List Route)
deriving DecidableEq

/-- A short description of an instruction. -/
def Term.label : Term → String
  | indexSchemas schemas => s!"index {schemas.length} schemas"
  | resolveType type _ => s!"resolve {type.display}"
  | extractRoutes endpoints => s!"extract {endpoints.length} routes"

namespace Answer

/-- What is said of an answer of the wrong kind. -/
def mismatch (expected : String) : String := s!"expected {expected} from description parser"

/-- The Java names of the schemas that were registered. -/
def asIndexed : Answer → Step σ (List Name)
  | indexed names => return names
  | type _ | routes _ => Step.defect (mismatch "schema index")

/-- The type that was resolved. -/
def asType : Answer → Step σ Ty
  | type resolved => return resolved
  | indexed _ | routes _ => Step.defect (mismatch "type")

/-- The routes that were extracted. -/
def asRoutes : Answer → Step σ (List Route)
  | routes extracted => return extracted
  | indexed _ | type _ => Step.defect (mismatch "routes")

end Answer

/-- The instructions on descriptions. Their answers carry no definitions. -/
abbrev vocabulary : Vocabulary where
  Term := Term
  Answer := Answer
  label := Term.label
  contribute _ result := result

/-- Carries out an instruction on the index. -/
def handle : Term → Step SchemaIndex Answer
  | .indexSchemas schemas => do
    let names ← schemas.mapM fun schema => register schema.name
    return .indexed names
  | .resolveType type isOptional => do
    let resolved ← resolve (← Step.state) type
    return .type (if isOptional then resolved.optional else resolved)
  | .extractRoutes endpoints => do
    let routes ← extractRoutes (← Step.state) [] endpoints
    return .routes routes

/-- The handler of the instructions on descriptions, which begins without schemas. -/
def handler : Handler vocabulary where
  State := SchemaIndex
  start := ∅
  handle := handle

end Resolution

end Stubwright
