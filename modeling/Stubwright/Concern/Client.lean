import Stubwright.Concern.Model
import Stubwright.Concern.Signature

/-!
# Clients

A group of routes becomes a class with a method for each route, which hands the request to the
transport.

## Main definitions

* `Client.pathExpr` — the path of a route with its parameters put in
* `Client.method`, `Client.render` — the method of a route, and the class of a group
* `Client.vocabulary`, `Client.handler` — the instruction and what carries it out
-/

namespace Stubwright.Client

open Source

variable {σ : Type}

/-- What is said of a placeholder of a path that no parameter fills. -/
def unfilledPlaceholder (name : String) (operation : Name) : String :=
  s!"path placeholder '{name}' of {operation} has no parameter"

/-- The expression for a segment of the path: literal text, or the parameter with its wire name. -/
def segmentExpr (route : Route) : PathSegment → Step σ Expr
  | .literal text => return .text text
  | .param name =>
    match route.params.find? (·.name = name) with
    | some param => return .name param.term
    | none => Step.defect (unfilledPlaceholder name route.operation)

/-- The path of a route with its parameters put in. -/
def pathExpr (route : Route) : Step σ Expr := do
  let parts ← route.segments.mapM (segmentExpr route)
  return .concat parts

/-- The names that the body of a client method uses. -/
structure Words where
  map : Name
  ofEntries : Name
  entry : Name

/-- Reads the names that the body of a client method uses. -/
def readWords : Step σ Words := do
  let map ← Grammar.name.read "Map"
  let ofEntries ← Grammar.name.read "ofEntries"
  let entry ← Grammar.name.read "entry"
  return ⟨map, ofEntries, entry⟩

/-- A map from the wire names of the parameters at a location to their values. -/
def entriesExpr (words : Words) (route : Route) (location : ParamLocation) : Expr :=
  let entries := (route.params.filter (·.location = location)).map fun param =>
    Expr.callOn (.name words.map) words.entry [.text param.name, .name param.term]
  .callOn (.name words.map) words.ofEntries entries

/-- The class literal of the response, which is `Void` for an empty one. -/
def responseClass (route : Route) : Step σ Expr :=
  match route.response with
  | some type => return .classOf type
  | none => do
    let empty ← Grammar.type.read "Void"
    return .classOf empty

/-- The method of a route. It sends the HTTP method, the path, the query and header parameters, the
body or `null`, and the class of the response. -/
def method (transport : Name) (client : ClientRoute) : Step σ MethodDecl := do
  let route := client.route
  let signature ← route.readSignature
  let path ← pathExpr route
  let words ← readWords
  let response ← responseClass route
  let send ← Grammar.name.read "send"
  let body := (signature.body.map Expr.name).getD .null
  let request := Expr.callOn (.selfField transport) send
    [.text route.method.verb, path, entriesExpr words route .query,
      entriesExpr words route .header, body, response]
  Step.debug s!"client method {route.operation}"
  return ⟨[], [.isPublic], [], client.returnType, route.operation, signature.params,
    some [.returns (some request)]⟩

/-- The class with methods, which holds the transport that its constructor takes. -/
def classDecl (name : Name) (transportType : Ty) (transport : Name) (methods : List MethodDecl) :
    TypeDecl :=
  let field : FieldDecl := ⟨[], [.isPrivate, .isFinal], transportType, transport, none⟩
  let builder : ConstructorDecl :=
    ⟨[], [.isPublic], name, [.plain transportType transport], [Model.storeParameter transport]⟩
  .publicType .classType name (.field field :: .constructor builder :: methods.map .method)

/-- The class of a group of routes, named for the group and a suffix. -/
def render (package : QualifiedName) (suffix group : String) (routes : List ClientRoute)
    (imports : List Import) : Step σ Definition := do
  let className ← JavaName.ofType s!"{group} {suffix}"
  let transportType ← Grammar.type.read "ApiTransport"
  let transport ← Grammar.name.read "transport"
  let methods ← routes.mapM (method transport)
  Step.info s!"rendered client {className} ({routes.length} routes)"
  return .ofDecl package imports (classDecl className transportType transport methods)

/-- The instruction to render the client of a group of routes. -/
structure Term where
  group : String
  routes : List ClientRoute
  imports : List Import
deriving DecidableEq

/-- The instruction on clients. Its answer is a client. -/
abbrev vocabulary : Vocabulary where
  Term := Term
  Answer := Definition
  label term := s!"render client {term.group} ({term.routes.length} routes)"
  contribute definition result := result.add .client definition

/-- The handler of the instruction on clients. -/
def handler (package : QualifiedName) (suffix : String) : Handler vocabulary :=
  .stateless fun term => render package suffix term.group term.routes term.imports

end Stubwright.Client
