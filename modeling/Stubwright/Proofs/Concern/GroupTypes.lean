import Stubwright.Concern.Client
import Stubwright.Concern.Server
import Stubwright.Proofs.Concern.FrameworkPieces
import Stubwright.Proofs.Concern.Paths
import Stubwright.Proofs.Concern.Routes

/-!
# The client and the server of a group

The client and the server of a group of routes can be told from the routes. Neither refuses a group,
and neither meets a broken contract as long as every segment of a path has a parameter and every
parameter its list of annotations.

## Main definitions

* `Route.signature` — the parameters of the methods of a route
* `Route.IsFilled` — a route with a parameter for every segment that asks for one
* `Client.classOf`, `Server.interfaceOf` — the types of a group

## Main results

* `Endpoint.isFilled_route` — the route of an accepted endpoint is filled
* `Client.render_decides`, `Server.render_decides` — the types of a group are always rendered
-/

namespace Stubwright

open Source

variable {σ : Type} {state : σ}

/-! ## Signatures -/

namespace Route

/-- The name of the parameter for the body, which no parameter of the route has. -/
def bodyName (route : Route) : Name :=
  Name.unique Binding.bodyName (route.params.map (·.term.text))

/-- The signature of a route: its parameters in order, and then the body if there is one. -/
def signature (route : Route) : Signature :=
  let declared := route.params.map RouteParam.toParameter
  match route.body with
  | none => ⟨declared, none⟩
  | some type => ⟨declared ++ [.plain type route.bodyName], some route.bodyName⟩

private theorem readSignature_decides (route : Route) :
    route.readSignature.Decides state True route.signature state := by
  unfold readSignature signature
  cases route.body with
  | none => exact .pure
  | some type => exact (Grammar.readName_decides route.bodyName).andThen .pure

/-- Every segment of the path that stands for a parameter has one. -/
def IsFilled (route : Route) : Prop :=
  ∀ name, .param name ∈ route.segments → ∃ param ∈ route.params, param.name = name

end Route

/-- The route of an accepted endpoint has a parameter for each placeholder of its path. -/
theorem Endpoint.isFilled_route {wires : List String} {endpoint : Endpoint}
    (h : endpoint.IsAccepted wires) : endpoint.route.IsFilled := by
  intro name hname
  obtain ⟨param, hparam, -, rfl⟩ := Resolution.exists_param_of_pathFault? h.path hname
  exact ⟨param.route, List.mem_map_of_mem hparam, rfl⟩

/-! ## Clients -/

namespace Client

/-- The expression for a segment of the path. Every segment of a filled route has one. -/
def segmentOf (route : Route) : PathSegment → Expr
  | .literal text => .text text
  | .param name =>
    ((route.params.find? (·.name = name)).map fun param => .name param.term).getD .null

/-- The names that the body of a client method uses. -/
def methodWords : Words := ⟨LibraryName.map.name, ⟨"ofEntries", by decide⟩, ⟨"entry", by decide⟩⟩

/-- The name of the field that holds the transport. -/
def transportName : Name := ⟨"transport", by decide⟩

/-- The request that the method of a route hands to the transport. -/
def requestOf (route : Route) : Expr :=
  .callOn (.selfField transportName) Binding.sendName
    [ .text route.method.verb,
      .concat (route.segments.map (segmentOf route)),
      entriesExpr methodWords route .query,
      entriesExpr methodWords route .header,
      (route.signature.body.map Expr.name).getD .null,
      .classOf (route.response.getD Binding.voidType)]

/-- The method of a route. -/
def methodOf (client : ClientRoute) : MethodDecl :=
  ⟨[], [.isPublic], [], client.returnType, client.route.operation, client.route.signature.params,
    some [.returns (some (requestOf client.route))]⟩

/-- The class of a group of routes. -/
def classOf (package : QualifiedName) (suffix group : String) (routes : List ClientRoute)
    (imports : List Import) : Definition :=
  .ofDecl package imports (classDecl (JavaName.typeOf s!"{group} {suffix}")
    (.ofClass (.plain (.simple Binding.transportTypeName))) transportName (routes.map methodOf))

private theorem segmentExpr_decides {route : Route} {segment : PathSegment} (h : route.IsFilled)
    (hsegment : segment ∈ route.segments) :
    (segmentExpr route segment).Decides state True (segmentOf route segment) state := by
  cases segment with
  | literal text => exact .pure
  | param name =>
    obtain ⟨param, hparam, rfl⟩ := h name hsegment
    cases hfind : route.params.find? (·.name = param.name) with
    | none => simpa using List.find?_eq_none.1 hfind param hparam
    | some found =>
      simp only [segmentExpr, segmentOf, hfind]
      exact .pure

private theorem pathExpr_decides {route : Route} (h : route.IsFilled) :
    (pathExpr route).Decides state True (.concat (route.segments.map (segmentOf route))) state :=
  (Step.Decides.mapEach fun _ hsegment => segmentExpr_decides h hsegment).andThen .pure

private theorem readWords_decides :
    (readWords : Step σ Words).Decides state True methodWords state := by
  unfold readWords
  apply (Grammar.readName_decides LibraryName.map.name).andThen
  apply (Grammar.readName_decides ⟨"ofEntries", by decide⟩).andThen
  exact (Grammar.readName_decides ⟨"entry", by decide⟩).andThen .pure

private theorem responseClass_decides (route : Route) :
    (responseClass route).Decides state True (.classOf (route.response.getD Binding.voidType))
      state := by
  unfold responseClass
  cases route.response with
  | none => exact Binding.readVoid_decides.andThen .pure
  | some type => exact .pure

/-- The method of a route is generated when its path can be filled. -/
theorem method_decides {client : ClientRoute} (h : client.route.IsFilled) :
    (method transportName client).Decides state True (methodOf client) state := by
  unfold method
  apply client.route.readSignature_decides.andThen
  apply (pathExpr_decides h).andThen
  apply readWords_decides.andThen
  apply (responseClass_decides client.route).andThen
  exact (Grammar.readName_decides Binding.sendName).andThen (.logged .pure)

/-- The client of a group is generated when the paths of all its routes can be filled. -/
theorem render_decides (package : QualifiedName) (suffix group : String)
    {routes : List ClientRoute} (imports : List Import)
    (h : ∀ client ∈ routes, client.route.IsFilled) :
    (render package suffix group routes imports).Decides state True
      (classOf package suffix group routes imports) state := by
  have htransport : (Grammar.type.read "ApiTransport").Decides state True
      (.ofClass (.plain (.simple Binding.transportTypeName))) state :=
    Grammar.readSimpleType_decides Binding.transportTypeName
  have hmethods : (routes.mapM (method transportName)).Decides state True (routes.map methodOf)
      state := .mapEach fun client hclient => method_decides (h client hclient)
  unfold render
  apply (JavaName.ofType_decides s!"{group} {suffix}").andThen
  apply htransport.andThen
  apply (Grammar.readName_decides transportName).andThen
  exact hmethods.andThen (.logged .pure)

end Client

/-! ## Servers -/

namespace Server

/-- The method of a route. -/
def methodOf (server : ServerRoute) : MethodDecl :=
  ⟨server.annotations, [], [], server.returnType, server.route.operation,
    annotate server.route.signature.params server.paramAnnotations, none⟩

/-- The interface of a group of routes. -/
def interfaceOf (package : QualifiedName) (suffix group : String) (routes : List ServerRoute)
    (imports : List Import) : Definition :=
  .ofDecl package imports (.publicType .interfaceType (JavaName.typeOf s!"{group} {suffix}")
    ((routes.map methodOf).map .method))

private theorem method_decides {server : ServerRoute}
    (h : server.paramAnnotations.length = server.route.params.length) :
    (method server).Decides state True (methodOf server) state := by
  unfold method
  -- The lists of annotations are as many as the parameters, so the contract is kept.
  rw [if_neg (by simpa using h)]
  exact server.route.readSignature_decides.andThen .pure

/-- The interface of a group is generated when each parameter has its list of annotations. -/
theorem render_decides (package : QualifiedName) (suffix group : String)
    {routes : List ServerRoute} (imports : List Import)
    (h : ∀ server ∈ routes, server.paramAnnotations.length = server.route.params.length) :
    (render package suffix group routes imports).Decides state True
      (interfaceOf package suffix group routes imports) state := by
  have hmethods : (routes.mapM method).Decides state True (routes.map methodOf) state :=
    .mapEach fun server hserver => method_decides (h server hserver)
  unfold render
  apply (JavaName.ofType_decides s!"{group} {suffix}").andThen
  exact hmethods.andThen (.logged .pure)

end Server

end Stubwright
