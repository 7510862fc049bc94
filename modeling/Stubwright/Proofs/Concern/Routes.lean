import Stubwright.Proofs.Concern.References

/-!
# Endpoints and their routes

The route of an endpoint can be told from the endpoint alone. Whether the endpoint is accepted
depends on its path, on the names of its parameters and on the schemas that its types name.

## Main definitions

* `Endpoint.route` — the route of an endpoint
* `Endpoint.IsAccepted` — an endpoint that has a route
* `Endpoint.key` — what tells the operations of an API apart

## Main results

* `Resolution.extractRoutes_decides` — which endpoints have routes, and which routes these are
-/

namespace Stubwright

open Source

/-! ## The route of an endpoint -/

/-- The Java name of a parameter. -/
def EndpointParameter.term (param : EndpointParameter) : Name :=
  JavaName.memberOf param.name ⟨"param", by decide⟩

/-- The parameter of the route: only an optional one is wrapped, and any other is unboxed. -/
def EndpointParameter.route (param : EndpointParameter) : RouteParam :=
  let java := param.type.java
  ⟨param.name, param.term, param.location,
    if Resolution.isOptionalParam param then java.optional else java.unboxed⟩

namespace Endpoint

/-- The Java name of the operation. -/
def operation (endpoint : Endpoint) : Name :=
  JavaName.memberOf endpoint.operationId ⟨"operation", by decide⟩

/-- The client and the operation in it, which no two endpoints of an API may share. -/
def key (endpoint : Endpoint) : String × Name := (endpoint.group, endpoint.operation)

/-- The body of the first successful response, if there is one. -/
def responseBody? (endpoint : Endpoint) : Option TypeRef :=
  (endpoint.responses.find? (·.isSuccess)).bind (·.body)

/-- The route of an endpoint. -/
def route (endpoint : Endpoint) : Route :=
  ⟨endpoint.operation, endpoint.group, endpoint.method, endpoint.path,
    endpoint.parameters.map EndpointParameter.route, endpoint.requestBody.map TypeRef.java,
    endpoint.responseBody?.map TypeRef.java⟩

/-- An endpoint that has a route when the schemas `wires` are registered. -/
structure IsAccepted (wires : List String) (endpoint : Endpoint) : Prop where
  path : Resolution.pathFault? endpoint = none
  distinct : (endpoint.parameters.map EndpointParameter.term).Nodup
  params : ∀ param ∈ endpoint.parameters, ∀ name ∈ param.type.refs, name ∈ wires
  body : ∀ type ∈ endpoint.requestBody, ∀ name ∈ type.refs, name ∈ wires
  response : ∀ type ∈ endpoint.responseBody?, ∀ name ∈ type.refs, name ∈ wires

instance (wires : List String) (endpoint : Endpoint) : Decidable (endpoint.IsAccepted wires) :=
  decidable_of_iff (Resolution.pathFault? endpoint = none ∧
    (endpoint.parameters.map EndpointParameter.term).Nodup ∧
    (∀ param ∈ endpoint.parameters, ∀ name ∈ param.type.refs, name ∈ wires) ∧
    (∀ type ∈ endpoint.requestBody, ∀ name ∈ type.refs, name ∈ wires) ∧
    ∀ type ∈ endpoint.responseBody?, ∀ name ∈ type.refs, name ∈ wires)
    ⟨fun ⟨path, distinct, params, body, response⟩ => ⟨path, distinct, params, body, response⟩,
      fun ⟨path, distinct, params, body, response⟩ => ⟨path, distinct, params, body, response⟩⟩

end Endpoint

namespace Resolution

variable {σ : Type} {state : σ} {wires : List String}

/-! ## The parts of a route -/

theorem routeParams_decides (operationId : String) (taken : List Name)
    (params : List EndpointParameter) :
    (routeParams (.of wires) operationId taken params).Decides state
      (((params.map EndpointParameter.term).Nodup ∧ ∀ param ∈ params, param.term ∉ taken) ∧
        ∀ param ∈ params, ∀ name ∈ param.type.refs, name ∈ wires)
      (params.map EndpointParameter.route) state := by
  induction params generalizing taken with
  | nil => exact Step.Decides.pure.congr (by simp)
  | cons param rest ih =>
    unfold routeParams
    have hterm : (JavaName.ofMember param.name "param").Decides state True param.term state :=
      JavaName.ofMember_decides param.name ⟨"param", by decide⟩
    apply Step.Decides.andThen hterm
    refine (Step.Decides.guarded (by simp +decide) fun _ =>
      (resolve_decides param.type).bind fun _ =>
      (ih (param.term :: taken)).andReturn (param.route :: ·)).congr ?_
    simp only [List.map_cons, List.nodup_cons, List.mem_cons, not_or,
      List.mem_map]
    grind

theorem resolveBody_decides (body : Option TypeRef) :
    (resolveBody (.of wires) body).Decides state
      (∀ type ∈ body, ∀ name ∈ type.refs, name ∈ wires) (body.map TypeRef.java) state := by
  cases body with
  | none => exact Step.Decides.pure.congr (by simp)
  | some type => exact ((resolve_decides type).andReturn some).congr (by simp)

theorem resolveResponse_decides (endpoint : Endpoint) :
    (resolveResponse (.of wires) endpoint).Decides state
      (∀ type ∈ endpoint.responseBody?, ∀ name ∈ type.refs, name ∈ wires)
      (endpoint.responseBody?.map TypeRef.java) state := by
  unfold resolveResponse Endpoint.responseBody?
  cases endpoint.responses.find? (·.isSuccess) with
  | none =>
    exact (Step.Decides.logged .pure).congr (iff_of_true trivial nofun)
  | some response => exact resolveBody_decides response.body

/-! ## Routes -/

theorem inOwnWords_of_pathFault? {endpoint : Endpoint} {fault : String}
    (h : pathFault? endpoint = some fault) : InOwnWords fault := by
  unfold pathFault? at h
  dsimp only at h
  split at h
  · cases h
    simp +decide
  · split at h
    · cases h
      unfold malformedPlaceholder
      simp +decide
    · split at h
      · cases h
        simp +decide
      · obtain ⟨unused, -, rfl⟩ := Option.map_eq_some_iff.1 h
        simp +decide

/-- An endpoint has a route exactly when it is accepted. -/
theorem extractRoute_decides (endpoint : Endpoint) :
    (extractRoute (.of wires) endpoint).Decides state (endpoint.IsAccepted wires) endpoint.route
      state := by
  unfold extractRoute
  have hoperation : (JavaName.ofMember endpoint.operationId "operation").Decides state True
      endpoint.operation state :=
    JavaName.ofMember_decides endpoint.operationId ⟨"operation", by decide⟩
  cases hfault : pathFault? endpoint with
  | some fault =>
    refine (Step.Decides.refused (inOwnWords_of_pathFault? hfault)).congr (iff_of_false id ?_)
    exact fun h => absurd h.path (by simp [hfault])
  | none =>
    refine (Step.Decides.andThen hoperation <|
      (routeParams_decides endpoint.operationId [] endpoint.parameters).bind fun _ =>
        (resolveBody_decides endpoint.requestBody).bind fun _ =>
          (resolveResponse_decides endpoint).bind fun _ =>
            .logged .pure).congr ⟨?_, ?_⟩
    · rintro ⟨⟨⟨hdistinct, -⟩, hparams⟩, hbody, hresponse, -⟩
      exact ⟨hfault, hdistinct, hparams, hbody, hresponse⟩
    · rintro ⟨-, hdistinct, hparams, hbody, hresponse⟩
      exact ⟨⟨⟨hdistinct, fun _ _ => List.not_mem_nil⟩, hparams⟩, hbody, hresponse, trivial⟩

/-- Endpoints have routes when each has one and no two share their client and their operation. -/
theorem extractRoutes_decides (seen : List (String × Name)) (endpoints : List Endpoint) :
    (extractRoutes (.of wires) seen endpoints).Decides state
      (((endpoints.map Endpoint.key).Nodup ∧ ∀ endpoint ∈ endpoints, endpoint.key ∉ seen) ∧
        ∀ endpoint ∈ endpoints, endpoint.IsAccepted wires)
      (endpoints.map Endpoint.route) state := by
  induction endpoints generalizing seen with
  | nil => exact Step.Decides.pure.congr (by simp)
  | cons endpoint rest ih =>
    unfold extractRoutes
    refine ((extractRoute_decides endpoint).inScope.bind fun _ =>
      Step.Decides.guarded (by simp +decide) fun _ =>
        (ih (endpoint.key :: seen)).andReturn (endpoint.route :: ·)).congr ?_
    change _ ∧ ¬ endpoint.key ∈ seen ∧ _ ↔ _
    simp only [List.map_cons, List.nodup_cons, List.mem_cons, not_or,
      List.mem_map]
    clear ih
    grind

/-- Endpoints have routes when each is accepted and no two share a method of a client. -/
theorem answer_extractRoutes_decides (endpoints : List Endpoint) :
    (handle (.extractRoutes endpoints)).Decides (.of wires)
      ((endpoints.map Endpoint.key).Nodup ∧ ∀ endpoint ∈ endpoints, endpoint.IsAccepted wires)
      (.routes (endpoints.map Endpoint.route)) (.of wires) := by
  apply Step.Decides.andThen .read
  exact ((extractRoutes_decides [] endpoints).congr (by simp)).andReturn Answer.routes

end Resolution

end Stubwright
