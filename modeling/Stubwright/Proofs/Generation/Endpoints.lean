import Stubwright.Proofs.Concern.GroupTypes
import Stubwright.Proofs.Generation.Claiming
import Stubwright.Proofs.Generation.Grouping
import Stubwright.Proofs.Generation.Schemas

/-!
# Endpoints in a run

A run with endpoints adds the transport, and then a client and a server for each group. The types of
a group are rendered in any case; what may refuse them is that another type of the run has their
name.

## Main definitions

* `Generation.clientOf`, `Generation.serverOf` — the types of a group
* `Endpoint.groups` — the groups of endpoints
* `GeneratorConfig.groupTypes`, `GeneratorConfig.endpointTypes` — the Java names that endpoints
  claim

## Main results

* `Generation.renderGroups_decides` — which groups become types, one group after another
* `Generation.renderEndpoints_decides` — which endpoints are accepted, and what they add
-/

namespace Stubwright

open Source

/-! ## The types of a group -/

namespace Route

/-- A route as the client of its group offers it. -/
def asClient (framework : Framework) (route : Route) : ClientRoute :=
  ⟨route, Binding.returnType framework route.response⟩

/-- A route as the server of its group offers it. -/
def asServer (framework : Framework) (route : Route) : ServerRoute :=
  ⟨route, Binding.returnType framework route.response,
    Binding.routeUses framework route.method route.path,
    route.params.map fun param => Binding.paramUses framework param.location param.name⟩

end Route

/-- The groups of endpoints, in order of first appearance. -/
def Endpoint.groups (endpoints : List Endpoint) : List String :=
  (endpoints.map (·.group)).eraseDups

namespace GeneratorConfig

/-- The Java names of the client and the server of a group. -/
def groupTypes (config : GeneratorConfig) (group : String) : List String :=
  [Naming.typeName s!"{group} {config.clientSuffix}",
    Naming.typeName s!"{group} {config.serverSuffix}"]

/-- The Java names that endpoints add to those of the schemas: that of the transport, and those of
every group. -/
def endpointTypes (config : GeneratorConfig) (endpoints : List Endpoint) : List String :=
  "ApiTransport" :: (Endpoint.groups endpoints).flatMap config.groupTypes

end GeneratorConfig

namespace Generation

variable (package : QualifiedName) (config : GeneratorConfig)

/-- The client of a group of routes. -/
def clientOf (group : String × List Route) : Definition :=
  Client.classOf package config.clientSuffix group.1 (group.2.map (Route.asClient config.framework))
    (Binding.importsOf config.framework .client)

/-- The server of a group of routes. -/
def serverOf (group : String × List Route) : Definition :=
  Server.interfaceOf package config.serverSuffix group.1
    (group.2.map (Route.asServer config.framework)) (Binding.importsOf config.framework .server)

/-- The claims for the types of a group, the last one first. -/
def groupClaims (group : String) : Claims :=
  [(Naming.typeName s!"{group} {config.serverSuffix}", s!"server of group '{group}'"),
    (Naming.typeName s!"{group} {config.clientSuffix}", s!"client of group '{group}'")]

/-- A result after the types of groups were added. -/
def addGroups (groups : List (String × List Route)) (result : Codegen) : Codegen :=
  { result with
    clients := result.clients ++ groups.map (clientOf package config)
    servers := result.servers ++ groups.map (serverOf package config) }

variable {package config} {wires : List String} {collected : Codegen}

/-! ## Routes -/

private theorem imports_decides (side : Binding.Side) :
    (imports (handlers package config).combined side).Decides
      (session package config wires collected) True (Binding.importsOf config.framework side)
      (session package config wires collected) :=
  (exec_decides package config Concern.binding (.imports side)
    (Binding.answer_imports_decides package config.framework side)).andThen .pure

private theorem bindParam_decides (param : RouteParam) :
    (do
      let answer ← (handlers package config).combined.exec Concern.binding
        (.paramAnnotations param.location param.name)
      Binding.Answer.asAnnotations answer).Decides (session package config wires collected) True
        (Binding.paramUses config.framework param.location param.name)
        (session package config wires collected) :=
  (exec_decides package config Concern.binding (.paramAnnotations param.location param.name)
    (Binding.answer_paramAnnotations_decides package config.framework param.location
      param.name)).andThen .pure

private theorem bindRoute_decides (route : Route) :
    (bindRoute (handlers package config).combined route).Decides
      (session package config wires collected) True
      (route.asClient config.framework, route.asServer config.framework)
      (session package config wires collected) := by
  unfold bindRoute
  apply (exec_decides package config Concern.binding (.responseType route.response)
    (Binding.answer_responseType_decides package config.framework route.response)).andThen
  apply Step.Decides.pure.andThen
  apply (exec_decides package config Concern.binding (.routeAnnotations route.method route.path)
    (Binding.answer_routeAnnotations_decides package config.framework route.method
      route.path)).andThen
  apply Step.Decides.pure.andThen
  exact (Step.Decides.mapEach fun param _ => bindParam_decides param).andThen .pure

/-! ## Groups -/

private theorem renderClient_decides (group : String × List Route)
    (h : ∀ route ∈ group.2, route.IsFilled) :
    ((handlers package config).combined.exec Concern.client
      ⟨group.1, group.2.map (Route.asClient config.framework),
        Binding.importsOf config.framework .client⟩).Decides
      (session package config wires collected) True (clientOf package config group)
      (session package config wires (collected.add .client (clientOf package config group))) :=
  exec_decides package config Concern.client ⟨group.1, _, _⟩
    (Client.render_decides package config.clientSuffix group.1 _ (List.forall_mem_map.2 h))

private theorem renderServer_decides (group : String × List Route) :
    ((handlers package config).combined.exec Concern.server
      ⟨group.1, group.2.map (Route.asServer config.framework),
        Binding.importsOf config.framework .server⟩).Decides
      (session package config wires collected) True (serverOf package config group)
      (session package config wires (collected.add .server (serverOf package config group))) :=
  exec_decides package config Concern.server ⟨group.1, _, _⟩
    (Server.render_decides package config.serverSuffix group.1 _
      (List.forall_mem_map.2 fun _ _ => List.length_map _))

/-- A group becomes types when neither of its names is claimed and they differ. -/
theorem renderGroup_decides (claims : Claims) {group : String × List Route}
    (h : ∀ route ∈ group.2, route.IsFilled) :
    (renderGroup (handlers package config).combined claims group.1 group.2).Decides
      (session package config wires collected) (claims.Admits (config.groupTypes group.1))
      (groupClaims config group.1 ++ claims)
      (session package config wires (addGroups package config [group] collected)) := by
  have hbound : (group.2.mapM (bindRoute (handlers package config).combined)).Decides
      (session package config wires collected) True
      (group.2.map fun route => (route.asClient config.framework, route.asServer config.framework))
      (session package config wires collected) :=
    .mapEach fun route _ => bindRoute_decides route
  have hclient : InOwnWords s!"client of group '{group.1}'" := by simp +decide
  have hserver : InOwnWords s!"server of group '{group.1}'" := by simp +decide
  unfold renderGroup
  apply (imports_decides .client).andThen
  apply (imports_decides .server).andThen
  apply hbound.andThen
  rw [List.map_map, List.map_map]
  apply (renderClient_decides group h).andThen
  refine ((claim_decides claims (clientOf package config group).name hclient).bind fun _ =>
    (renderServer_decides group).andThen
      (claim_decides _ (serverOf package config group).name hserver)).congr ?_
  rw [GeneratorConfig.groupTypes, Claims.admits_cons s!"client of group '{group.1}'",
    Claims.admits_cons s!"server of group '{group.1}'", and_iff_left (Claims.admits_nil _)]
  rfl

private theorem mem_names_groupClaims (group type : String) :
    type ∈ (groupClaims config group).names ↔ type ∈ config.groupTypes group := by
  simp only [groupClaims, Claims.names, GeneratorConfig.groupTypes, List.map_cons, List.map_nil,
    List.mem_cons, List.not_mem_nil, or_false]
  exact or_comm

/-- Groups become types one after another when all their names differ and none of them is claimed.
-/
theorem renderGroups_decides (claims : Claims) {groups : List (String × List Route)}
    (h : ∀ group ∈ groups, ∀ route ∈ group.2, route.IsFilled) :
    (groups.foldlM (fun claims (group, routes) => Step.inScope group
      (renderGroup (handlers package config).combined claims group routes)) claims).Decides
        (session package config wires collected)
        (claims.Admits ((groups.map Prod.fst).flatMap config.groupTypes))
        ((groups.map Prod.fst).foldl (fun claims group => groupClaims config group ++ claims) claims)
        (session package config wires (addGroups package config groups collected)) := by
  induction groups generalizing claims collected with
  | nil =>
    have hnone : addGroups package config [] collected = collected := by simp [addGroups]
    rw [hnone]
    exact Step.Decides.pure.congr (iff_of_true trivial claims.admits_nil)
  | cons group rest ih =>
    obtain ⟨hgroup, hrest⟩ := List.forall_mem_cons.1 h
    -- The first group is claimed before the others, which `Claims.admits_append` allows for.
    have hcons : addGroups package config (group :: rest) collected =
        addGroups package config rest (addGroups package config [group] collected) := by
      simp [addGroups]
    rw [List.foldlM_cons, hcons, List.map_cons, List.foldl_cons, List.flatMap_cons]
    exact ((renderGroup_decides claims hgroup).inScope.bind fun _ => ih _ hrest).congr
      (Claims.admits_append (mem_names_groupClaims group.1)).symm

/-! ## Endpoints -/

/-- What endpoints add to a result: the transport, and the types of their groups. -/
def addEndpoints (package : QualifiedName) (config : GeneratorConfig) (endpoints : List Endpoint)
    (result : Codegen) : Codegen :=
  addGroups package config (groupByClient (endpoints.map Endpoint.route))
    (result.add .support (Binding.transport package config.framework))

/-- The routes of endpoints are grouped as the endpoints are, and keep their order in a group. -/
theorem groupByClient_routes (endpoints : List Endpoint) :
    groupByClient (endpoints.map Endpoint.route) = (Endpoint.groups endpoints).map fun group =>
      (group, (endpoints.filter (·.group = group)).map Endpoint.route) := by
  simp only [groupByClient_eq, List.map_map, List.filter_map]
  rfl

/-- Endpoints are accepted when each has a route, no two share a method of a client, and the types
of their groups can be claimed beside the transport. -/
theorem renderEndpoints_decides (claims : Claims) (endpoints : List Endpoint) :
    (renderEndpoints (handlers package config).combined claims endpoints).Decides
      (session package config wires collected)
      (((endpoints.map Endpoint.key).Nodup ∧ ∀ endpoint ∈ endpoints, endpoint.IsAccepted wires) ∧
        claims.Admits (config.endpointTypes endpoints)) ()
      (session package config wires (addEndpoints package config endpoints collected)) := by
  have htransport : (accept ([Binding.transport package config.framework].foldlM
      (fun (claims : Claims) definition => claims.claim definition.name "transport support")
      claims)).Decides (session package config wires (collected.add .support
        (Binding.transport package config.framework))) ("ApiTransport" ∉ claims.names)
        (("ApiTransport", "transport support") :: claims) (session package config wires
          (collected.add .support (Binding.transport package config.framework))) := by
    rw [accept_foldlM]
    exact (claim_decides claims (Binding.transport package config.framework).name
      (by decide)).before .pure
  unfold renderEndpoints
  apply (exec_decides package config Concern.binding .transportSupport
    (Binding.answer_transportSupport_decides package config.framework)).andThen
  apply Step.Decides.pure.andThen
  refine (htransport.bind fun _ => (exec_decides package config Concern.resolution
    (.extractRoutes endpoints) (Resolution.answer_extractRoutes_decides endpoints)).bind fun h =>
      Step.Decides.pure.andThen (renderGroups_decides _ ?_).discard).congr ?_
  · intro group hgroup route hroute
    obtain ⟨endpoint, hendpoint, rfl⟩ := List.mem_map.1 (mem_of_mem_groupByClient hgroup hroute)
    exact Endpoint.isFilled_route (h.2 endpoint hendpoint)
  · have hgroups : (groupByClient (endpoints.map Endpoint.route)).map Prod.fst =
        Endpoint.groups endpoints := by
      rw [groupByClient_routes, List.map_map]
      exact List.map_id _
    rw [hgroups, GeneratorConfig.endpointTypes, Claims.admits_cons "transport support"]
    exact and_left_comm

end Generation

end Stubwright
