import Stubwright.Proofs.Generation.Capture

/-!
# The two methods of an endpoint

An endpoint becomes a method of a client and a method of a server. They are made by different parts
of a run, from copies of one route: the client leaves the parameters as they are, and the server
puts annotations on them, which were made one by one and are matched with the parameters again.

The two methods agree in all that a caller sees. The parameter for the body comes last and has a
name of its own, whatever the other parameters are called.

## Main definitions

* `Definition.methodsNamed` — the methods of a name in the types of a name
* `Endpoint.IsOffered` — how the two methods of an endpoint agree with it and with each other

## Main results

* `Route.nodup_signature` — no two parameters of a method have the same name
* `methods_of_generate` — the methods of the endpoints in a successful run
-/

namespace Stubwright

open Source

/-! ## The methods of a type -/

/-- The methods of a name in the types of a name. -/
def Definition.methodsNamed (definitions : List Definition) (type method : String) :
    List MethodDecl :=
  (definitions.filter (·.name.text = type)).flatMap fun definition =>
    definition.methods.filter (·.name.text = method)

/-- Where types have names of their own, and so have the methods of one of them, a method of this
type is found as the only one of its name. -/
theorem Definition.methodsNamed_eq_singleton {definitions : List Definition}
    (hnames : (definitions.map (·.name.text)).Nodup) {definition : Definition}
    (hdefinition : definition ∈ definitions)
    (hmethods : (definition.methods.map (·.name.text)).Nodup) {method : MethodDecl}
    (hmethod : method ∈ definition.methods) :
    methodsNamed definitions definition.name.text method.name.text = [method] := by
  rw [methodsNamed, Naming.filter_eq_singleton hnames hdefinition, List.flatMap_singleton,
    Naming.filter_eq_singleton hmethods hmethod]

/-! ## Parameters -/

/-- What a caller sees of a parameter: its type and its name. -/
def Source.Parameter.signature (param : Parameter) : Ty × Name := (param.type, param.name)

/-- The parameter for the body differs from all that are declared. -/
theorem Route.nodup_signature (route : Route) (h : (route.params.map (·.term)).Nodup) :
    (route.signature.params.map (·.name)).Nodup := by
  have hbody : route.bodyName ∉ route.params.map (·.term) := by
    intro hmem
    refine Naming.uniqueName_notMem Binding.bodyName.text (route.params.map (·.term.text)) ?_
    obtain ⟨param, hparam, hname⟩ := List.mem_map.1 hmem
    exact List.mem_map.2 ⟨param, hparam, congrArg Name.text hname⟩
  have hdeclared : (route.params.map RouteParam.toParameter).map (·.name) =
      route.params.map (·.term) := List.map_map
  rw [params_signature, List.map_append, hdeclared]
  cases route.body with
  | none => simpa using h
  | some type => exact h.append (List.nodup_singleton _) (List.disjoint_singleton.2 hbody)

namespace Server

/-- Putting annotations on parameters changes neither their types nor their names. -/
theorem map_signature_annotate (params : List Parameter) (lists : List (List AnnotationUse)) :
    (annotate params lists).map Parameter.signature = params.map Parameter.signature := by
  fun_induction annotate params lists with
  | case1 => rfl
  | case2 => rfl
  | case3 param params annotations rest ih => exact congrArg (param.signature :: ·) ih

/-- The parameters of a server method have the annotations of their places, and the one for the body
has none. -/
theorem map_annotations_asServer (framework : Framework) (route : Route) :
    (methodOf (route.asServer framework)).params.map (·.annotations) =
      (route.params.map fun param => Binding.paramUses framework param.location param.name) ++
        route.body.toList.map fun _ => [] :=
  map_annotations_methodOf (List.length_map _)

end Server

/-! ## The methods of an endpoint -/

/-- The methods that a client and a server have for an endpoint. To a caller they look the same: the
parameters are those of the endpoint in order, and then one for the body if there is a body. Only
the server has annotations, on the parameters of the endpoint: each has the one for its place, which
holds its name on the wire. -/
structure Endpoint.IsOffered (framework : Framework) (endpoint : Endpoint)
    (client server : MethodDecl) : Prop where
  name : client.name = server.name
  returnType : client.returnType = server.returnType
  params : client.params.map Parameter.signature = server.params.map Parameter.signature
  declared : ∃ bodyName, client.params.map Parameter.signature =
    (endpoint.parameters.map fun param => (param.route.type, param.term)) ++
      endpoint.requestBody.toList.map fun type => (type.java, bodyName)
  distinct : (client.params.map (·.name)).Nodup
  plain : ∀ param ∈ client.params, param.annotations = []
  annotated : framework = .jaxrs → server.params.map (·.annotations) =
    (endpoint.parameters.map fun param =>
      [⟨Binding.annotationName param.location, some (.text param.name)⟩]) ++
      endpoint.requestBody.toList.map fun _ => []
  bare : framework = .jdkHttp → ∀ param ∈ server.params, param.annotations = []

theorem Endpoint.isOffered (framework : Framework) {wires : List String} {endpoint : Endpoint}
    (h : endpoint.IsAccepted wires) :
    endpoint.IsOffered framework (Client.methodOf (endpoint.route.asClient framework))
      (Server.methodOf (endpoint.route.asServer framework)) where
  name := rfl
  returnType := rfl
  params := (Server.map_signature_annotate _ _).symm
  declared := by
    refine ⟨endpoint.route.bodyName, ?_⟩
    change endpoint.route.signature.params.map Parameter.signature = _
    rw [Route.params_signature, List.map_append, List.map_map, List.map_map, route, List.map_map,
      Option.toList_map, List.map_map]
    rfl
  distinct := by
    refine endpoint.route.nodup_signature ?_
    rw [route, List.map_map]
    exact h.distinct
  plain := endpoint.route.annotations_signature
  annotated := by
    rintro rfl
    rw [Server.map_annotations_asServer, route, List.map_map, Option.toList_map, List.map_map]
    rfl
  bare := by
    rintro rfl
    have hnone : ∀ uses ∈ (Server.methodOf (endpoint.route.asServer .jdkHttp)).params.map
        (·.annotations), uses = [] := by
      rw [Server.map_annotations_asServer, List.forall_mem_append, List.forall_mem_map,
        List.forall_mem_map]
      exact ⟨fun _ _ => rfl, fun _ _ => rfl⟩
    exact List.forall_mem_map.1 hnone

/-- The routes of a group have operations of their own. -/
theorem Endpoint.nodup_operations {endpoints : List Endpoint}
    (h : (endpoints.map Endpoint.key).Nodup) (group : String) :
    ((endpoints.filter (·.group = group)).map Endpoint.operation).Nodup := by
  -- Members of one group share the first half of their keys, so the second half tells them apart.
  refine List.Nodup.map_on ?_ ((List.Nodup.of_map _ h).filter _)
  intro first hfirst second hsecond hoperation
  obtain ⟨hfirst, hgroup⟩ := List.mem_filter.1 hfirst
  obtain ⟨hsecond, hgroup'⟩ := List.mem_filter.1 hsecond
  refine List.inj_on_of_nodup_map h hfirst hsecond (Prod.ext ?_ hoperation)
  exact (of_decide_eq_true hgroup).trans (of_decide_eq_true hgroup').symm

namespace Generation

/-- Among the types of all groups, the method of an endpoint is found in that of its group, and just
there. -/
theorem methodsNamed_groupedRoutes {description : ApiDescription}
    (hkeys : (description.endpoints.map Endpoint.key).Nodup)
    {type : String × List Route → Definition} {method : Route → MethodDecl}
    (hmethods : ∀ group, (type group).methods = group.2.map method)
    (hoperation : ∀ route, (method route).name = route.operation)
    (hnames : (((groupedRoutes description).map type).map (·.name.text)).Nodup)
    {endpoint : Endpoint} (hendpoint : endpoint ∈ description.endpoints) {name : String}
    (hname : ∀ routes, (type (endpoint.group, routes)).name.text = name) :
    Definition.methodsNamed ((groupedRoutes description).map type) name endpoint.operation.text =
      [method endpoint.route] := by
  let mates := description.endpoints.filter (·.group = endpoint.group)
  have hmate : endpoint ∈ mates := List.mem_filter.2 ⟨hendpoint, decide_eq_true rfl⟩
  have hgroup : (endpoint.group, mates.map Endpoint.route) ∈ groupedRoutes description :=
    List.mem_map_of_mem (List.mem_eraseDups.2 (List.mem_map_of_mem hendpoint))
  have hdistinct :
      ((type (endpoint.group, mates.map Endpoint.route)).methods.map (·.name.text)).Nodup := by
    have hoperations := (Endpoint.nodup_operations hkeys endpoint.group).map Name.text_injective
    rw [List.map_map] at hoperations
    change (type (endpoint.group, mates.map Endpoint.route)).methodNames.Nodup
    rw [methodNames_of_methods (hmethods _) hoperation, List.map_map]
    exact hoperations
  have hmember : method endpoint.route ∈
      (type (endpoint.group, mates.map Endpoint.route)).methods := by
    rw [hmethods]
    exact List.mem_map_of_mem (List.mem_map_of_mem hmate)
  have hmethod := Definition.methodsNamed_eq_singleton hnames (List.mem_map_of_mem hgroup) hdistinct
    hmember
  rwa [hname, hoperation] at hmethod

end Generation

/-- A successful run has made two methods for every endpoint: one in the client of its group, and
one in the server of its group. Each is the only method of its name there, and they agree. -/
theorem methods_of_generate {σ : Type} {description : ApiDescription} {config : GeneratorConfig}
    {log : Log} {state : σ} {result : Codegen}
    (h : ((generate description config).outcome log state).1.result = .ok result) :
    ∀ endpoint ∈ description.endpoints, ∃ client server,
      Definition.methodsNamed result.clients
        (Naming.typeName s!"{endpoint.group} {config.clientSuffix}")
        (Naming.memberName endpoint.operationId "operation") = [client] ∧
      Definition.methodsNamed result.servers
        (Naming.typeName s!"{endpoint.group} {config.serverSuffix}")
        (Naming.memberName endpoint.operationId "operation") = [server] ∧
      endpoint.IsOffered config.framework client server := by
  obtain ⟨package, -, haccepted, rfl⟩ := result_generate_eq_ok_iff.1 h
  intro endpoint hendpoint
  obtain ⟨hkeys, hall⟩ :=
    exists_extractRoutes_iff.1 (haccepted.routes (List.ne_nil_of_mem hendpoint))
  have hnames := (Generation.names_generated_perm package config description).nodup_iff.2
    haccepted.nodup_typeNames
  rw [Codegen.definitions, List.map_append, List.map_append, List.nodup_append,
    List.nodup_append] at hnames
  obtain ⟨⟨-, hclients, -⟩, hservers, -⟩ := hnames
  rw [Generation.clients_generated] at hclients ⊢
  rw [Generation.servers_generated] at hservers ⊢
  refine ⟨_, _, ?_, ?_, endpoint.isOffered config.framework (hall endpoint hendpoint)⟩
  · exact Generation.methodsNamed_groupedRoutes hkeys
      (Generation.methods_clientOf package config) (fun _ => rfl) hclients hendpoint fun _ => rfl
  · exact Generation.methodsNamed_groupedRoutes hkeys
      (Generation.methods_serverOf package config) (fun _ => rfl) hservers hendpoint fun _ => rfl

theorem methods_of_generate_bodies :
    ∃ (description : ApiDescription) (config : GeneratorConfig) (result : Codegen)
        (client server : MethodDecl),
      ((generate description config).outcome ∅ ()).1.result = .ok result ∧
      Definition.methodsNamed result.clients "PetsClient" "putPet" = [client] ∧
      Definition.methodsNamed result.servers "PetsHandler" "putPet" = [server] ∧
      client.params.map (·.name.text) = ["body", "body2", "id", "body3"] ∧
      client.params.map Parameter.signature = server.params.map Parameter.signature ∧
      server.params.map (fun param => param.annotations.map AnnotationUse.simpleName) =
        [["QueryParam"], ["HeaderParam"], ["PathParam"], []] := by
  obtain ⟨endpoint, hendpoint⟩ : ∃ endpoint : Endpoint, endpoint =
    ⟨"put pet", .put, "/pets/\x7bid\x7d", ["pets"],
      [⟨"body", .query, .string, false⟩, ⟨"Body-2", .header, .boolean, true⟩,
        ⟨"id", .path, .long, true⟩], some .string, [⟨204, none⟩]⟩ := ⟨_, rfl⟩
  obtain ⟨config, hconfig⟩ : ∃ config : GeneratorConfig, config =
    ⟨"com.example.api", .jaxrs, "Client", "Handler"⟩ := ⟨_, rfl⟩
  have haccepted : ApiDescription.IsAccepted config ⟨none, [], [endpoint]⟩ := by
    rw [hendpoint, hconfig]
    decide +kernel
  have hpackage : Grammar.qualifiedName.parse config.package =
      .ok GeneratorConfig.standardPackage := by
    rw [hconfig]
    exact GeneratorConfig.parse_package_standard
  have h : ((generate ⟨none, [], [endpoint]⟩ config).outcome ∅ ()).1.result =
      .ok (Generation.generated _ config ⟨none, [], [endpoint]⟩) :=
    result_generate_eq_ok_iff.2 ⟨_, hpackage, haccepted, rfl⟩
  obtain ⟨client, server, hclient, hserver, hoffered⟩ :=
    methods_of_generate h endpoint (List.mem_singleton.2 rfl)
  have hoperation : Naming.memberName endpoint.operationId "operation" = "putPet" := by
    rw [hendpoint]
    decide +kernel
  have hclientType : Naming.typeName s!"{endpoint.group} {config.clientSuffix}" = "PetsClient" := by
    rw [hendpoint, hconfig]
    decide +kernel
  have hserverType :
      Naming.typeName s!"{endpoint.group} {config.serverSuffix}" = "PetsHandler" := by
    rw [hendpoint, hconfig]
    decide +kernel
  rw [hclientType, hoperation] at hclient
  rw [hserverType, hoperation] at hserver
  have hparams : [client].map (fun method => method.params.map (·.name.text)) =
      [["body", "body2", "id", "body3"]] := by
    rw [← hclient, hendpoint, hconfig]
    decide +kernel
  have hannotations := congrArg (List.map (List.map AnnotationUse.simpleName))
    (hoffered.annotated (by rw [hconfig]))
  rw [List.map_map, hendpoint] at hannotations
  exact ⟨_, config, _, client, server, h, hclient, hserver, List.singleton_inj.1 hparams,
    hoffered.params, hannotations⟩

end Stubwright
