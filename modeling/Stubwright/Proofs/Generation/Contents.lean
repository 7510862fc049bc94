import Stubwright.Proofs.Generation.Acceptance

/-!
# The contents of a result

A result holds a type for every schema and two types for every group of endpoints, and nothing else
but the transport. Each kind is in order of the description, and so are the methods of a group.

## Main definitions

* `Definition.methods`, `Definition.methodNames` — the methods that a generated file declares
* `ApiDescription.operations` — the methods that the endpoints of a group ask for

## Main results

* `contents_of_generate` — what a successful run has generated
-/

namespace Stubwright

open Source

/-! ## Methods -/

/-- The methods among the members of a type. -/
def Source.TypeDecl.methods (decl : TypeDecl) : List MethodDecl :=
  decl.members.filterMap fun
    | .method method => some method
    | .field _ | .constructor _ => none

/-- The methods that a file declares, in order. -/
def Definition.methods (definition : Definition) : List MethodDecl :=
  definition.file.types.flatMap TypeDecl.methods

/-- The names of the methods that a file declares, in order. -/
def Definition.methodNames (definition : Definition) : List String :=
  (definition.file.types.flatMap TypeDecl.methods).map (·.name.text)

/-- The Java names of the operations of a group, one for each of its endpoints. -/
def ApiDescription.operations (description : ApiDescription) (group : String) : List String :=
  (description.endpoints.filter (·.group = group)).map fun endpoint =>
    Naming.memberName endpoint.operationId "operation"

/-- The members that were made of methods are nothing but these methods. -/
theorem filterMap_method (methods : List MethodDecl) :
    ((methods.map Member.method).filterMap fun
      | .method method => some method
      | .field _ | .constructor _ => none) = methods := by
  rw [List.filterMap_map]
  exact List.filterMap_some

@[simp] theorem Definition.methods_ofDecl (package : QualifiedName) (imports : List Import)
    (decl : TypeDecl) : (Definition.ofDecl package imports decl).methods = decl.methods :=
  List.append_nil _

/-- The methods of a type that declares them behind all other members. -/
theorem Source.TypeDecl.methods_of_members {decl : TypeDecl} (others : List Source.Member)
    (declared : List MethodDecl) (hmembers : decl.members = others ++ declared.map .method)
    (hothers : ∀ member ∈ others, ∀ method, member ≠ .method method) :
    decl.methods = declared := by
  rw [methods, hmembers, List.filterMap_append, List.filterMap_eq_nil_iff.2, List.nil_append]
  · exact filterMap_method declared
  · intro member hmember
    cases member with
    | method method => exact absurd rfl (hothers _ hmember method)
    | field decl => rfl
    | constructor decl => rfl

/-! ## The types of schemas and groups -/

@[simp] theorem SchemaDef.name_definition (package : QualifiedName) (schemas : List SchemaDef)
    (declared : SchemaDef) :
    (declared.definition package schemas).name = JavaName.typeOf declared.name := by
  obtain ⟨name, schema⟩ := declared
  cases schema <;> rfl

/-- The methods of a client are those of its routes. -/
theorem Client.methods_classOf (package : QualifiedName) (suffix group : String)
    (routes : List ClientRoute) (imports : List Import) :
    (classOf package suffix group routes imports).methods = routes.map methodOf := by
  rw [classOf, Definition.methods_ofDecl]
  exact TypeDecl.methods_of_members [_, _] _ rfl (by simp)

/-- The methods of a server are those of its routes. -/
theorem Server.methods_interfaceOf (package : QualifiedName) (suffix group : String)
    (routes : List ServerRoute) (imports : List Import) :
    (interfaceOf package suffix group routes imports).methods = routes.map methodOf := by
  rw [interfaceOf, Definition.methods_ofDecl]
  exact TypeDecl.methods_of_members [] _ rfl (List.forall_mem_nil _)

namespace Generation

variable (package : QualifiedName) (config : GeneratorConfig)

/-- A client has a method for each route of its group, in order. -/
theorem methods_clientOf (group : String × List Route) : (clientOf package config group).methods =
    group.2.map fun route => Client.methodOf (route.asClient config.framework) :=
  (Client.methods_classOf ..).trans List.map_map

/-- A server has a method for each route of its group, in order. -/
theorem methods_serverOf (group : String × List Route) : (serverOf package config group).methods =
    group.2.map fun route => Server.methodOf (route.asServer config.framework) :=
  (Server.methods_interfaceOf ..).trans List.map_map

/-- The methods of a type are called like the operations that they are made of. -/
theorem methodNames_of_methods {definition : Definition} {routes : List Route}
    {method : Route → MethodDecl} (h : definition.methods = routes.map method)
    (hname : ∀ route, (method route).name = route.operation) :
    definition.methodNames = routes.map (·.operation.text) := by
  change definition.methods.map (·.name.text) = _
  rw [h, List.map_map]
  exact List.map_congr_left fun route _ => congrArg Name.text (hname route)

theorem methodNames_clientOf (group : String × List Route) :
    (clientOf package config group).methodNames = group.2.map (·.operation.text) :=
  methodNames_of_methods (methods_clientOf package config group) fun _ => rfl

theorem methodNames_serverOf (group : String × List Route) :
    (serverOf package config group).methodNames = group.2.map (·.operation.text) :=
  methodNames_of_methods (methods_serverOf package config group) fun _ => rfl

/-! ## Everything that is generated -/

variable (description : ApiDescription)

/-- The support types are those of the schemas, and the transport if there are endpoints. -/
theorem support_generated : (generated package config description).support =
    description.schemas.map (SchemaDef.definition package description.schemas) ++
      if description.endpoints = [] then [] else [Binding.transport package config.framework] := by
  unfold generated
  split
  · exact (List.append_nil _).symm
  · rfl

/-- The routes of a description by group. -/
def groupedRoutes : List (String × List Route) :=
  (Endpoint.groups description.endpoints).map fun group =>
    (group, (description.endpoints.filter (·.group = group)).map Endpoint.route)

/-- A type for every group, named for the group, with the operations of the group as its methods. -/
theorem map_groupedRoutes (type : String × List Route → Definition) (name : String → String)
    (hname : ∀ group, (type group).name.text = name group.1)
    (hmethods : ∀ group, (type group).methodNames = group.2.map (·.operation.text)) :
    ((groupedRoutes description).map type).map (fun found => (found.name.text, found.methodNames)) =
      (Endpoint.groups description.endpoints).map fun group =>
        (name group, description.operations group) := by
  rw [groupedRoutes, List.map_map, List.map_map]
  refine List.map_congr_left fun group _ => Prod.ext (hname _) ((hmethods _).trans ?_)
  rw [List.map_map]
  rfl

/-- There is a client for each group of routes, in order. -/
theorem clients_generated : (generated package config description).clients =
    (groupedRoutes description).map (clientOf package config) := by
  rw [groupedRoutes, ← groupByClient_routes]
  unfold generated
  split
  · rename_i h
    rw [h]
    rfl
  · rfl

/-- There is a server for each group of routes, in order. -/
theorem servers_generated : (generated package config description).servers =
    (groupedRoutes description).map (serverOf package config) := by
  rw [groupedRoutes, ← groupByClient_routes]
  unfold generated
  split
  · rename_i h
    rw [h]
    rfl
  · rfl

end Generation

/-- A successful run has generated the type of every schema in order, and then the transport if
there are endpoints; and for every group of endpoints in order of first appearance, a client and a
server with the operations of the group in order. -/
theorem contents_of_generate {σ : Type} {description : ApiDescription} {config : GeneratorConfig}
    {log : Log} {state : σ} {result : Codegen}
    (h : ((generate description config).outcome log state).1.result = .ok result) :
    result.support.map (·.name.text) = description.schemaTypes ++
        (if description.endpoints = [] then [] else ["ApiTransport"]) ∧
      (result.clients.map fun client => (client.name.text, client.methodNames)) =
        ((Endpoint.groups description.endpoints).map fun group =>
          (Naming.typeName s!"{group} {config.clientSuffix}", description.operations group)) ∧
      (result.servers.map fun server => (server.name.text, server.methodNames)) =
        ((Endpoint.groups description.endpoints).map fun group =>
          (Naming.typeName s!"{group} {config.serverSuffix}", description.operations group)) := by
  obtain ⟨package, -, -, rfl⟩ := result_generate_eq_ok_iff.1 h
  refine ⟨?_, ?_, ?_⟩
  · rw [Generation.support_generated, List.map_append, List.map_map]
    congr 1
    · simp [Function.comp_def, ApiDescription.schemaTypes]
    · split <;> rfl
  · rw [Generation.clients_generated]
    exact Generation.map_groupedRoutes description _ _ (fun _ => rfl)
      (Generation.methodNames_clientOf package config)
  · rw [Generation.servers_generated]
    exact Generation.map_groupedRoutes description _ _ (fun _ => rfl)
      (Generation.methodNames_serverOf package config)

theorem contents_of_generate_pets :
    ∃ (description : ApiDescription) (result : Codegen),
      ((generate description .standard).outcome ∅ ()).1.result = .ok result ∧
        result.support.map (·.name.text) = ["Pet", "Owner", "ApiTransport"] ∧
          (result.clients.map fun client => (client.name.text, client.methodNames)) =
            [("ToysClient", ["listToys", "buyToy"]), ("DefaultClient", ["ping"])] ∧
          (result.servers.map fun server => (server.name.text, server.methodNames)) =
            [("ToysHandler", ["listToys", "buyToy"]), ("DefaultHandler", ["ping"])] := by
  obtain ⟨description, hdescription⟩ : ∃ description : ApiDescription, description =
    ⟨none, [⟨"pet", .object [⟨"name", .string, false⟩]⟩, ⟨"owner", .array (.ref "pet")⟩],
      [ ⟨"list toys", .get, "/toys", ["toys"], [], none, [⟨200, some (.array .string)⟩]⟩,
        ⟨"ping", .get, "/ping", [], [], none, []⟩,
        ⟨"buy toy", .post, "/toys/\x7bid\x7d", ["toys", "shop"],
          [⟨"id", .path, .long, true⟩], some (.ref "pet"), []⟩]⟩ := ⟨_, rfl⟩
  have haccepted : description.IsAccepted .standard := by
    rw [hdescription]
    decide +kernel
  have h : ((generate description .standard).outcome ∅ ()).1.result = _ :=
    result_generate_standard haccepted
  obtain ⟨hsupport, hclients, hservers⟩ := contents_of_generate h
  refine ⟨description, _, h, hsupport.trans ?_, hclients.trans ?_, hservers.trans ?_⟩
  all_goals
    rw [hdescription]
    decide +kernel

end Stubwright
