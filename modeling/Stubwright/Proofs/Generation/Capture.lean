import Stubwright.Proofs.Generation.Files

/-!
# Captured names

Generated files use some simple names for types of other packages: those of `java.lang`, `Map`, and
the annotations of the framework. A generated type with such a name captures it, since a type of the
package comes before whatever is imported on demand.

No schema takes one of the implicit names. The types of groups are not checked against them, and no
type is checked against the annotations of the framework. Which names are captured can be told from
the description: those that a group is given by its suffixes, and those of annotations that the
endpoints bring with them.

## Main definitions

* `Definition.annotationNames`, `Codegen.annotationNames` — the annotations in generated files
* `Endpoint.annotationNames` — the annotations that an endpoint brings with it
* `Codegen.CapturesNothing` — no type has a name that is used for something else

## Main results

* `Generation.mem_annotationNames_generated` — which annotations occur in generated files
* `capturesNothing_iff_of_generate` — when a successful run captures nothing
* `not_capturesNothing_of_generate` — a run that captures two names
-/

namespace Stubwright

open Source

/-! ## Annotations -/

/-- The annotations of a member, those of its parameters among them. -/
def Source.Member.annotations : Source.Member → List AnnotationUse
  | .field decl => decl.annotations
  | .constructor decl => decl.annotations ++ decl.params.flatMap (·.annotations)
  | .method decl => decl.annotations ++ decl.params.flatMap (·.annotations)

/-- The annotations of a type and of its members. -/
def Source.TypeDecl.allAnnotations (decl : TypeDecl) : List AnnotationUse :=
  decl.annotations ++ decl.members.flatMap Member.annotations

/-- The simple name of an annotation. -/
def Source.AnnotationUse.simpleName (use : AnnotationUse) : String := use.name.name.text

/-- The simple names of the annotations in the file of a definition. -/
def Definition.annotationNames (definition : Definition) : List String :=
  (definition.file.types.flatMap TypeDecl.allAnnotations).map AnnotationUse.simpleName

/-- The simple names of the annotations in all files of a result. -/
def Codegen.annotationNames (result : Codegen) : List String :=
  result.definitions.flatMap Definition.annotationNames

/-- The simple names of the annotations that an endpoint brings with it: those for its HTTP method,
for its path and for the locations of its parameters. -/
def Endpoint.annotationNames (framework : Framework) (endpoint : Endpoint) : List String :=
  match framework with
  | .jdkHttp => []
  | .jaxrs => endpoint.method.verb :: "Path" ::
      endpoint.parameters.map fun param => Binding.paramAnnotationClass param.location

/-- No type of a result is called like something else that its files use by a simple name: neither
like an implicit type, nor like an annotation in one of the files. -/
def Codegen.CapturesNothing (result : Codegen) : Prop :=
  ∀ definition ∈ result.definitions,
    definition.name.text ∉ implicitTypes ∧ definition.name.text ∉ result.annotationNames

@[simp] theorem Definition.annotationNames_ofDecl (package : QualifiedName) (imports : List Import)
    (decl : TypeDecl) : (Definition.ofDecl package imports decl).annotationNames =
      decl.allAnnotations.map AnnotationUse.simpleName := by
  simp [annotationNames, ofDecl, CompilationUnit.single]

/-- A type without annotations whose members have none. -/
theorem Source.TypeDecl.allAnnotations_publicType {kind : TypeDeclKind} {name : Name}
    {members : List Source.Member} (h : ∀ member ∈ members, member.annotations = []) :
    (TypeDecl.publicType kind name members).allAnnotations = [] :=
  List.flatMap_eq_nil_iff.2 h

/-! ## The annotations of schemas -/

private theorem Model.annotationNames_classOf (package : QualifiedName) (name : String)
    (fields : List ModelField) (interfaces : List ClassType) :
    (classOf package name fields interfaces).annotationNames = [] := by
  have hmembers : ∀ member ∈ (classDecl (JavaName.typeOf name) fields
      (fields.map fun field => JavaName.getterOf field.term) interfaces).members,
      member.annotations = [] := by
    simp only [classDecl, TypeDecl.publicType, List.forall_mem_append, List.forall_mem_cons,
      List.forall_mem_map]
    refine ⟨fun _ _ => rfl, ?_, fun _ _ => rfl⟩
    exact List.flatMap_eq_nil_iff.2 (List.forall_mem_map.2 fun _ _ => rfl)
  rw [classOf, Definition.annotationNames_ofDecl]
  exact List.map_eq_nil_iff.2 (List.flatMap_eq_nil_iff.2 hmembers)

theorem Enumeration.annotationNames_enumOf (package : QualifiedName) (name : String)
    (values : List String) : (enumOf package name values).annotationNames = ["Override"] := rfl

theorem NamedList.annotationNames_listOf (package : QualifiedName) (name : String) (items : Ty) :
    (listOf package name items).annotationNames = [] := rfl

private theorem Union.annotationNames_interfaceOf (package : QualifiedName)
    (name discriminator : String)
    (variants : List UnionVariant) :
    (interfaceOf package name discriminator variants).annotationNames = [] := by
  rw [interfaceOf, Definition.annotationNames_ofDecl, interfaceDecl,
    TypeDecl.allAnnotations_publicType, List.map_nil]
  simp only [constantsOf, List.forall_mem_append, List.forall_mem_map, List.forall_mem_singleton]
  exact ⟨fun _ _ => rfl, rfl⟩

/-- The type of a schema has annotations only where it is an enum. -/
theorem SchemaDef.mem_annotationNames_definition {package : QualifiedName}
    {schemas : List SchemaDef} {declared : SchemaDef} {name : String} :
    name ∈ (declared.definition package schemas).annotationNames ↔
      name = "Override" ∧ ∃ values, declared.schema = .enumeration values := by
  obtain ⟨wire, schema⟩ := declared
  cases schema <;>
    simp [definition, Model.annotationNames_classOf, Enumeration.annotationNames_enumOf,
      NamedList.annotationNames_listOf, Union.annotationNames_interfaceOf]

/-! ## The annotations of groups -/

/-- The parameters of a signature are those that are declared, and one for the body if there is
one. -/
theorem Route.params_signature (route : Route) :
    route.signature.params = route.params.map RouteParam.toParameter ++
      route.body.toList.map fun type => .plain type route.bodyName := by
  unfold signature
  cases route.body with
  | none => exact (List.append_nil _).symm
  | some type => rfl

/-- None of the parameters of a signature has annotations. -/
theorem Route.annotations_signature (route : Route) :
    ∀ param ∈ route.signature.params, param.annotations = [] := by
  rw [params_signature, List.forall_mem_append, List.forall_mem_map, List.forall_mem_map]
  exact ⟨fun _ _ => rfl, fun _ _ => rfl⟩

private theorem Client.annotationNames_classOf (package : QualifiedName) (suffix group : String)
    (routes : List ClientRoute) (imports : List Import) :
    (classOf package suffix group routes imports).annotationNames = [] := by
  rw [classOf, Definition.annotationNames_ofDecl, classDecl, TypeDecl.allAnnotations_publicType,
    List.map_nil]
  simp only [List.forall_mem_cons, List.forall_mem_map]
  exact ⟨rfl, rfl, fun client _ => List.flatMap_eq_nil_iff.2 client.route.annotations_signature⟩

namespace Server

/-- Each parameter gets its list, and those behind the last list keep theirs. -/
theorem map_annotations_annotate {declared : List Parameter}
    {lists : List (List AnnotationUse)} (h : lists.length = declared.length)
    (others : List Parameter) :
    (annotate (declared ++ others) lists).map (·.annotations) =
      lists ++ others.map (·.annotations) := by
  induction declared generalizing lists with
  | nil =>
    obtain rfl := List.length_eq_zero_iff.1 h
    cases others <;> rfl
  | cons first rest ih =>
    obtain ⟨annotations, lists, rfl⟩ := List.exists_cons_of_length_eq_add_one h
    simp [annotate, ih (Nat.succ.inj h)]

/-- The parameters of a method have the lists that were made for them, and the one for the body has
no annotations. -/
theorem map_annotations_methodOf {server : ServerRoute}
    (h : server.paramAnnotations.length = server.route.params.length) :
    (methodOf server).params.map (·.annotations) =
      server.paramAnnotations ++ server.route.body.toList.map fun _ => [] := by
  have hlength : server.paramAnnotations.length =
      (server.route.params.map RouteParam.toParameter).length := h.trans (List.length_map _).symm
  rw [methodOf, Route.params_signature, map_annotations_annotate hlength, List.map_map]
  rfl

/-- The annotations of a method are those of its route and those of the parameters of the route. -/
theorem annotations_methodOf {server : ServerRoute}
    (h : server.paramAnnotations.length = server.route.params.length) :
    (Source.Member.method (methodOf server)).annotations =
      server.annotations ++ server.paramAnnotations.flatten := by
  have hbody : (server.route.body.toList.map fun _ => ([] : List AnnotationUse)).flatten = [] := by
    cases server.route.body <;> rfl
  rw [Member.annotations, List.flatMap_def, map_annotations_methodOf h, List.flatten_append, hbody,
    List.append_nil]
  rfl

end Server

/-- An endpoint brings its annotations to the server of its group. -/
theorem Endpoint.simpleNames_asServer (framework : Framework) (endpoint : Endpoint) :
    (Source.Member.method (Server.methodOf (endpoint.route.asServer framework))).annotations.map
      AnnotationUse.simpleName = endpoint.annotationNames framework := by
  have hverb : (Binding.verbName endpoint.method).name.text = endpoint.method.verb := by
    cases endpoint.method <;> rfl
  have hlocation : ∀ location, (Binding.annotationName location).name.text =
      Binding.paramAnnotationClass location := by
    intro location
    cases location <;> rfl
  rw [Server.annotations_methodOf (List.length_map _)]
  cases framework with
  | jdkHttp => simp [Route.asServer, Binding.routeUses, Binding.paramUses, annotationNames]
  | jaxrs =>
    have hparams : (endpoint.route.params.map fun param =>
        Binding.paramUses .jaxrs param.location param.name).flatten.map AnnotationUse.simpleName =
          endpoint.parameters.map fun param => Binding.paramAnnotationClass param.location := by
      rw [← List.flatMap_def, List.map_flatMap, ← List.flatMap_pure_eq_map, route,
        List.flatMap_map]
      exact List.flatMap_congr fun param _ => congrArg ([·]) (hlocation param.location)
    rw [List.map_append, annotationNames]
    exact congrArg₂ (· :: "Path" :: ·) hverb hparams

namespace Generation

variable {package : QualifiedName} {config : GeneratorConfig} {description : ApiDescription}

private theorem mem_annotationNames_serverOf {group : String} {endpoints : List Endpoint}
    {name : String} :
    name ∈ (serverOf package config (group, endpoints.map Endpoint.route)).annotationNames ↔
      ∃ endpoint ∈ endpoints, name ∈ endpoint.annotationNames config.framework := by
  rw [serverOf, Server.interfaceOf, Definition.annotationNames_ofDecl]
  simp only [TypeDecl.allAnnotations, TypeDecl.publicType, List.nil_append, List.map_map,
    List.flatMap_map, List.map_flatMap, List.mem_flatMap, Function.comp_apply,
    Endpoint.simpleNames_asServer]

/-- Among the types of schemas and the transport, only enums have annotations. -/
theorem mem_annotationNames_support {name : String} :
    name ∈ (generated package config description).support.flatMap Definition.annotationNames ↔
      name = "Override" ∧ ∃ declared ∈ description.schemas, ∃ values,
        declared.schema = .enumeration values := by
  have htransport : (if description.endpoints = [] then []
      else [Binding.transport package config.framework]).flatMap Definition.annotationNames =
        [] := by
    split <;> rfl
  rw [support_generated, List.flatMap_append, htransport, List.append_nil, List.flatMap_map,
    List.mem_flatMap]
  simp only [SchemaDef.mem_annotationNames_definition]
  tauto

/-- Clients have no annotations. -/
theorem annotationNames_clients :
    (generated package config description).clients.flatMap Definition.annotationNames = [] := by
  rw [clients_generated, List.flatMap_map]
  exact List.flatMap_eq_nil_iff.2 fun group _ => Client.annotationNames_classOf ..

/-- Every endpoint belongs to one of the groups, so nothing of what it brings is lost. -/
theorem mem_annotationNames_servers {name : String} :
    name ∈ (generated package config description).servers.flatMap Definition.annotationNames ↔
      ∃ endpoint ∈ description.endpoints, name ∈ endpoint.annotationNames config.framework := by
  rw [servers_generated, groupedRoutes, List.map_map, List.flatMap_map, List.mem_flatMap]
  simp only [Function.comp_apply, mem_annotationNames_serverOf, List.mem_filter,
    decide_eq_true_eq]
  constructor
  · rintro ⟨group, -, endpoint, ⟨hendpoint, -⟩, hname⟩
    exact ⟨endpoint, hendpoint, hname⟩
  · rintro ⟨endpoint, hendpoint, hname⟩
    exact ⟨endpoint.group, List.mem_eraseDups.2 (List.mem_map_of_mem hendpoint), endpoint,
      ⟨hendpoint, rfl⟩, hname⟩

/-- The annotations that occur in generated files: that of enums, and those that the endpoints bring
with them. -/
theorem mem_annotationNames_generated {name : String} :
    name ∈ (generated package config description).annotationNames ↔
      (name = "Override" ∧ ∃ declared ∈ description.schemas, ∃ values,
        declared.schema = .enumeration values) ∨
      ∃ endpoint ∈ description.endpoints, name ∈ endpoint.annotationNames config.framework := by
  rw [Codegen.annotationNames, Codegen.definitions, List.flatMap_append, List.flatMap_append,
    annotationNames_clients, List.append_nil, List.mem_append, mem_annotationNames_support,
    mem_annotationNames_servers]

end Generation

/-! ## Captured names -/

/-- The transport is called like no annotation. -/
theorem Endpoint.transport_notMem_annotationNames (framework : Framework) (endpoint : Endpoint) :
    "ApiTransport" ∉ endpoint.annotationNames framework := by
  have hverb : "ApiTransport" ≠ endpoint.method.verb := by
    cases endpoint.method <;> decide
  have hlocation : ∀ location, Binding.paramAnnotationClass location ≠ "ApiTransport" := by
    intro location
    cases location <;> decide
  cases framework with
  | jdkHttp => exact List.not_mem_nil
  | jaxrs => simp [annotationNames, hverb, hlocation]

section

variable {config : GeneratorConfig} {description : ApiDescription}

/-- What holds of the transport holds of all types when it holds of those of schemas and groups. -/
theorem ApiDescription.forall_mem_typeNames {P : String → Prop} (h : P "ApiTransport") :
    (∀ type ∈ description.typeNames config, P type) ↔
      ∀ type ∈ description.schemaTypes ++
        (Endpoint.groups description.endpoints).flatMap config.groupTypes, P type := by
  rw [typeNames, List.forall_mem_append, List.forall_mem_append]
  refine and_congr_right fun _ => ?_
  split
  · rename_i hnone
    rw [hnone]
    exact iff_of_true (List.forall_mem_nil P) (List.forall_mem_nil P)
  · rw [GeneratorConfig.endpointTypes, List.forall_mem_cons]
    exact and_iff_right h

private theorem Generation.capturesNothing_generated {package : QualifiedName}
    (hfree : ∀ type ∈ description.schemaTypes, type ∉ implicitTypes) :
    (generated package config description).CapturesNothing ↔
      (∀ type ∈ (Endpoint.groups description.endpoints).flatMap config.groupTypes,
        type ∉ implicitTypes) ∧
      ∀ type ∈ description.schemaTypes ++
        (Endpoint.groups description.endpoints).flatMap config.groupTypes,
        ∀ endpoint ∈ description.endpoints, type ∉ endpoint.annotationNames config.framework := by
  -- The annotation of enums is an implicit type itself, so it makes no condition of its own.
  have hname : ∀ type, type ∉ implicitTypes ∧
      type ∉ (generated package config description).annotationNames ↔
        type ∉ implicitTypes ∧
          ∀ endpoint ∈ description.endpoints, type ∉ endpoint.annotationNames config.framework := by
    intro type
    refine and_congr_right fun himplicit => ?_
    have hoverride : type ≠ "Override" := by
      rintro rfl
      exact himplicit (by decide)
    simp [mem_annotationNames_generated, hoverride]
  have hall : (generated package config description).CapturesNothing ↔
      ∀ type ∈ description.typeNames config, type ∉ implicitTypes ∧
        ∀ endpoint ∈ description.endpoints, type ∉ endpoint.annotationNames config.framework := by
    simp only [Codegen.CapturesNothing, hname, ← (names_generated_perm package config
      description).mem_iff, List.forall_mem_map]
  rw [hall, ApiDescription.forall_mem_typeNames ⟨by decide, fun endpoint _ =>
    endpoint.transport_notMem_annotationNames config.framework⟩, forall₂_and]
  exact and_congr_left' (List.forall_mem_append.trans (and_iff_right hfree))

variable {σ : Type} {log : Log} {state : σ} {result : Codegen}

/-- In a successful run no schema takes the name of an implicit type. Nothing at all is captured
exactly when the suffixes give no group the name of an implicit type, and no schema or group is
called like an annotation that an endpoint brings with it. -/
theorem capturesNothing_iff_of_generate
    (h : ((generate description config).outcome log state).1.result = .ok result) :
    (∀ definition ∈ result.support, definition.name.text ∉ implicitTypes) ∧
      (result.CapturesNothing ↔
        (∀ type ∈ (Endpoint.groups description.endpoints).flatMap config.groupTypes,
          type ∉ implicitTypes) ∧
        ∀ type ∈ description.schemaTypes ++
          (Endpoint.groups description.endpoints).flatMap config.groupTypes,
          ∀ endpoint ∈ description.endpoints,
            type ∉ endpoint.annotationNames config.framework) := by
  obtain ⟨package, -, haccepted, rfl⟩ := result_generate_eq_ok_iff.1 h
  refine ⟨?_, Generation.capturesNothing_generated haccepted.free⟩
  rw [Generation.support_generated, List.forall_mem_append, List.forall_mem_map]
  refine ⟨fun declared hdeclared => ?_, ?_⟩
  · rw [SchemaDef.name_definition]
    exact haccepted.free _ (List.mem_map_of_mem hdeclared)
  · split
    · exact nofun
    · refine List.forall_mem_singleton.2 ?_
      show "ApiTransport" ∉ implicitTypes
      decide

end

theorem capturesNothing_of_generate_sizes :
    ∃ (description : ApiDescription) (result : Codegen),
      ((generate description .standard).outcome ∅ ()).1.result = .ok result ∧
        result.annotationNames ≠ [] ∧
          (∀ definition ∈ result.support, definition.name.text ∉ implicitTypes) ∧
            result.CapturesNothing := by
  obtain ⟨description, hdescription⟩ : ∃ description : ApiDescription, description =
    ⟨none, [⟨"size", .enumeration ["s", "m"]⟩],
      [⟨"list", .get, "/sizes", ["string"], [], none, []⟩]⟩ := ⟨_, rfl⟩
  have haccepted : description.IsAccepted .standard := by
    rw [hdescription]
    decide +kernel
  have h : ((generate description .standard).outcome ∅ ()).1.result = _ :=
    result_generate_standard haccepted
  obtain ⟨hsupport, hcaptures⟩ := capturesNothing_iff_of_generate h
  refine ⟨description, _, h, ?_, hsupport, hcaptures.2 ?_⟩
  · rw [hdescription]
    decide +kernel
  · rw [hdescription]
    decide +kernel

/-- Without a suffix, the client of a group becomes an implicit type; and a schema takes the name of
an annotation that the server of the group carries. -/
theorem not_capturesNothing_of_generate :
    ∃ result, ((generate
        ⟨none, [⟨"path", .object []⟩], [⟨"list", .get, "/strings", ["string"], [], none, []⟩]⟩
        ⟨"com.example.api", .jaxrs, "", "Handler"⟩).outcome ∅ ()).1.result = .ok result ∧
      "String" ∈ result.clients.map (·.name.text) ∧ "String" ∈ implicitTypes ∧
      "Path" ∈ result.support.map (·.name.text) ∧ "Path" ∈ result.annotationNames ∧
        ¬ result.CapturesNothing := by
  obtain ⟨description, hdescription⟩ : ∃ description : ApiDescription, description =
    ⟨none, [⟨"path", .object []⟩], [⟨"list", .get, "/strings", ["string"], [], none, []⟩]⟩ :=
      ⟨_, rfl⟩
  obtain ⟨config, hconfig⟩ : ∃ config : GeneratorConfig, config =
    ⟨"com.example.api", .jaxrs, "", "Handler"⟩ := ⟨_, rfl⟩
  rw [← hdescription, ← hconfig]
  have haccepted : description.IsAccepted config := by
    rw [hdescription, hconfig]
    decide +kernel
  have hpackage : Grammar.qualifiedName.parse config.package =
      .ok GeneratorConfig.standardPackage := by
    rw [hconfig]
    exact GeneratorConfig.parse_package_standard
  have h : ((generate description config).outcome ∅ ()).1.result =
      .ok (Generation.generated _ config description) :=
    result_generate_eq_ok_iff.2 ⟨_, hpackage, haccepted, rfl⟩
  have hclient : "String" ∈
      (Generation.generated GeneratorConfig.standardPackage config description).clients.map
        (·.name.text) := by
    rw [hdescription, hconfig]
    decide +kernel
  refine ⟨_, h, hclient, by decide, ?_, ?_, fun hcaptures => ?_⟩
  · rw [hdescription, hconfig]
    decide +kernel
  · rw [hdescription, hconfig]
    decide +kernel
  · obtain ⟨definition, hdefinition, hname⟩ := List.mem_map.1 hclient
    exact (hcaptures definition (List.mem_append_left _ (List.mem_append_right _ hdefinition))).1
      (by rw [hname]; decide)

end Stubwright
