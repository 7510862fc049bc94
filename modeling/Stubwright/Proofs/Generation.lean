import Stubwright.Proofs.Concern.Groups
import Stubwright.Proofs.Generation.Contents

/-!
# Generated files are read back

Every definition of a result is read back from its printed file, whatever the schemas, properties,
values, tags, paths and suffixes are called. What a successful run answers is known from the
description, so this is shown of each definition on its own.

## Main results

* `SchemaDef.readsBack_definition` — the type of a schema is read back
* `Generation.readsBack_generated` — so is everything that is generated from a description
* `parse_canonical_of_generate` — the definitions of a result are read back
-/

namespace Stubwright

open Source

variable {depth : Nat}

/-! ## Schemas -/

/-- The type of a schema is read back, unless it is an enum without constants. -/
theorem SchemaDef.readsBack_definition (package : QualifiedName) (schemas : List SchemaDef)
    (hdepth : depth < nestingLimit) {declared : SchemaDef}
    (h : ∀ type ∈ declared.schema.typeRefs, type.nesting ≤ depth)
    (hvalues : declared.schema ≠ .enumeration []) :
    (declared.definition package schemas).ReadsBack := by
  obtain ⟨name, schema⟩ := declared
  cases schema with
  | object properties =>
    refine Model.readsBack_classOf package name (List.forall_mem_map.2 fun property hproperty => ?_)
      (List.forall_mem_map.2 fun union _ => Nat.zero_le _)
    exact Model.isVariable_field ((h _ (List.mem_map_of_mem hproperty)).trans_lt hdepth)
  | enumeration values =>
    exact Enumeration.readsBack_enumOf package name fun hnone => hvalues (congrArg _ hnone)
  | array items =>
    have hitems : items.nesting < nestingLimit := (h items (List.mem_singleton_self _)).trans_lt hdepth
    exact NamedList.readsBack_listOf package name
      (items.isClassWithin_java.nesting_toRef_le.trans_lt hitems)
  | union discriminator variants =>
    exact Union.readsBack_interfaceOf package name discriminator _

/-! ## Groups -/

namespace Route.TypesWithin

variable {route : Route}

/-- A client method returns a future, for which there is one level of nesting left. -/
theorem asClient (h : route.TypesWithin depth) (hdepth : depth < nestingLimit)
    (framework : Framework) : (route.asClient framework).TypesWithin depth :=
  ⟨h, (Binding.isClassWithin_returnType framework h.response).nesting_le.trans hdepth⟩

theorem asServer (h : route.TypesWithin depth) (hdepth : depth < nestingLimit)
    (framework : Framework) : (route.asServer framework).ReadsBack depth where
  route := h
  returnType := (Binding.isClassWithin_returnType framework h.response).nesting_le.trans hdepth
  annotations := Binding.readsBack_routeUses framework route.method route.path
  paramAnnotations := List.forall_mem_map.2 fun param _ =>
    Binding.readsBack_paramUses framework param.location param.name

end Route.TypesWithin

namespace Generation

variable (package : QualifiedName) (config : GeneratorConfig)

theorem readsBack_clientOf (hdepth : depth < nestingLimit) {group : String × List Route}
    (h : ∀ route ∈ group.2, route.TypesWithin depth) : (clientOf package config group).ReadsBack :=
  Client.readsBack_classOf package config.clientSuffix group.1
    (List.forall_mem_map.2 fun route hroute => (h route hroute).asClient hdepth config.framework)
    (Binding.isWritable_importsOf config.framework .client)

theorem readsBack_serverOf (hdepth : depth < nestingLimit) {group : String × List Route}
    (h : ∀ route ∈ group.2, route.TypesWithin depth) : (serverOf package config group).ReadsBack :=
  Server.readsBack_interfaceOf package config.serverSuffix group.1
    (List.forall_mem_map.2 fun route hroute => (h route hroute).asServer hdepth config.framework)
    (Binding.isWritable_importsOf config.framework .server)

/-! ## Whole runs -/

/-- Everything that is generated from a description is read back, when its type references leave one
level of nesting for the types that generated code adds. -/
theorem readsBack_generated (hdepth : depth < nestingLimit) {description : ApiDescription}
    (h : ∀ type ∈ description.typeRefs, type.nesting ≤ depth)
    (hvalues : ∀ declared ∈ description.schemas, declared.schema ≠ .enumeration []) :
    (generated package config description).ReadsBack := by
  rw [ApiDescription.typeRefs, List.forall_mem_append, List.forall_mem_flatMap,
    List.forall_mem_flatMap] at h
  obtain ⟨hschemas, hendpoints⟩ := h
  have hroutes : ∀ group ∈ groupedRoutes description, ∀ route ∈ group.2,
      route.TypesWithin depth := by
    refine List.forall_mem_map.2 fun group _ => List.forall_mem_map.2 fun endpoint hendpoint => ?_
    exact endpoint.typesWithin_route hdepth (hendpoints endpoint (List.mem_of_mem_filter hendpoint))
  unfold Codegen.ReadsBack Codegen.definitions
  rw [support_generated, clients_generated, servers_generated]
  simp only [List.forall_mem_append, List.forall_mem_map]
  refine ⟨⟨⟨fun declared hdeclared => ?_, ?_⟩, fun group hgroup => ?_⟩, fun group hgroup => ?_⟩
  · exact declared.readsBack_definition package _ hdepth (hschemas declared hdeclared)
      (hvalues declared hdeclared)
  · split
    · exact List.forall_mem_nil _
    · exact List.forall_mem_singleton.2 (Binding.readsBack_transport package config.framework)
  · exact readsBack_clientOf package config hdepth (hroutes group hgroup)
  · exact readsBack_serverOf package config hdepth (hroutes group hgroup)

end Generation

/-- Every definition that is generated from a description is read back from its printed file: the
types of the description nest within the limit, and whatever its names hold is printed as a name or
inside of a text literal. -/
theorem parse_canonical_of_generate {σ : Type} {description : ApiDescription}
    {config : GeneratorConfig} {log : Log} {state : σ} {result : Codegen}
    (hnesting : ∀ type ∈ description.typeRefs, type.nesting ≤ 120)
    (h : ((generate description config).outcome log state).1.result = .ok result) :
    ∀ definition ∈ result.definitions,
      Grammar.compilationUnit.parse (canonical definition.file) = .ok definition.file := by
  obtain ⟨package, -, haccepted, rfl⟩ := result_generate_eq_ok_iff.1 h
  exact Generation.readsBack_generated package config (by decide) hnesting haccepted.values

theorem parse_canonical_of_generate_colours :
    ∃ (description : ApiDescription) (result : Codegen),
      (∀ type ∈ description.typeRefs, type.nesting ≤ 120) ∧
        ((generate description .standard).outcome ∅ ()).1.result = .ok result ∧
          result.definitions.map (·.name.text) = ["Colour", "ColourList"] ∧
            ∀ definition ∈ result.definitions,
              Grammar.compilationUnit.parse (canonical definition.file) = .ok definition.file := by
  obtain ⟨description, hdescription⟩ : ∃ description : ApiDescription, description =
    ⟨none, [⟨"Colour", .enumeration ["\"", "größe"]⟩, ⟨"colour list", .array (.map (.ref "Colour"))⟩],
      []⟩ := ⟨_, rfl⟩
  have hnesting : ∀ type ∈ description.typeRefs, type.nesting ≤ 120 := by
    rw [hdescription]
    decide
  have haccepted : description.IsAccepted .standard := by
    rw [hdescription]
    decide +kernel
  have h : ((generate description .standard).outcome ∅ ()).1.result = _ :=
    result_generate_standard haccepted
  refine ⟨description, _, hnesting, h, ?_, parse_canonical_of_generate hnesting h⟩
  rw [hdescription]
  decide +kernel

end Stubwright
