import Stubwright.Proofs.Concern.Resolution
import Stubwright.Proofs.Generation.Endpoints

/-!
# Accepted descriptions

Whether a run succeeds can be told from the description and the configuration alone, and so can
everything that it generates. A run that fails does so because of its input.

## Main definitions

* `Generation.generated` — everything that is generated from a description
* `ApiDescription.IsAccepted` — the descriptions from which something is generated

## Main results

* `Generation.drive_decides`, `generate_decides` — the decision of a whole run
* `generate_succeeds_iff` — the accepted descriptions are those for which a run succeeds
-/

namespace Stubwright

open Source

/-! ## Requirements -/

/-- This generator is of a version that a requirement admits. -/
def Requirement.IsMet (text : String) : Prop :=
  ∃ requirement, Requirement.parse? text = some requirement ∧
    requirement.admits generatorVersion = true

theorem checkRequirement_eq_ok_iff {text : String} :
    checkRequirement text = .ok () ↔ Requirement.IsMet text := by
  unfold checkRequirement Requirement.IsMet
  cases Requirement.parse? text with
  | none => simp
  | some requirement => cases h : requirement.admits generatorVersion <;> simp [h]

instance (text : String) : Decidable (Requirement.IsMet text) :=
  decidable_of_iff _ checkRequirement_eq_ok_iff

theorem exists_of_checkRequirement_ne_ok {text : String} (h : checkRequirement text ≠ .ok ()) :
    ∃ message, checkRequirement text = .error (.user message) ∧ InOwnWords message := by
  unfold checkRequirement at h ⊢
  split
  · refine ⟨_, rfl, ?_⟩
    simp +decide
  · rename_i requirement hparse
    rw [hparse] at h
    dsimp only at h
    split
    · exact absurd (if_pos ‹_›) h
    · refine ⟨_, rfl, ?_⟩
      simp +decide

/-- A description is checked before anything else, and passes when it asks for no version or for one
that this generator has. -/
theorem ApiDescription.checkRequirement_decides {σ : Type} {state : σ}
    (description : ApiDescription) :
    (liftExcept description.checkRequirement : Step σ Unit).Decides state
      (∀ text ∈ description.requires, Requirement.IsMet text) () state := by
  unfold ApiDescription.checkRequirement
  cases description.requires with
  | none => exact Step.Decides.pure.congr (iff_of_true trivial nofun)
  | some text =>
    have hmet : (∀ asked ∈ some text, Requirement.IsMet asked) ↔
        Stubwright.checkRequirement text = .ok () := by
      simp [checkRequirement_eq_ok_iff]
    exact (Step.Decides.liftExcept id exists_of_checkRequirement_ne_ok).congr hmet.symm

/-! ## Accepted descriptions -/

namespace ApiDescription

/-- The Java names of the schemas. -/
def schemaTypes (description : ApiDescription) : List String :=
  description.schemas.map fun schema => Naming.typeName schema.name

/-- A description from which something is generated under a configuration. -/
structure IsAccepted (config : GeneratorConfig) (description : ApiDescription) : Prop where
  package : ∃ package, Grammar.qualifiedName.parse config.package = .ok package
  requirement : ∀ text ∈ description.requires, Requirement.IsMet text
  distinct : description.schemaTypes.Nodup
  free : ∀ type ∈ description.schemaTypes, type ∉ implicitTypes
  references : ∀ declared ∈ description.schemas, ∀ type ∈ declared.schema.typeRefs,
    ∀ name ∈ type.refs, ∃ target ∈ description.schemas, target.name = name
  members : ∀ declared ∈ description.schemas, ∀ properties, declared.schema = .object properties →
    (properties.map fun property => Naming.memberName property.name "field").Nodup
  values : ∀ declared ∈ description.schemas, declared.schema ≠ .enumeration []
  variants : ∀ declared ∈ description.schemas, ∀ discriminator variants,
    declared.schema = .union discriminator variants → variants ≠ [] ∧ ∀ variant ∈ variants,
      ∃ properties, ⟨variant, .object properties⟩ ∈ description.schemas ∧
        ∃ property, properties.find? (·.name = discriminator) = some property ∧
          property.type = .string ∧ property.isOptional = false
  items : ∀ declared ∈ description.schemas, ∀ name, declared.schema = .array (.ref name) →
    Naming.typeName name ≠ "Optional"
  routes : description.endpoints ≠ [] → ∃ routes,
    ((Resolution.handle (.extractRoutes description.endpoints)).outcome ∅
      (.of (description.schemas.map (·.name)))).1.result = .ok (.routes routes)
  types : description.endpoints ≠ [] →
    (description.schemaTypes ++ config.endpointTypes description.endpoints).Nodup

end ApiDescription

namespace Generation

section

variable (package : QualifiedName) (config : GeneratorConfig)

/-- The checks of a run over a description, in their order. -/
abbrev Checks (description : ApiDescription) : Prop :=
  (∀ text ∈ description.requires, Requirement.IsMet text) ∧
    (description.schemas.map fun schema => JavaName.typeOf schema.name).Nodup ∧
    ((∀ schema ∈ description.schemas, Naming.typeName schema.name ∉ implicitTypes) ∧
      description.schemaTypes.Nodup) ∧
    (∀ declared ∈ description.schemas, declared.IsAccepted description.schemas) ∧
    (description.endpoints ≠ [] →
      ((description.endpoints.map Endpoint.key).Nodup ∧ ∀ endpoint ∈ description.endpoints,
        endpoint.IsAccepted (description.schemas.map (·.name))) ∧
      (schemaClaims description.schemas).Admits (config.endpointTypes description.endpoints))

/-- Everything that is generated from a description. -/
def generated (description : ApiDescription) : Codegen :=
  let support : Codegen :=
    ⟨description.schemas.map (SchemaDef.definition package description.schemas), [], []⟩
  if description.endpoints = [] then support
  else addEndpoints package config description.endpoints support

end

variable {package : QualifiedName} {config : GeneratorConfig}

theorem indexSchemas_decides (schemas : List SchemaDef) :
    ((handlers package config).combined.exec Concern.resolution (.indexSchemas schemas)).Decides
      (session package config [] ∅) (schemas.map fun schema => JavaName.typeOf schema.name).Nodup
      (.indexed (schemas.map fun schema => JavaName.typeOf schema.name))
      (session package config (schemas.map (·.name)) ∅) := by
  have hhandled : (Resolution.handle (.indexSchemas schemas)).Decides (.of [])
      (schemas.map fun schema => JavaName.typeOf schema.name).Nodup
      (.indexed (schemas.map fun schema => JavaName.typeOf schema.name))
      (.of ([] ++ schemas.map (·.name))) :=
    (Resolution.indexSchemas_decides schemas).congr (and_iff_left fun _ _ => List.not_mem_nil)
  exact (handlers package config).exec_decides Concern.resolution (.indexSchemas schemas) ∅ hhandled

/-- Endpoints are looked at only when there are some. -/
theorem unlessEmpty_decides {wires : List String} {collected : Codegen} (claims : Claims)
    (endpoints : List Endpoint) :
    (unless endpoints.isEmpty do
      renderEndpoints (handlers package config).combined claims endpoints).Decides
        (session package config wires collected)
        (endpoints ≠ [] → ((endpoints.map Endpoint.key).Nodup ∧
          ∀ endpoint ∈ endpoints, endpoint.IsAccepted wires) ∧
            claims.Admits (config.endpointTypes endpoints)) ()
        (session package config wires (if endpoints = [] then collected
          else addEndpoints package config endpoints collected)) := by
  cases endpoints with
  | nil => exact Step.Decides.pure.congr (iff_of_true trivial fun h => absurd rfl h)
  | cons first rest =>
    exact (renderEndpoints_decides claims (first :: rest)).congr
      (imp_iff_right (List.cons_ne_nil first rest)).symm

/-- The instructions for a description succeed when it asks for a version that the generator has,
its schemas have types of their own and become types, and its endpoints are accepted beside them. -/
theorem drive_decides (description : ApiDescription) :
    (drive (handlers package config).combined description).Decides (session package config [] ∅)
      (Checks config description) ()
      (session package config (description.schemas.map (·.name))
        (generated package config description)) := by
  unfold drive
  refine description.checkRequirement_decides.bind fun _ => ?_
  apply Step.Decides.logged
  refine (indexSchemas_decides description.schemas).bind fun _ => ?_
  apply Step.Decides.pure.andThen
  exact (claimAllSchemas_decides description.schemas).bind fun _ =>
    (renderSchemas_decides description.schemas).bind fun _ =>
    unlessEmpty_decides (schemaClaims description.schemas) description.endpoints

end Generation

/-! ## Acceptance in terms of the description -/

theorem nodup_map_term {properties : List Property} : (properties.map Property.term).Nodup ↔
    (properties.map fun property => Naming.memberName property.name "field").Nodup := by
  rw [← List.nodup_map_iff Name.text_injective, List.map_map]
  simp [Function.comp_def, Property.term]

/-- Schemas with types of their own have names of their own, so each is found under its name. -/
theorem find?_schema_eq_some_iff {schemas : List SchemaDef}
    (h : (schemas.map fun schema => Naming.typeName schema.name).Nodup) {declared : SchemaDef}
    {name : String} :
    schemas.find? (·.name = name) = some declared ↔ declared ∈ schemas ∧ declared.name = name := by
  constructor
  · intro hfind
    exact ⟨List.mem_of_find?_eq_some hfind, by simpa using List.find?_some hfind⟩
  · rintro ⟨hmem, rfl⟩
    have hnames : (schemas.map (·.name)).Nodup := by
      refine .of_map Naming.typeName ?_
      rwa [List.map_map]
    rw [← List.head?_filter, Naming.filter_eq_singleton hnames hmem, List.head?_cons]

namespace SchemaDef

variable {schemas : List SchemaDef}

theorem variantFault?_eq_none_iff_mem
    (h : (schemas.map fun schema => Naming.typeName schema.name).Nodup)
    {union discriminator variant : String} :
    variantFault? schemas union discriminator variant = none ↔
      ∃ properties, ⟨variant, .object properties⟩ ∈ schemas ∧
        ∃ property, properties.find? (·.name = discriminator) = some property ∧
          property.type = .string ∧ property.isOptional = false := by
  rw [variantFault?_eq_none_iff]
  refine exists_congr fun properties => and_congr_left fun _ => ?_
  rw [Option.map_eq_some_iff]
  constructor
  · rintro ⟨⟨name, schema⟩, hfind, rfl⟩
    obtain ⟨hmem, rfl⟩ := (find?_schema_eq_some_iff h).1 hfind
    exact hmem
  · exact fun hmem => ⟨_, (find?_schema_eq_some_iff h).2 ⟨hmem, rfl⟩, rfl⟩

/-- Every kind of schema has a condition of its own beside that on its references. -/
theorem isAccepted_iff (h : (schemas.map fun schema => Naming.typeName schema.name).Nodup)
    (declared : SchemaDef) :
    declared.IsAccepted schemas ↔
      (∀ type ∈ declared.schema.typeRefs, ∀ name ∈ type.refs,
        ∃ target ∈ schemas, target.name = name) ∧
      (∀ properties, declared.schema = .object properties →
        (properties.map fun property => Naming.memberName property.name "field").Nodup) ∧
      declared.schema ≠ .enumeration [] ∧
      (∀ discriminator variants, declared.schema = .union discriminator variants → variants ≠ [] ∧
        ∀ variant ∈ variants, ∃ properties, ⟨variant, .object properties⟩ ∈ schemas ∧
          ∃ property, properties.find? (·.name = discriminator) = some property ∧
            property.type = .string ∧ property.isOptional = false) ∧
      (∀ name, declared.schema = .array (.ref name) → Naming.typeName name ≠ "Optional") := by
  obtain ⟨name, schema⟩ := declared
  cases schema with
  | object properties =>
    simp [IsAccepted, Schema.typeRefs, nodup_map_term]
  | enumeration values => simp [IsAccepted, Schema.typeRefs]
  | array items => simp [IsAccepted, Schema.typeRefs, NamedList.isOptional_java]
  | union discriminator variants =>
    simp [IsAccepted, Schema.typeRefs, variantFault?_eq_none_iff_mem h]

end SchemaDef

/-- Endpoints have routes when each is accepted and no two share a method of a client. -/
theorem exists_extractRoutes_iff {wires : List String} {endpoints : List Endpoint} :
    (∃ routes, ((Resolution.handle (.extractRoutes endpoints)).outcome ∅ (.of wires)).1.result =
      .ok (.routes routes)) ↔
    (endpoints.map Endpoint.key).Nodup ∧ ∀ endpoint ∈ endpoints, endpoint.IsAccepted wires := by
  simp only [(Resolution.answer_extractRoutes_decides endpoints).result_eq_ok_iff,
    Resolution.Answer.routes.injEq, exists_and_left, exists_eq, and_true]

/-- The checks of a run come down to the conditions on the description. -/
theorem Generation.checks_iff {config : GeneratorConfig} {package : QualifiedName}
    (hpackage : Grammar.qualifiedName.parse config.package = .ok package)
    (description : ApiDescription) : Checks config description ↔ description.IsAccepted config := by
  have htypes (hdistinct : description.schemaTypes.Nodup) :
      (schemaClaims description.schemas).Admits (config.endpointTypes description.endpoints) ↔
        (description.schemaTypes ++ config.endpointTypes description.endpoints).Nodup :=
    Claims.admits_iff_nodup_append (mem_names_schemaClaims description.schemas) hdistinct
  -- Distinct types are checked twice on the way, first as schemas are registered and then as they
  -- are claimed; the second check never refuses.
  constructor
  · rintro ⟨hrequirement, -, ⟨hfree, hdistinct⟩, hschemas, hendpoints⟩
    have hall := fun declared hdeclared =>
      (SchemaDef.isAccepted_iff hdistinct declared).1 (hschemas declared hdeclared)
    exact
      { package := ⟨package, hpackage⟩
        requirement := hrequirement
        distinct := hdistinct
        free := List.forall_mem_map.2 hfree
        references := fun declared hdeclared => (hall declared hdeclared).1
        members := fun declared hdeclared => (hall declared hdeclared).2.1
        values := fun declared hdeclared => (hall declared hdeclared).2.2.1
        variants := fun declared hdeclared => (hall declared hdeclared).2.2.2.1
        items := fun declared hdeclared => (hall declared hdeclared).2.2.2.2
        routes := fun h => exists_extractRoutes_iff.2 (hendpoints h).1
        types := fun h => (htypes hdistinct).1 (hendpoints h).2 }
  · intro h
    have hfree : ∀ schema ∈ description.schemas, Naming.typeName schema.name ∉ implicitTypes :=
      fun schema hschema => h.free _ (List.mem_map_of_mem hschema)
    refine ⟨h.requirement, nodup_map_typeOf.2 h.distinct, ⟨hfree, h.distinct⟩,
      fun declared hdeclared => (SchemaDef.isAccepted_iff h.distinct declared).2
        ⟨h.references declared hdeclared, h.members declared hdeclared, h.values declared hdeclared,
          h.variants declared hdeclared, h.items declared hdeclared⟩,
      fun hendpoints => ⟨exists_extractRoutes_iff.1 (h.routes hendpoints),
        (htypes h.distinct).2 (h.types hendpoints)⟩⟩

/-- Acceptance can be told without a run. -/
instance (config : GeneratorConfig) (description : ApiDescription) :
    Decidable (description.IsAccepted config) :=
  match hpackage : Grammar.qualifiedName.parse config.package with
  | .ok _ => decidable_of_iff _ (Generation.checks_iff hpackage description)
  | .error _ => isFalse fun h => by
    obtain ⟨package, hok⟩ := h.package
    rw [hpackage] at hok
    cases hok

/-- The package of the standard configuration. -/
def GeneratorConfig.standardPackage : QualifiedName :=
  .ofSegments ⟨"com", by decide⟩ [⟨"example", by decide⟩, ⟨"api", by decide⟩]

/-- The standard package is a qualified name. -/
theorem GeneratorConfig.parse_package_standard :
    Grammar.qualifiedName.parse standard.package = .ok standardPackage :=
  Grammar.parse_qualifiedName standardPackage

/-! ## Whole runs -/

section

variable {σ : Type} {state : σ} {config : GeneratorConfig}

/-- Once its package was read, a run accepts just the accepted descriptions. -/
theorem generate_decides {package : QualifiedName}
    (hpackage : Grammar.qualifiedName.parse config.package = .ok package)
    (description : ApiDescription) :
    (generate description config).Decides state (description.IsAccepted config)
      (Generation.generated package config description) state := by
  apply Step.Decides.inScope
  apply (Grammar.read_decides hpackage).andThen
  apply Step.Decides.logged
  have hdrive : Step.Decides (Generation.drive (handlers package config).combined description)
      (Session.start (handlers package config).combined.start) _ _ _ :=
    Generation.drive_decides description
  exact ((Session.whole_decides hdrive).map Prod.snd).congr
    (Generation.checks_iff hpackage description)

/-- A package that is no qualified name is refused as such. -/
theorem generate_refuses {error : SyntaxError}
    (hpackage : Grammar.qualifiedName.parse config.package = .error error)
    (description : ApiDescription) (log : Log) :
    ((generate description config).outcome log state).1.result =
      .error (.user (Grammar.qualifiedName.refusal config.package error)) := by
  unfold generate
  rw [Step.outcome_inScope]
  exact Grammar.result_read_of_error hpackage _ (log.push "generate")

/-- A run succeeds with what is generated in the package, for a description that is accepted. -/
theorem result_generate_eq_ok_iff {description : ApiDescription} {log : Log} {result : Codegen} :
    ((generate description config).outcome log state).1.result = .ok result ↔
      ∃ package, Grammar.qualifiedName.parse config.package = .ok package ∧
        description.IsAccepted config ∧ result = Generation.generated package config description := by
  cases hpackage : Grammar.qualifiedName.parse config.package with
  | error error =>
    rw [generate_refuses hpackage]
    simp
  | ok package =>
    rw [(generate_decides hpackage description).result_eq_ok_iff]
    simp

/-- Under the standard configuration, an accepted description is generated into the standard
package. -/
theorem result_generate_standard {description : ApiDescription} {log : Log}
    (h : description.IsAccepted .standard) :
    ((generate description .standard).outcome log state).1.result =
      .ok (Generation.generated GeneratorConfig.standardPackage .standard description) :=
  result_generate_eq_ok_iff.2 ⟨_, GeneratorConfig.parse_package_standard, h, rfl⟩

/-- Something is generated from a description exactly when it is accepted. -/
theorem generate_succeeds_iff (description : ApiDescription) (log : Log) :
    (∃ result, ((generate description config).outcome log state).1.result = .ok result) ↔
      description.IsAccepted config := by
  simp only [result_generate_eq_ok_iff]
  constructor
  · rintro ⟨result, package, -, haccepted, -⟩
    exact haccepted
  · intro haccepted
    obtain ⟨package, hpackage⟩ := haccepted.package
    exact ⟨_, package, hpackage, haccepted, rfl⟩

end

end Stubwright
