import Stubwright.Generate
import Stubwright.Proofs.Concern.SupportTypes
import Stubwright.Proofs.Definition

/-!
# Schemas in a run

A run renders its schemas one by one after all of them were registered. Every schema is decided by
the names of its fellows, and what it adds to the collected definitions is known from the schema.

## Main definitions

* `SchemaDef.definition` — the type of a schema
* `SchemaDef.IsAccepted` — a schema that becomes a type
* `Generation.session` — a run after its schemas were registered

## Main results

* `Generation.exec_decides` — an instruction within a run
* `Generation.renderSchemas_decides` — which schemas become types, and what they become
-/

namespace Stubwright

open Source

/-! ## The types of schemas -/

/-- The variant of a union for the name of a schema. -/
def UnionVariant.of (variant : String) : UnionVariant := ⟨variant, (TypeRef.ref variant).java⟩

/-- The interface that a union gives to its variants. -/
def unionInterface (union : String) : ClassType := .plain (.simple (JavaName.typeOf union))

namespace SchemaDef

/-- The type of a schema among all schemas. -/
def definition (package : QualifiedName) (schemas : List SchemaDef) (declared : SchemaDef) :
    Definition :=
  let name := declared.name
  match declared.schema with
  | .object properties =>
    Model.classOf package name (properties.map Property.field)
      ((unionsOf schemas name).map unionInterface)
  | .enumeration values => Enumeration.enumOf package name values
  | .array items => NamedList.listOf package name items.java
  | .union discriminator variants =>
    Union.interfaceOf package name discriminator (variants.map UnionVariant.of)

/-- A schema that becomes a type when its fellows `schemas` are registered. -/
def IsAccepted (schemas : List SchemaDef) (declared : SchemaDef) : Prop :=
  let wires := schemas.map (·.name)
  match declared.schema with
  | .object properties =>
    (∀ property ∈ properties, ∀ name ∈ property.type.refs, name ∈ wires) ∧
      (properties.map Property.term).Nodup
  | .enumeration values => values ≠ []
  | .array items => (∀ name ∈ items.refs, name ∈ wires) ∧ ¬ items.java.isOptional = true
  | .union discriminator variants => variants ≠ [] ∧
    ∀ variant ∈ variants, variantFault? schemas declared.name discriminator variant = none

instance (schemas : List SchemaDef) : DecidablePred (IsAccepted schemas)
  | ⟨_, .object properties⟩ => inferInstanceAs (Decidable ((∀ property ∈ properties,
      ∀ name ∈ property.type.refs, name ∈ schemas.map (·.name)) ∧
        (properties.map Property.term).Nodup))
  | ⟨_, .enumeration values⟩ => inferInstanceAs (Decidable (values ≠ []))
  | ⟨_, .array items⟩ => inferInstanceAs (Decidable
      ((∀ name ∈ items.refs, name ∈ schemas.map (·.name)) ∧ ¬ items.java.isOptional = true))
  | ⟨name, .union discriminator variants⟩ => inferInstanceAs (Decidable (variants ≠ [] ∧
      ∀ variant ∈ variants, variantFault? schemas name discriminator variant = none))

end SchemaDef

/-! ## Variants -/

/-- A variant is without a fault when it names an object schema whose first property with the name
of the discriminator is a required text. -/
theorem variantFault?_eq_none_iff {schemas : List SchemaDef}
    {union discriminator variant : String} :
    variantFault? schemas union discriminator variant = none ↔
      ∃ properties, (schemas.find? (·.name = variant)).map (·.schema) = some (.object properties) ∧
        ∃ property, properties.find? (·.name = discriminator) = some property ∧
          property.type = .string ∧ property.isOptional = false := by
  unfold variantFault?
  cases (schemas.find? (·.name = variant)).map (·.schema) with
  | none => simp
  | some schema =>
    cases schema with
    | object properties =>
      cases hfind : properties.find? (·.name = discriminator) with
      | none => simp [hfind]
      | some property => simp [hfind]
    | _ => simp

/-- Whatever is wrong with a variant is told in words of the generator. -/
theorem inOwnWords_of_variantFault? {schemas : List SchemaDef}
    {union discriminator variant fault : String}
    (h : variantFault? schemas union discriminator variant = some fault) : InOwnWords fault := by
  unfold variantFault? at h
  split at h
  · cases h
    simp +decide
  · split at h
    · split at h
      · cases h
      · cases h
        simp +decide
    · cases h
      simp +decide
  all_goals
    cases h
    simp +decide

/-- A union that lists a variant is one of the schemas. -/
theorem mem_of_mem_unionsOf {schemas : List SchemaDef} {variant union : String}
    (h : union ∈ unionsOf schemas variant) : union ∈ schemas.map (·.name) := by
  obtain ⟨declared, hdeclared, h⟩ := List.mem_flatMap.1 h
  split at h
  · obtain ⟨-, -, rfl⟩ := List.mem_map.1 h
    exact List.mem_map_of_mem hdeclared
  all_goals cases h

namespace Generation

/-! ## Sessions -/

variable (package : QualifiedName) (config : GeneratorConfig)

/-- A session after the schemas `wires` were registered. No other handler remembers anything. -/
def session (wires : List String) (collected : Codegen) :
    Session (handlers package config).combined.State :=
  ⟨(SchemaIndex.of wires, (), (), (), (), (), (), (), ()), collected⟩

variable {wires : List String} {collected : Codegen}

/-- An instruction that leaves its handler as it was only adds what its answer carries. -/
theorem exec_decides {V : Vocabulary} (member : Member V concerns) (term : V.Term)
    {accepted : Prop} {answer : V.Answer}
    (h : (((handlers package config).get member).handle term).Decides
      ((handlers package config).stateOf member (session package config wires collected).handler)
      accepted answer
      ((handlers package config).stateOf member
        (session package config wires collected).handler)) :
    ((handlers package config).combined.exec member term).Decides
      (session package config wires collected) accepted answer
      (session package config wires (V.contribute answer collected)) := by
  have hexec := (handlers package config).exec_decides member term collected h
  rwa [Handlers.withState_stateOf] at hexec

variable {package config}

/-! ## Schemas -/

theorem resolve_decides (type : TypeRef) (isOptional : Bool) :
    (resolve (handlers package config).combined type isOptional).Decides
      (session package config wires collected) (∀ name ∈ type.refs, name ∈ wires)
      (if isOptional then type.java.optional else type.java)
      (session package config wires collected) := by
  exact (exec_decides package config Concern.resolution (.resolveType type isOptional)
    (Resolution.resolveType_decides type isOptional)).before .pure

theorem renderProperty_decides (className : String) (property : Property) :
    (renderProperty (handlers package config).combined className property).Decides
      (session package config wires collected) (∀ name ∈ property.type.refs, name ∈ wires)
      property.field (session package config wires collected) := by
  have hfield : ((Model.handler package).handle (.transformProperty className property.name
      (if property.isOptional then property.type.java.optional else property.type.java)
      (!property.isOptional))).Decides () True (.field property.field) () :=
    (Model.transformProperty_decides className property).andReturn Model.Answer.field
  refine (resolve_decides property.type property.isOptional).before ?_
  exact (exec_decides package config Concern.model (.transformProperty ..) hfield).andThen .pure

theorem renderVariant_decides {schemas : List SchemaDef} (union discriminator variant : String) :
    (renderVariant (handlers package config).combined schemas union discriminator variant).Decides
      (session package config (schemas.map (·.name)) collected)
      (variantFault? schemas union discriminator variant = none) (.of variant)
      (session package config (schemas.map (·.name)) collected) := by
  unfold renderVariant
  cases hfault : variantFault? schemas union discriminator variant with
  | some fault =>
    exact (Step.Decides.refused (inOwnWords_of_variantFault? hfault)).congr (by simp)
  | none =>
    refine ((resolve_decides (.ref variant) false).andReturn (UnionVariant.mk variant)).congr
      (iff_of_true ?_ rfl)
    obtain ⟨properties, hschema, -⟩ := variantFault?_eq_none_iff.1 hfault
    obtain ⟨declared, hfind, -⟩ := Option.map_eq_some_iff.1 hschema
    obtain rfl : declared.name = variant := by simpa using List.find?_some hfind
    exact List.forall_mem_singleton.2 (List.mem_map_of_mem (List.mem_of_find?_eq_some hfind))

/-- The interfaces of a class are resolved, since every union that lists the class is a schema. -/
theorem resolveParents_decides {schemas : List SchemaDef} (name : String) :
    ((unionsOf schemas name).mapM fun union =>
      resolve (handlers package config).combined (.ref union) false).Decides
        (session package config (schemas.map (·.name)) collected) True
        (((unionsOf schemas name).map unionInterface).map Ty.ofClass)
        (session package config (schemas.map (·.name)) collected) := by
  rw [List.map_map]
  apply Step.Decides.mapEach
  intro union hunion
  refine (resolve_decides (.ref union) false).congr (iff_true_intro ?_)
  exact List.forall_mem_singleton.2 (mem_of_mem_unionsOf hunion)

theorem renderSchema_decides {schemas : List SchemaDef} (declared : SchemaDef) :
    (renderSchema (handlers package config).combined schemas declared).Decides
      (session package config (schemas.map (·.name)) collected) (declared.IsAccepted schemas) ()
      (session package config (schemas.map (·.name))
        (collected.add .support (declared.definition package schemas))) := by
  obtain ⟨name, schema⟩ := declared
  cases schema with
  | object properties =>
    have hfields :
        (properties.mapM (renderProperty (handlers package config).combined name)).Decides
        (session package config (schemas.map (·.name)) collected)
        (∀ property ∈ properties, ∀ name ∈ property.type.refs, name ∈ schemas.map (·.name))
        (properties.map Property.field)
        (session package config (schemas.map (·.name)) collected) :=
      .mapM fun property _ => renderProperty_decides name property
    have hclass : ((Model.handler package).handle (.renderClass name (properties.map Property.field)
        (((unionsOf schemas name).map unionInterface).map Ty.ofClass))).Decides ()
        (properties.map Property.term).Nodup
        (.rendered (Model.classOf package name (properties.map Property.field)
          ((unionsOf schemas name).map unionInterface))) () := by
      have hterms : (properties.map Property.field).map (·.term) = properties.map Property.term :=
        List.map_map
      rw [← hterms]
      exact (Model.renderClass_decides package name _ _).andReturn _
    refine hfields.bind fun _ => ?_
    refine (resolveParents_decides name).andThen ?_
    exact (exec_decides package config Concern.model (.renderClass ..) hclass).before
      (.discard .pure)
  | enumeration values =>
    exact (exec_decides package config Concern.enumeration ⟨name, values⟩
      (Enumeration.render_decides package name values)).discard
  | array items =>
    refine (resolve_decides items false).bind fun _ => ?_
    exact (exec_decides package config Concern.namedList ⟨name, items.java⟩
      (NamedList.render_decides package name items.java)).discard
  | union discriminator variants =>
    have hvariants : (variants.mapM (renderVariant (handlers package config).combined schemas name
        discriminator)).Decides (session package config (schemas.map (·.name)) collected)
        (∀ variant ∈ variants, variantFault? schemas name discriminator variant = none)
        (variants.map UnionVariant.of)
        (session package config (schemas.map (·.name)) collected) :=
      .mapM fun variant _ => renderVariant_decides name discriminator variant
    refine (hvariants.bind fun _ => (exec_decides package config Concern.union
      ⟨name, discriminator, variants.map UnionVariant.of⟩ (Union.render_decides package name
        discriminator (variants.map UnionVariant.of))).discard).congr ?_
    rw [and_comm]
    exact and_congr_left' (not_congr List.map_eq_nil_iff)

/-- Schemas are rendered when each of them is accepted, and their types are collected in order. -/
theorem renderSchemas_decides (schemas : List SchemaDef) :
    (schemas.forM fun schema => Step.inScope schema.name
      (renderSchema (handlers package config).combined schemas schema)).Decides
        (session package config (schemas.map (·.name)) collected)
        (∀ declared ∈ schemas, declared.IsAccepted schemas) ()
        (session package config (schemas.map (·.name)) { collected with
          support := collected.support ++ schemas.map (SchemaDef.definition package schemas) }) := by
  -- A schema leaves the index as it is, so the run is told by what was collected before it.
  rw [← Codegen.foldl_add_support]
  exact .forM collected fun declared _ _ => (renderSchema_decides declared).inScope

end Generation

end Stubwright
