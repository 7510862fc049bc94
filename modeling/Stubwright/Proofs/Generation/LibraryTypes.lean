import Stubwright.Proofs.Generation.Acceptance

/-!
# Schemas and the types of the library

The generator tells the types of the library by their names: a class called `Integer` is unboxed,
and one called `Optional` holds an item that may be missing. A schema that gets such a Java name is
taken for the library type.

Schemas are kept from the names of the wrapper classes, so that none of them is unboxed. They are
not kept from `Optional`. A schema may have it, and an array of this schema is then refused, as if
its items were optional.

## Main definitions

* `SchemaIndex.IsReached` — the schemas of a run that are registered and have claimed their types

## Main results

* `Resolution.isOptional_iff_of_isReached` — which resolved types are taken for library types
* `Resolution.exists_isOptional_of_isReached` — a schema that is
-/

namespace Stubwright

open Source

/-! ## Names of library types -/

/-- Every wrapper class is one of the types that no schema may be called after. -/
theorem Source.PrimitiveType.wrapper_mem_implicitTypes (type : PrimitiveType) :
    type.wrapper.text ∈ implicitTypes := by
  cases type <;> decide

/-- A class with a simple name wraps a primitive type only when it is called like its wrapper. -/
theorem Source.PrimitiveType.ofWrapper?_simple_eq_none {name : Name}
    (h : ∀ type : PrimitiveType, name.text ≠ type.wrapper.text) :
    ofWrapper? (.simple name) = none := by
  refine List.find?_eq_none.2 fun type _ => ?_
  have hqualified : name.text ≠ "java.lang." ++ type.wrapper.text := by
    intro heq
    have hname := heq ▸ name.isName
    revert hname
    cases type <;> decide
  simp [h type, hqualified]

/-- A class that stays clear of the implicit types is not unboxed. -/
theorem Source.Ty.unboxed_of_notMem_implicitTypes {name : Name} (h : name.text ∉ implicitTypes) :
    (Ty.ofClass (.plain (.simple name))).unboxed = .ofClass (.plain (.simple name)) := by
  have hwrapper : PrimitiveType.ofWrapper? (.simple name) = none :=
    PrimitiveType.ofWrapper?_simple_eq_none fun type heq =>
      h (heq ▸ type.wrapper_mem_implicitTypes)
  change (Ty.reference (.named (.simple name) [])).unboxed = .reference (.named (.simple name) [])
  rw [unboxed, hwrapper]

/-! ## Registered schemas -/

/-- An index that a run reaches when its schemas are registered and can claim their types. -/
def SchemaIndex.IsReached (index : SchemaIndex) (schemas : List SchemaDef) : Prop :=
  ∃ (log : Log) (names : List Name) (claims : Claims),
    ((Resolution.handle (.indexSchemas schemas)).outcome log ∅).1.result = .ok (.indexed names) ∧
      ((Resolution.handle (.indexSchemas schemas)).outcome log ∅).2 = index ∧
      (names.zip schemas).foldlM (fun (claims : Claims) (name, schema) =>
        claims.claimSchema name schema.name) [] = .ok claims

/-- Registered schemas have types of their own, none of which is implicit, and the index holds them
under their wire names. -/
theorem SchemaIndex.isReached_iff {index : SchemaIndex} {schemas : List SchemaDef} :
    index.IsReached schemas ↔
      ((∀ schema ∈ schemas, Naming.typeName schema.name ∉ implicitTypes) ∧
        (schemas.map fun schema => Naming.typeName schema.name).Nodup) ∧
      index = .of (schemas.map (·.name)) := by
  have hindexed : (Resolution.handle (.indexSchemas schemas)).Decides (.of []) _ _ _ :=
    Resolution.indexSchemas_decides schemas
  constructor
  · rintro ⟨log, names, claims, hnames, rfl, hclaims⟩
    obtain ⟨hnodup, hnames⟩ := hindexed.result_eq_ok_iff.1 hnames
    cases hnames
    exact ⟨(Generation.claimAllSchemas_eq_ok_iff.1 hclaims).1, (hindexed.answers hnodup log).2⟩
  · rintro ⟨hfree, rfl⟩
    obtain ⟨hresult, hafter⟩ :=
      hindexed.answers ⟨nodup_map_typeOf.2 hfree.2, fun _ _ => List.not_mem_nil⟩ ∅
    exact ⟨∅, _, _, hresult, hafter, Generation.claimAllSchemas_eq_ok_iff.2 ⟨hfree, rfl⟩⟩

/-! ## Optional items -/

/-- The class of an array is refused only when its items are taken for optional ones. -/
theorem NamedList.result_render_eq_error_iff {σ : Type} {state : σ} {package : QualifiedName}
    {name : String} {items : Ty} {log : Log} {error : GenError} :
    ((render package name items).outcome log state).1.result = .error error ↔
      items.isOptional = true ∧
        error = .user s!"array '{name}' cannot hold optional items ({items})" := by
  by_cases h : items.isOptional = true
  · rw [render, if_pos h, and_iff_right h, Step.result_bind_of_error (by rfl), Except.error.injEq]
    exact eq_comm
  · refine iff_of_false (fun herror => ?_) fun hboth => h hboth.1
    rw [((render_decides package name items).answers h log).1] at herror
    cases herror

/-! ## Resolved types -/

namespace Resolution

/-- A type that was resolved after the schemas were registered is taken for an optional one exactly
when it is that of a schema called `Optional` in Java, and no array is refused for any other items.
The type of a schema is never unboxed. -/
theorem isOptional_iff_of_isReached {schemas : List SchemaDef} {index : SchemaIndex}
    (hindex : index.IsReached schemas) {type : TypeRef} {java : Ty} {log : Log}
    (h : ((handle (.resolveType type false)).outcome log index).1.result = .ok (.type java)) :
    (java.isOptional = true ↔ ∃ declared ∈ schemas,
        type = .ref declared.name ∧ Naming.typeName declared.name = "Optional") ∧
      (∀ name, type = .ref name → java.unboxed = java) ∧
      ∀ (package : QualifiedName) (array : String) (log : Log) (error : GenError),
        (((NamedList.handler package).handle ⟨array, java⟩).outcome log ()).1.result =
            .error error ↔
          (∃ declared ∈ schemas,
            type = .ref declared.name ∧ Naming.typeName declared.name = "Optional") ∧
          error = .user s!"array '{array}' cannot hold optional items ({java})" := by
  obtain ⟨⟨hfree, -⟩, rfl⟩ := SchemaIndex.isReached_iff.1 hindex
  obtain ⟨hknown, hjava⟩ := (resolveType_decides type false).result_eq_ok_iff.1 h
  cases hjava
  have hoptional : type.java.isOptional = true ↔ ∃ declared ∈ schemas,
      type = .ref declared.name ∧ Naming.typeName declared.name = "Optional" := by
    rw [NamedList.isOptional_java]
    constructor
    · rintro ⟨name, rfl, hname⟩
      obtain ⟨declared, hdeclared, rfl⟩ := List.mem_map.1 (hknown name (List.mem_singleton_self name))
      exact ⟨declared, hdeclared, rfl, hname⟩
    · rintro ⟨declared, -, htype, hname⟩
      exact ⟨declared.name, htype, hname⟩
  refine ⟨hoptional, ?_, fun package array log error => ?_⟩
  · rintro name rfl
    obtain ⟨declared, hdeclared, rfl⟩ := List.mem_map.1 (hknown name (List.mem_singleton_self name))
    exact Ty.unboxed_of_notMem_implicitTypes (hfree declared hdeclared)
  · rw [← hoptional]
    exact NamedList.result_render_eq_error_iff

theorem isOptional_iff_of_isReached_option :
    ∃ (schemas : List SchemaDef) (index : SchemaIndex) (java : Ty),
      index.IsReached schemas ∧
        ((handle (.resolveType (.ref "option") false)).outcome ∅ index).1.result =
          .ok (.type java) ∧
        ¬ java.isOptional = true ∧ java.unboxed = java := by
  obtain ⟨schemas, hschemas⟩ : ∃ schemas : List SchemaDef, schemas =
    [⟨"option", .object []⟩, ⟨"int", .array (.ref "option")⟩] := ⟨_, rfl⟩
  have hindex : (SchemaIndex.of (schemas.map (·.name))).IsReached schemas := by
    rw [SchemaIndex.isReached_iff, hschemas]
    decide +kernel
  have hknown : ∀ name ∈ (TypeRef.ref "option").refs, name ∈ schemas.map (·.name) := by
    rw [hschemas]
    decide
  have h : ((handle (.resolveType (.ref "option") false)).outcome ∅
      (.of (schemas.map (·.name)))).1.result = _ :=
    ((resolveType_decides (.ref "option") false).answers hknown ∅).1
  obtain ⟨hoptional, hunboxed, -⟩ := isOptional_iff_of_isReached hindex h
  refine ⟨schemas, _, _, hindex, h, fun hjava => ?_, hunboxed "option" rfl⟩
  obtain ⟨declared, -, htype, hname⟩ := hoptional.1 hjava
  rw [← TypeRef.ref.inj htype] at hname
  revert hname
  decide +kernel

/-- The schema is called `Optional` in Java, and the array of it is refused although its items are
not optional. -/
theorem exists_isOptional_of_isReached :
    ∃ (schemas : List SchemaDef) (index : SchemaIndex) (java : Ty),
      schemas = [⟨"optional", .object []⟩, ⟨"options", .array (.ref "optional")⟩] ∧
        index.IsReached schemas ∧
        ((handle (.resolveType (.ref "optional") false)).outcome ∅ index).1.result =
          .ok (.type java) ∧
        java.isOptional = true ∧
        (((NamedList.handler GeneratorConfig.standardPackage).handle
          ⟨"options", java⟩).outcome ∅ ()).1.result =
            .error (.user "array 'options' cannot hold optional items (Optional)") ∧
        ((generate ⟨none, schemas, []⟩ .standard).outcome ∅ ()).1.result =
          .error (.user "array 'options' cannot hold optional items (Optional)") := by
  refine ⟨_, .of ["optional", "options"], (TypeRef.ref "optional").java, rfl, ?_, ?_, ?_, ?_, ?_⟩
  · rw [SchemaIndex.isReached_iff]
    decide +kernel
  all_goals decide +kernel

end Resolution

end Stubwright
