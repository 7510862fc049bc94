import Stubwright.Concern.Resolution
import Stubwright.Proofs.NameReading

/-!
# Schemas and references to them

Registered schemas are known by their wire names alone, since the wire name tells the Java name. A
type reference is accepted exactly when every schema that it names is registered, and its Java type
does not depend on the registered schemas.

## Main definitions

* `TypeRef.java`, `TypeRef.refs` — the Java type of a reference, and the schemas that it names
* `SchemaIndex.of` — the index of schemas with given wire names

## Main results

* `Resolution.resolve_decides` — which references are resolved, and to which type
* `Resolution.indexSchemas_decides` — which schemas are registered together
-/

namespace Stubwright

open Source

/-! ## References -/

/-- The class `String`. -/
def Source.Ty.text : Ty := .ofClass (.plain (.simple ⟨"String", by decide⟩))

/-- `String` is read as the type of texts. -/
theorem Source.Grammar.readText_decides {σ : Type} {state : σ} :
    (Grammar.type.read "String").Decides state True .text state :=
  readSimpleType_decides ⟨"String", by decide⟩

namespace TypeRef

/-- The Java type of a type reference. -/
def java : TypeRef → Ty
  | string => .text
  | integer => .ofClass (.plain (.simple PrimitiveType.int.wrapper))
  | long => .ofClass (.plain (.simple PrimitiveType.long.wrapper))
  | number => .ofClass (.plain (.ofSegments LibraryName.java
      [⟨"math", by decide⟩, ⟨"BigDecimal", by decide⟩]))
  | boolean => .ofClass (.plain (.simple PrimitiveType.boolean.wrapper))
  | date => .ofClass (.plain (.ofSegments LibraryName.java
      [⟨"time", by decide⟩, ⟨"LocalDate", by decide⟩]))
  | dateTime => .ofClass (.plain (.ofSegments LibraryName.java
      [⟨"time", by decide⟩, ⟨"OffsetDateTime", by decide⟩]))
  | ref name => .ofClass (.plain (.simple (JavaName.typeOf name)))
  | array items => items.java.list
  | map values => .map .text values.java

/-- The schemas that a type reference names. -/
def refs : TypeRef → List String
  | ref name => [name]
  | array items => items.refs
  | map values => values.refs
  | string | integer | long | number | boolean | date | dateTime => []

end TypeRef

/-! ## Registered schemas -/

/-- Schemas have Java names of their own exactly when the texts of these names differ. -/
theorem nodup_map_typeOf {schemas : List SchemaDef} :
    (schemas.map fun schema => JavaName.typeOf schema.name).Nodup ↔
      (schemas.map fun schema => Naming.typeName schema.name).Nodup := by
  rw [← List.nodup_map_iff Name.text_injective, List.map_map]
  simp [Function.comp_def]

namespace SchemaIndex

/-- The index of schemas with given wire names, each with the Java name that it gets. -/
def of (wires : List String) : SchemaIndex := ⟨wires.map fun wire => (wire, JavaName.typeOf wire)⟩

/-- Just the registered schemas are found, each with the Java name made of its name on the wire. -/
theorem find?_of (wires : List String) (wire : String) :
    (of wires).find? wire = if wire ∈ wires then some (JavaName.typeOf wire) else none := by
  unfold find? of
  dsimp only
  induction wires with
  | nil => rfl
  | cons first rest ih =>
    rw [List.map_cons, List.lookup_cons, ih]
    by_cases h : wire = first
    · simp [h]
    · have hne : (wire == first) = false := beq_false_of_ne h
      simp [h, hne]

/-- A Java name has no owner when no registered schema is called so. -/
theorem owner?_of_eq_none {wires : List String} {java : Name} :
    (of wires).owner? java = none ↔ java ∉ wires.map JavaName.typeOf := by
  simp [owner?, of]

@[simp] theorem insert_of (wires : List String) (wire : String) :
    (of wires).insert wire (JavaName.typeOf wire) = of (wires ++ [wire]) := by
  simp [insert, of]

end SchemaIndex

namespace Resolution

variable {σ : Type} {state : σ} {wires : List String}

/-! ## Resolving a reference -/

/-- A reference is resolved exactly when all schemas that it names are registered. -/
theorem resolve_decides (type : TypeRef) :
    (resolve (.of wires) type : Step σ Ty).Decides state (∀ name ∈ type.refs, name ∈ wires)
      type.java state := by
  have hnone : True ↔ ∀ name ∈ ([] : List String), name ∈ wires := iff_of_true trivial nofun
  have hlibrary : ∀ {text : String} (q : QualifiedName), text = q.text →
      (Grammar.type.read text).Decides state True (.ofClass (.plain q)) state := by
    rintro _ q rfl
    exact Grammar.readType_decides q
  induction type with
  | string => exact Grammar.readText_decides.congr hnone
  | integer => exact (Grammar.readSimpleType_decides PrimitiveType.int.wrapper).congr hnone
  | long => exact (Grammar.readSimpleType_decides PrimitiveType.long.wrapper).congr hnone
  | boolean => exact (Grammar.readSimpleType_decides PrimitiveType.boolean.wrapper).congr hnone
  | number =>
    exact (hlibrary (.ofSegments LibraryName.java [⟨"math", by decide⟩,
      ⟨"BigDecimal", by decide⟩]) (by decide +kernel)).congr hnone
  | date =>
    exact (hlibrary (.ofSegments LibraryName.java [⟨"time", by decide⟩,
      ⟨"LocalDate", by decide⟩]) (by decide +kernel)).congr hnone
  | dateTime =>
    exact (hlibrary (.ofSegments LibraryName.java [⟨"time", by decide⟩,
      ⟨"OffsetDateTime", by decide⟩]) (by decide +kernel)).congr hnone
  | ref name =>
    rw [resolve, SchemaIndex.find?_of]
    by_cases h : name ∈ wires
    · rw [if_pos h]
      exact (Grammar.readSimpleType_decides _).congr (by simp [TypeRef.refs, h])
    · rw [if_neg h]
      have hrefuse : (Step.refuse s!"unknown schema reference '{name}'" : Step σ Ty).Decides state
          False (TypeRef.ref name).java state := .refuse (by simp +decide)
      exact hrefuse.congr (by simp [TypeRef.refs, h])
  | array items ih => exact ih.andReturn Ty.list
  | map values ih =>
    apply Step.Decides.andThen Grammar.readText_decides
    exact ih.andReturn (Ty.map .text)

/-! ## Registering schemas -/

/-- A schema is registered when no schema before it has the same Java name. -/
theorem register_decides (wire : String) :
    (register wire).Decides (.of wires) (JavaName.typeOf wire ∉ wires.map JavaName.typeOf)
      (JavaName.typeOf wire) (.of (wires ++ [wire])) := by
  unfold register
  apply Step.Decides.andThen .read
  -- Two schemas with one wire name have one Java name, so the second check covers the first.
  have hname : JavaName.typeOf wire ∉ wires.map JavaName.typeOf →
      ¬ ((SchemaIndex.of wires).find? wire).isSome = true := by
    intro h hfind
    rw [SchemaIndex.find?_of] at hfind
    split at hfind
    · exact h (List.mem_map_of_mem ‹_›)
    · cases hfind
  refine (Step.Decides.guarded (by simp +decide) fun _ => ?_).congr
    (and_iff_right_of_imp hname)
  apply Step.Decides.andThen (JavaName.ofType_decides wire)
  by_cases h : JavaName.typeOf wire ∈ wires.map JavaName.typeOf
  · cases howner : (SchemaIndex.of wires).owner? (JavaName.typeOf wire) with
    | none => exact absurd h (SchemaIndex.owner?_of_eq_none.1 howner)
    | some previous =>
      refine (Step.Decides.refuse ?_).congr (iff_of_false id fun hnot => hnot h)
      simp +decide
  · rw [SchemaIndex.owner?_of_eq_none.2 h]
    refine Step.Decides.congr (.logged ?_) (iff_of_true trivial h)
    rw [← SchemaIndex.insert_of]
    exact Step.Decides.andThen (.onState _) .pure

/-- Schemas are registered together when their Java names differ from each other and from those of
the schemas before them. -/
theorem registerAll_decides (names : List String) :
    (names.mapM register).Decides (.of wires)
      ((names.map JavaName.typeOf).Nodup ∧
        ∀ name ∈ names, JavaName.typeOf name ∉ wires.map JavaName.typeOf)
      (names.map JavaName.typeOf) (.of (wires ++ names)) := by
  induction names generalizing wires with
  | nil =>
    rw [List.append_nil]
    exact Step.Decides.pure.congr (by simp)
  | cons name rest ih =>
    rw [List.mapM_cons, List.append_cons]
    refine ((register_decides name).bind fun _ =>
      ih.andReturn (JavaName.typeOf name :: ·)).congr ?_
    simp only [List.map_cons, List.nodup_cons, List.map_append, List.map_nil, List.mem_append,
      List.mem_cons, List.not_mem_nil, or_false, not_or, List.mem_map, forall_eq_or_imp]
    grind

/-! ## Instructions -/

/-- The schemas of a list are registered by their names, one after another. -/
theorem handle_indexSchemas (schemas : List SchemaDef) :
    handle (.indexSchemas schemas) = Answer.indexed <$> (schemas.map (·.name)).mapM register := by
  rw [List.mapM_map, map_eq_pure_bind]
  rfl

/-- Schemas are registered when their Java names differ from each other and from those in the index.
-/
theorem indexSchemas_decides (schemas : List SchemaDef) :
    (handle (.indexSchemas schemas)).Decides (.of wires)
      ((schemas.map fun schema => JavaName.typeOf schema.name).Nodup ∧
        ∀ schema ∈ schemas, JavaName.typeOf schema.name ∉ wires.map JavaName.typeOf)
      (.indexed (schemas.map fun schema => JavaName.typeOf schema.name))
      (.of (wires ++ schemas.map (·.name))) := by
  have hall : ((schemas.map (·.name)).mapM register).Decides (.of wires) _ _ _ :=
    registerAll_decides (schemas.map (·.name))
  rw [List.map_map] at hall
  rw [handle_indexSchemas, map_eq_pure_bind]
  exact (hall.andReturn Answer.indexed).congr (and_congr_right' List.forall_mem_map)

/-- A reference is resolved when every schema that it names is registered. -/
theorem resolveType_decides (type : TypeRef) (isOptional : Bool) :
    (handle (.resolveType type isOptional)).Decides (.of wires) (∀ name ∈ type.refs, name ∈ wires)
      (.type (if isOptional then type.java.optional else type.java)) (.of wires) := by
  apply Step.Decides.andThen .read
  exact (resolve_decides type).andReturn _

end Resolution

end Stubwright
