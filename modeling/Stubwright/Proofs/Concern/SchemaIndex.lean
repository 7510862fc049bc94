import Mathlib.Data.List.Induction
import Stubwright.Proofs.Concern.References

/-!
# The index of schemas

Lists of schemas are registered one after another. A list that is refused leaves those of its
schemas registered that stand in front of the first one whose Java name is taken. Whatever was
registered or refused, the index tells the Java name of a schema by its wire name alone, and no two
schemas share one.

## Main definitions

* `SchemaIndex.admitted`, `SchemaIndex.registered` — the wire names that are registered after one
  list, and after several lists
* `SchemaIndex.after` — the index then
* `SchemaIndex.IsSound` — every schema has the Java name that its wire name tells, and no other
  schema has it

## Main results

* `SchemaIndex.after_eq_of` — the index after any lists of schemas
* `Resolution.isSound_after_and_succeeds_iff` — it is sound, and decides which instructions succeed
-/

namespace Stubwright

open Source

/-! ## What is registered -/

namespace SchemaIndex

/-- The wire names that are registered after `names` were to be registered beside `wires`: those in
front of the first one whose Java name is taken. -/
def admitted (wires : List String) : List String → List String
  | [] => wires
  | name :: rest =>
    if JavaName.typeOf name ∈ wires.map JavaName.typeOf then wires
    else admitted (wires ++ [name]) rest

/-- Java names stay distinct, however much of a list is registered. -/
theorem nodup_admitted {wires : List String} (h : (wires.map JavaName.typeOf).Nodup)
    (names : List String) : ((admitted wires names).map JavaName.typeOf).Nodup := by
  induction names generalizing wires with
  | nil => exact h
  | cons name rest ih =>
    unfold admitted
    split
    · exact h
    · rename_i hfree
      apply ih
      rw [List.map_append, List.map_singleton]
      exact List.nodup_append.2 ⟨h, List.nodup_singleton _, by
        rintro java hjava _ hname rfl
        rw [List.mem_singleton.1 hname] at hjava
        exact hfree hjava⟩

/-- The wire names that are registered after lists of schemas were to be registered in turn. -/
def registered (lists : List (List SchemaDef)) : List String :=
  lists.foldl (fun wires schemas => admitted wires (schemas.map (·.name))) []

end SchemaIndex

/-! ## Registering -/

namespace Resolution

variable {wires : List String}

/-- A schema whose Java name is taken leaves the index as it is. -/
theorem state_register_of_taken {wire : String}
    (h : JavaName.typeOf wire ∈ wires.map JavaName.typeOf) (log : Log) :
    ((register wire).outcome log (.of wires)).2 = .of wires := by
  unfold register
  obtain ⟨reached, hrun⟩ := Step.Decides.read.exists_outcome_bind trivial _ log
  rw [hrun]
  split
  · rfl
  · obtain ⟨later, hnamed⟩ := (JavaName.ofType_decides wire).exists_outcome_bind trivial _ reached
    rw [hnamed]
    split
    · rfl
    · rename_i hfree
      exact absurd h (SchemaIndex.owner?_of_eq_none.1 hfree)

/-- Registering a list stops at the first Java name that is taken. -/
theorem state_registerAll (names : List String) (log : Log) :
    ((names.mapM register).outcome log (.of wires)).2 = .of (SchemaIndex.admitted wires names) := by
  induction names generalizing wires log with
  | nil => rfl
  | cons name rest ih =>
    rw [List.mapM_cons, SchemaIndex.admitted]
    split
    · rename_i htaken
      obtain ⟨message, hresult, -⟩ := (register_decides name).refuses (fun hfree => hfree htaken) log
      rw [Step.outcome_bind_of_error hresult, state_register_of_taken htaken]
    · rename_i hfree
      obtain ⟨reached, hrun⟩ := (register_decides name).exists_outcome_bind hfree _ log
      rw [hrun, ← map_eq_pure_bind, Step.outcome_map]
      exact ih reached

theorem state_indexSchemas (schemas : List SchemaDef) (log : Log) :
    ((handle (.indexSchemas schemas)).outcome log (.of wires)).2 =
      .of (SchemaIndex.admitted wires (schemas.map (·.name))) := by
  rw [handle_indexSchemas, Step.outcome_map]
  exact state_registerAll _ log

end Resolution

/-- The index after lists of schemas were to be registered, one list after another. -/
def SchemaIndex.after (lists : List (List SchemaDef)) (log : Log) : SchemaIndex :=
  (Step.each (lists.map fun schemas => Resolution.handle (.indexSchemas schemas)) log ∅).2

namespace SchemaIndex

/-- What is registered after lists of schemas, whether they were accepted or refused. -/
theorem after_eq_of (lists : List (List SchemaDef)) (log : Log) :
    after lists log = of (registered lists) := by
  have hrun : ∀ (wires : List String) (log : Log),
      (Step.each (lists.map fun schemas => Resolution.handle (.indexSchemas schemas)) log
        (of wires)).2 =
          of (lists.foldl (fun wires schemas => admitted wires (schemas.map (·.name))) wires) := by
    induction lists with
    | nil => exact fun _ _ => rfl
    | cons schemas rest ih =>
      intro wires log
      have hstate : ((Resolution.handle (.indexSchemas schemas)).outcome log (of wires)).2 = _ :=
        Resolution.state_indexSchemas schemas log
      rw [List.foldl_cons, ← ih _ _, ← hstate]
      rfl
  exact hrun [] log

/-- The Java names of the registered schemas differ. -/
theorem nodup_registered (lists : List (List SchemaDef)) :
    ((registered lists).map JavaName.typeOf).Nodup := by
  unfold registered
  -- From the end, since the last list meets what all lists before it have left.
  induction lists using List.reverseRecOn with
  | nil => exact List.nodup_nil
  | append_singleton lists schemas ih =>
    rw [List.foldl_append]
    exact nodup_admitted ih _

/-- Every schema has the Java name that its wire name tells, and no other schema has it. -/
structure IsSound (index : SchemaIndex) : Prop where
  text : ∀ wire java, index.find? wire = some java → java.text = Naming.typeName wire
  injective : ∀ first second java, index.find? first = some java → index.find? second = some java →
    first = second

theorem find?_of_eq_some {wires : List String} {wire : String} {java : Name} :
    (of wires).find? wire = some java ↔ wire ∈ wires ∧ java = JavaName.typeOf wire := by
  rw [find?_of]
  by_cases h : wire ∈ wires
  · rw [if_pos h, and_iff_right h, Option.some.injEq]
    exact eq_comm
  · simp [h]

theorem isSound_of {wires : List String} (h : (wires.map JavaName.typeOf).Nodup) :
    (of wires).IsSound := by
  constructor
  · intro wire java hfind
    obtain ⟨-, rfl⟩ := find?_of_eq_some.1 hfind
    exact JavaName.text_typeOf wire
  · intro first second java hfirst hsecond
    obtain ⟨hmem, rfl⟩ := find?_of_eq_some.1 hfirst
    obtain ⟨hother, hname⟩ := find?_of_eq_some.1 hsecond
    exact List.inj_on_of_nodup_map h hmem hother hname

end SchemaIndex

namespace TypeRef

/-- Every type reference stands for a class or an interface. -/
theorem exists_java_eq_ofClass (type : TypeRef) : ∃ found, type.java = .ofClass found := by
  cases type <;> exact ⟨_, rfl⟩

end TypeRef

namespace SchemaIndex

theorem isSome_find?_of {wires : List String} {wire : String} :
    ((of wires).find? wire).isSome ↔ wire ∈ wires := by
  rw [find?_of]
  by_cases h : wire ∈ wires <;> simp [h]

/-- No registered schema has a given Java name. -/
theorem typeOf_notMem_iff {wires : List String} {name : String} :
    JavaName.typeOf name ∉ wires.map JavaName.typeOf ↔
      ∀ wire java, (of wires).find? wire = some java → java.text ≠ Naming.typeName name := by
  constructor
  · rintro h wire java hfind htext
    obtain ⟨hmem, rfl⟩ := find?_of_eq_some.1 hfind
    exact h (List.mem_map.2 ⟨wire, hmem, Name.text_injective htext⟩)
  · intro h hmem
    obtain ⟨wire, hwire, hname⟩ := List.mem_map.1 hmem
    exact h wire _ (find?_of_eq_some.2 ⟨hwire, rfl⟩) (congrArg Name.text hname)

end SchemaIndex

namespace Resolution

variable {wires : List String} {log : Log}

/-- Schemas are indexed together exactly when their Java names are new and distinct. -/
theorem exists_indexed_iff {schemas : List SchemaDef} :
    (∃ answer, ((handle (.indexSchemas schemas)).outcome log (.of wires)).1.result = .ok answer) ↔
      (schemas.map fun schema => Naming.typeName schema.name).Nodup ∧
        ∀ schema ∈ schemas, ∀ wire java, (SchemaIndex.of wires).find? wire = some java →
          java.text ≠ Naming.typeName schema.name := by
  simp only [(indexSchemas_decides schemas).result_eq_ok_iff, exists_and_left, exists_eq, and_true,
    nodup_map_typeOf, SchemaIndex.typeOf_notMem_iff]

/-- Indexed schemas are answered in order, and nothing else is registered beside them. -/
theorem indexed_of_ok {schemas : List SchemaDef} {answer : Answer}
    (h : ((handle (.indexSchemas schemas)).outcome log (.of wires)).1.result = .ok answer) :
    (∃ names, answer = .indexed names ∧
      names.map Name.text = schemas.map fun schema => Naming.typeName schema.name) ∧
    ∀ wire, (((handle (.indexSchemas schemas)).outcome log (.of wires)).2.find? wire).isSome ↔
      ((SchemaIndex.of wires).find? wire).isSome ∨ ∃ schema ∈ schemas, schema.name = wire := by
  obtain ⟨haccepted, rfl⟩ := (indexSchemas_decides schemas).result_eq_ok_iff.1 h
  refine ⟨⟨_, rfl, by simp⟩, fun wire => ?_⟩
  rw [((indexSchemas_decides schemas).answers haccepted log).2, SchemaIndex.isSome_find?_of,
    SchemaIndex.isSome_find?_of, List.mem_append, List.mem_map]

/-- After any lists of schemas, accepted or refused, the index is sound and tells the schemas that
were registered. A list of schemas is accepted exactly when its Java names differ from each other
and from those in the index; they are answered in order, and just its schemas are registered beside
the others. A reference is resolved exactly when all schemas that it names are registered, and it
stands for a class or an interface. -/
theorem isSound_after_and_succeeds_iff (lists : List (List SchemaDef)) (log : Log) :
    let index := SchemaIndex.after lists log
    ((∀ wire, (index.find? wire).isSome ↔ wire ∈ SchemaIndex.registered lists) ∧ index.IsSound) ∧
    (∀ schemas now, let run := (handle (.indexSchemas schemas)).outcome now index
      ((∃ answer, run.1.result = .ok answer) ↔
        (schemas.map fun schema => Naming.typeName schema.name).Nodup ∧
          ∀ schema ∈ schemas, ∀ wire java, index.find? wire = some java →
            java.text ≠ Naming.typeName schema.name) ∧
      ∀ answer, run.1.result = .ok answer →
        (∃ names, answer = .indexed names ∧
          names.map Name.text = schemas.map fun schema => Naming.typeName schema.name) ∧
        ∀ wire, (run.2.find? wire).isSome ↔
          (index.find? wire).isSome ∨ ∃ schema ∈ schemas, schema.name = wire) ∧
    ∀ type isOptional now, let run := (handle (.resolveType type isOptional)).outcome now index
      ((∃ answer, run.1.result = .ok answer) ↔ ∀ name ∈ type.refs, (index.find? name).isSome) ∧
      ∀ answer, run.1.result = .ok answer → ∃ found, answer = .type (.ofClass found) := by
  intro index
  obtain hindex : index = .of (SchemaIndex.registered lists) := SchemaIndex.after_eq_of lists log
  rw [hindex]
  refine ⟨⟨fun wire => SchemaIndex.isSome_find?_of,
    SchemaIndex.isSound_of (SchemaIndex.nodup_registered lists)⟩,
    fun schemas now => ⟨exists_indexed_iff, fun answer => indexed_of_ok⟩,
    fun type isOptional now => ⟨?_, ?_⟩⟩
  · simp only [(resolveType_decides type isOptional).result_eq_ok_iff, exists_and_left, exists_eq,
      and_true, SchemaIndex.isSome_find?_of]
  · intro answer hanswer
    obtain ⟨-, rfl⟩ := (resolveType_decides type isOptional).result_eq_ok_iff.1 hanswer
    obtain ⟨found, hfound⟩ := type.exists_java_eq_ofClass
    cases isOptional with
    | false => exact ⟨found, congrArg Answer.type hfound⟩
    | true => exact ⟨_, rfl⟩

/-- A list that is refused at its second schema leaves the first one, but not the third one. -/
theorem isSound_after_and_succeeds_iff_refused :
    let pet : List SchemaDef := [⟨"pet", .object []⟩]
    let refused : List SchemaDef :=
      [⟨"pet owner", .object []⟩, ⟨"Pet", .object []⟩, ⟨"visit", .object []⟩]
    let index := SchemaIndex.after [pet, refused] ∅
    (¬ ∃ answer, ((handle (.indexSchemas refused)).outcome ∅
      (SchemaIndex.after [pet] ∅)).1.result = .ok answer) ∧
    (∃ found, ((handle (.resolveType (.array (.ref "pet owner")) true)).outcome ∅ index).1.result =
      .ok (.type (.ofClass found))) ∧
    (¬ ∃ answer, ((handle (.resolveType (.map (.ref "visit")) false)).outcome ∅ index).1.result =
      .ok answer) ∧
    ∃ answer, ((handle (.indexSchemas [⟨"visit", .object []⟩])).outcome ∅ index).1.result =
      .ok answer := by
  intro pet refused
  have hfirst := isSound_after_and_succeeds_iff [pet] ∅
  have hboth := isSound_after_and_succeeds_iff [pet, refused] ∅
  dsimp only at hfirst hboth ⊢
  -- What the two indexes are computed from plays no part in what follows.
  generalize SchemaIndex.after [pet] ∅ = first at hfirst ⊢
  generalize SchemaIndex.after [pet, refused] ∅ = index at hboth ⊢
  obtain ⟨⟨hpet, hnamed⟩, hbeside, -⟩ := hfirst
  obtain ⟨⟨hmem, hsound⟩, hindexed, hresolved⟩ := hboth
  have hone : SchemaIndex.registered [pet] = ["pet"] := by decide +kernel
  have htwo : SchemaIndex.registered [pet, refused] = ["pet", "pet owner"] := by decide +kernel
  rw [hone] at hpet
  rw [htwo] at hmem
  refine ⟨fun haccepted => ?_, ?_, fun hanswer => ?_, ?_⟩
  · obtain ⟨-, hfree⟩ := (hbeside refused ∅).1.1 haccepted
    obtain ⟨java, hjava⟩ := Option.isSome_iff_exists.1 ((hpet "pet").2 (by decide))
    refine hfree ⟨"Pet", .object []⟩ (by decide) "pet" java hjava ?_
    rw [hnamed.text "pet" java hjava]
    decide +kernel
  · obtain ⟨answer, hanswer⟩ := (hresolved (.array (.ref "pet owner")) true ∅).1.2
      (List.forall_mem_singleton.2 ((hmem "pet owner").2 (by decide)))
    obtain ⟨found, rfl⟩ := (hresolved _ true ∅).2 answer hanswer
    exact ⟨found, hanswer⟩
  · have hvisit := (hresolved (.map (.ref "visit")) false ∅).1.1 hanswer "visit" (by decide)
    exact absurd ((hmem "visit").1 hvisit) (by decide)
  · refine (hindexed _ ∅).1.2 ⟨List.nodup_singleton _, ?_⟩
    rintro schema hschema wire java hjava
    rw [List.mem_singleton.1 hschema, hsound.text wire java hjava]
    have hwire := (hmem wire).1 (Option.isSome_of_eq_some hjava)
    simp only [List.mem_cons, List.not_mem_nil, or_false] at hwire
    rcases hwire with rfl | rfl <;> decide +kernel

end Resolution

end Stubwright
