import Stubwright.Concern.Enumeration
import Stubwright.Concern.NamedList
import Stubwright.Concern.Union
import Stubwright.Proofs.Concern.References
import Stubwright.Proofs.Source.ReadsBack

/-!
# The types of schemas

Each kind of schema becomes one type, which can be told from the schema. What refuses a schema are
its members alone: properties whose Java names repeat, no values or variants at all, or items that
the generated list would take for optional ones.

## Main definitions

* `Model.classOf`, `Enumeration.enumOf`, `NamedList.listOf`, `Union.interfaceOf` — the types

## Main results

* `Model.renderClass_decides`, `Enumeration.render_decides`, `NamedList.render_decides`,
  `Union.render_decides` — which schemas become types
-/

namespace Stubwright

open Source

variable {σ : Type} {state : σ}

/-! ## Names made distinct -/

/-- The texts of names that are made distinct, each beside its item. -/
theorem Source.Name.zip_uniqueNames {α : Type} (items : List α) (base : α → Name) :
    (Naming.uniqueNames [] (items.map fun item => (base item).text)).zip items =
      ((Name.uniques [] (items.map base)).zip items).map fun pair => (pair.1.text, pair.2) := by
  have hnames : Naming.uniqueNames [] (items.map fun item => (base item).text) =
      (Name.uniques [] (items.map base)).map Name.text := by
    rw [Name.map_text_uniques, List.map_map]
    rfl
  rw [hnames, List.zip_map_left]
  rfl

/-! ## Classes -/

/-- The Java name of a property. -/
def Property.term (property : Property) : Name :=
  JavaName.memberOf property.name ⟨"field", by decide⟩

/-- The field of a property: that of an optional one is wrapped, and that of a required one is
unboxed. -/
def Property.field (property : Property) : ModelField :=
  let java := property.type.java
  ⟨property.name, property.term, if property.isOptional then java.optional else java.unboxed,
    !property.isOptional⟩

namespace Model

/-- The class of an object schema with fields and interfaces. -/
def classOf (package : QualifiedName) (name : String) (fields : List ModelField)
    (interfaces : List ClassType) : Definition :=
  .ofDecl package [] (classDecl (JavaName.typeOf name) fields
    (fields.map fun field => JavaName.getterOf field.term) interfaces)

/-- A class is rendered when its fields have names of their own. -/
theorem renderClass_decides (package : QualifiedName) (name : String) (fields : List ModelField)
    (interfaces : List ClassType) :
    (renderClass package name fields (interfaces.map Ty.ofClass)).Decides state
      (fields.map (·.term)).Nodup (classOf package name fields interfaces) state := by
  unfold renderClass
  apply Step.Decides.andThen (JavaName.ofType_decides name)
  cases hrepeat : Naming.firstRepeat? [] (fields.map (·.term)) with
  | some repeated =>
    refine (Step.Decides.refused (by simp +decide)).congr (iff_of_false id fun hnodup => ?_)
    rw [Naming.firstRepeat?_eq_none_iff.2 ⟨hnodup, fun _ _ => List.not_mem_nil⟩] at hrepeat
    cases hrepeat
  | none =>
    dsimp only
    rw [Ty.mapM_classType?_eq_some.2 rfl]
    have hnodup := (Naming.firstRepeat?_eq_none_iff.1 hrepeat).1
    have hgetters : (fields.mapM fun field => JavaName.ofGetter field.term).Decides state True
        (fields.map fun field => JavaName.getterOf field.term) state :=
      .mapEach fun field _ => JavaName.ofGetter_decides field.term
    exact (hgetters.andThen (.logged .pure)).congr (iff_of_true trivial hnodup)

/-- A class is rendered exactly when its members differ and its parents are class types. -/
theorem renderClass_eq_ok_iff {package : QualifiedName} {name : String} {fields : List ModelField}
    {parents : List Ty} {log : Log} {definition : Definition} :
    ((renderClass package name fields parents).outcome log state).1.result = .ok definition ↔
      (fields.map (·.term)).Nodup ∧ ∃ interfaces, parents = interfaces.map Ty.ofClass ∧
        definition = classOf package name fields interfaces := by
  cases hparents : parents.mapM Ty.classType? with
  | none =>
    -- A parent that is no class type stops every run that gets as far as the parents.
    refine iff_of_false (fun h => ?_) ?_
    · unfold renderClass at h
      obtain ⟨reached, hrun⟩ := (JavaName.ofType_decides name).exists_outcome_bind trivial _ log
      rw [hrun] at h
      dsimp only at h
      rw [hparents] at h
      split at h <;> cases h
    · rintro ⟨-, interfaces, rfl, -⟩
      rw [Ty.mapM_classType?_eq_some.2 rfl] at hparents
      cases hparents
  | some interfaces =>
    obtain rfl := Ty.mapM_classType?_eq_some.1 hparents
    rw [(renderClass_decides package name fields interfaces).result_eq_ok_iff]
    refine and_congr_right fun _ => ⟨fun h => ⟨interfaces, rfl, h⟩, ?_⟩
    rintro ⟨others, hothers, rfl⟩
    rw [hothers, Ty.mapM_classType?_eq_some.2 rfl] at hparents
    rw [Option.some.inj hparents]

/-- The field that a property is settled to: the type of a required one is unboxed. -/
def settledField (propertyName : String) (type : Ty) (isRequired : Bool) : ModelField :=
  ⟨propertyName, JavaName.memberOf propertyName ⟨"field", by decide⟩,
    if isRequired then type.unboxed else type, isRequired⟩

/-- Every property becomes a field, whatever its type is. -/
theorem transformProperty_settles (className propertyName : String) (type : Ty)
    (isRequired : Bool) :
    (transformProperty className propertyName type isRequired).Decides state True
      (settledField propertyName type isRequired) state := by
  unfold transformProperty
  apply (JavaName.ofMember_decides propertyName ⟨"field", by decide⟩).andThen
  exact .logged .pure

/-- The property of a schema becomes its field. -/
theorem transformProperty_decides (className : String) (property : Property) :
    (transformProperty className property.name
      (if property.isOptional then property.type.java.optional else property.type.java)
      (!property.isOptional)).Decides state True property.field state := by
  have hfield : settledField property.name
      (if property.isOptional then property.type.java.optional else property.type.java)
      (!property.isOptional) = property.field := by
    unfold settledField Property.field
    cases property.isOptional <;> rfl
  rw [← hfield]
  exact transformProperty_settles className property.name _ _

end Model

/-! ## Enumerations -/

namespace Enumeration

/-- The names that the declaration of an enum uses. -/
def enumWords : Words :=
  ⟨.text, ⟨"value", by decide⟩, ⟨"getValue", by decide⟩, ⟨"toString", by decide⟩,
    .simple ⟨"Override", by decide⟩⟩

/-- The constants of values, with distinct names in order. -/
def constantsOf (values : List String) : List EnumConstant :=
  ((Name.uniques [] (values.map JavaName.constantOf)).zip values).map fun (name, value) =>
    ⟨name, [.text value]⟩

/-- The enum of an enumeration schema with values. -/
def enumOf (package : QualifiedName) (name : String) (values : List String) : Definition :=
  .ofDecl package [] (enumDecl (JavaName.typeOf name) (constantsOf values) enumWords)

theorem readConstants_decides (values : List String) :
    (readConstants values).Decides state True (constantsOf values) state := by
  have hzip := Name.zip_uniqueNames values JavaName.constantOf
  simp only [JavaName.text_constantOf] at hzip
  change Step.Decides (List.mapM _ (List.zip _ _)) _ _ _ _
  rw [hzip, List.mapM_map]
  apply Step.Decides.mapEach
  exact fun pair _ => (Grammar.readName_decides pair.1).andThen .pure

theorem readWords_decides : (readWords : Step σ Words).Decides state True enumWords state := by
  have hoverride : (Grammar.qualifiedName.read "Override").Decides state True
      enumWords.overrides state := Grammar.readSimpleName_decides ⟨"Override", by decide⟩
  unfold readWords
  apply Grammar.readText_decides.andThen
  apply (Grammar.readName_decides ⟨"value", by decide⟩).andThen
  apply (Grammar.readName_decides ⟨"getValue", by decide⟩).andThen
  apply (Grammar.readName_decides ⟨"toString", by decide⟩).andThen
  exact hoverride.andThen .pure

/-- An enumeration is rendered when it has a value. -/
theorem render_decides (package : QualifiedName) (name : String) (values : List String) :
    (render package name values).Decides state (values ≠ []) (enumOf package name values)
      state := by
  unfold render
  refine (Step.Decides.guarded (by simp +decide) fun _ => ?_).congr
    ⟨fun h => ?_, fun h => ⟨?_, trivial⟩⟩
  · apply Step.Decides.andThen (JavaName.ofType_decides name)
    apply Step.Decides.andThen (readConstants_decides values)
    exact Step.Decides.andThen readWords_decides (.logged .pure)
  · simpa using h.1
  · simpa using h

end Enumeration

/-! ## Named lists -/

namespace NamedList

/-- The class of an array schema with items. -/
def listOf (package : QualifiedName) (name : String) (items : Ty) : Definition :=
  .ofDecl package [] (listDecl (JavaName.typeOf name) (.plain (LibraryName.javaUtil.child
    ⟨"ArrayList", by decide⟩)) items)

/-- An array schema is rendered unless its items are optional. -/
theorem render_decides (package : QualifiedName) (name : String) (items : Ty) :
    (render package name items).Decides state (¬ items.isOptional = true)
      (listOf package name items) state := by
  have hbase : (Grammar.classType.read "java.util.ArrayList").Decides state True
      (.plain (LibraryName.javaUtil.child ⟨"ArrayList", by decide⟩)) state :=
    Grammar.read_decides (by decide +kernel)
  unfold render
  refine (Step.Decides.guarded (by simp +decide) fun _ => ?_).congr (and_iff_left trivial)
  apply (JavaName.ofType_decides name).andThen
  exact hbase.andThen (.logged .pure)

theorem isOptional_ofClass (type : ClassType) : (Ty.ofClass type).isOptional ↔
    type.name.text = "Optional" ∨ type.name.text = "java.util.Optional" := by
  simp [Ty.isOptional, Ty.name?, Ty.ofClass, Ty.classType?, RefType.classType?, ClassType.toRef]

/-- The only items that are taken for optional ones are those of a schema that is called so in
Java. -/
theorem isOptional_java {type : TypeRef} :
    type.java.isOptional ↔ ∃ name, type = .ref name ∧ Naming.typeName name = "Optional" := by
  cases type with
  | ref wire =>
    rw [TypeRef.java, isOptional_ofClass]
    change (QualifiedName.simple (JavaName.typeOf wire)).text = _ ∨
      (QualifiedName.simple (JavaName.typeOf wire)).text = _ ↔ _
    have hdot : Naming.typeName wire ≠ "java.util.Optional" := by
      intro h
      exact absurd (h ▸ Naming.isName_typeName wire) (by decide)
    simp [hdot]
  | array items =>
    rw [TypeRef.java, Ty.list, Ty.library, isOptional_ofClass]
    change LibraryName.list.text = _ ∨ LibraryName.list.text = _ ↔ _
    exact iff_of_false (by decide +kernel) nofun
  | map values =>
    rw [TypeRef.java, Ty.map, Ty.library, isOptional_ofClass]
    change LibraryName.map.text = _ ∨ LibraryName.map.text = _ ↔ _
    exact iff_of_false (by decide +kernel) nofun
  | _ =>
    refine iff_of_false ?_ nofun
    rw [TypeRef.java]
    decide +kernel

end NamedList

/-! ## Unions -/

namespace Union

/-- The constants of variants, with distinct names in order. -/
def constantsOf (variants : List UnionVariant) : List FieldDecl :=
  ((Name.uniques [] (variants.map fun variant => JavaName.constantOf variant.value)).zip
    variants).map fun (name, variant) => constantDecl .text name variant

/-- The interface of a union schema with variants. -/
def interfaceOf (package : QualifiedName) (name discriminator : String)
    (variants : List UnionVariant) : Definition :=
  .ofDecl package [] (interfaceDecl (JavaName.typeOf name) (constantsOf variants) .text
    (JavaName.getterOf (JavaName.memberOf discriminator ⟨"type", by decide⟩)))

theorem readConstants_decides (interfaceName : Name) (variants : List UnionVariant) :
    (readConstants .text interfaceName variants).Decides state True (constantsOf variants)
      state := by
  have hzip := Name.zip_uniqueNames variants fun variant => JavaName.constantOf variant.value
  simp only [JavaName.text_constantOf] at hzip
  change Step.Decides (List.mapM _ (List.zip _ _)) _ _ _ _
  rw [hzip, List.mapM_map]
  apply Step.Decides.mapEach
  exact fun pair _ => (Grammar.readName_decides pair.1).andThen (.logged .pure)

/-- A union is rendered when it has a variant. -/
theorem render_decides (package : QualifiedName) (name discriminator : String)
    (variants : List UnionVariant) :
    (render package name discriminator variants).Decides state (variants ≠ [])
      (interfaceOf package name discriminator variants) state := by
  unfold render
  refine (Step.Decides.guarded (by simp +decide) fun _ => ?_).congr
    ⟨fun h => ?_, fun h => ⟨?_, trivial⟩⟩
  · apply (JavaName.ofType_decides name).andThen
    apply Grammar.readText_decides.andThen
    apply (readConstants_decides (JavaName.typeOf name) variants).andThen
    apply (JavaName.ofMember_decides discriminator ⟨"type", by decide⟩).andThen
    apply (JavaName.ofGetter_decides _).andThen
    exact .logged .pure
  · simpa using h.1
  · simpa using h

end Union

end Stubwright
