import Stubwright.Proofs.Concern.FrameworkPieces
import Stubwright.Proofs.Concern.Resolution
import Stubwright.Proofs.Concern.SupportTypes
import Stubwright.Proofs.Definition

/-!
# Support types are read back

The class, enum or interface of a schema is read back from its file whatever the schema and its
parts are called, as long as its types nest within the limit. So is the transport interface.

## Main results

* `Model.readsBack_classOf` — the class of an object schema
* `Enumeration.readsBack_enumOf` — the enum of an enumeration, which is never without constants
* `NamedList.readsBack_listOf` — the class of an array schema
* `Union.readsBack_interfaceOf` — the interface of a union
* `Binding.readsBack_transport` — the transport interface
-/

namespace Stubwright

open Source

/-! ## Models -/

namespace Model

/-- The statement that stores a parameter is read back. -/
theorem readsBack_storeParameter (name : Name) : (storeParameter name).ReadsBack :=
  Stmt.readsBack_eval ((Expr.SpelledWithin.assignField name name).mono (by decide))

private theorem readsBack_fieldDecl {field : ModelField} (h : field.type.IsVariable)
    (owner : Name) :
    (Member.field (fieldDecl field)).ReadsBack owner :=
  Member.readsBack_field h nofun nofun

private theorem readsBack_constructorDecl {fields : List ModelField}
    (h : ∀ field ∈ fields, field.type.IsVariable) (owner : Name) :
    (Member.constructor (constructorDecl owner fields)).ReadsBack owner := by
  refine Member.readsBack_constructor rfl nofun ?_ ?_
  · intro param hparam
    obtain ⟨field, hfield, rfl⟩ := List.mem_map.1 hparam
    exact Parameter.readsBack_plain (h field hfield) field.term
  · intro stmt hstmt
    obtain ⟨field, -, rfl⟩ := List.mem_map.1 hstmt
    exact readsBack_storeParameter field.term

private theorem readsBack_accessor {annotations : List AnnotationUse} {type : Ty}
    (hannotations : ∀ use ∈ annotations, use.ReadsBack) (htype : type.nesting ≤ nestingLimit)
    (name field owner : Name) :
    (Member.method (accessor annotations type name field)).ReadsBack owner :=
  Member.readsBack_method htype hannotations nofun
    (List.forall_mem_singleton.2 (Stmt.readsBack_returns (.selfField field)))

private theorem readsBack_classDecl {fields : List ModelField} {interfaces : List ClassType}
    (hfields : ∀ field ∈ fields, field.type.IsVariable)
    (hinterfaces : ∀ type ∈ interfaces, type.toRef.nesting ≤ nestingLimit) (className : Name)
    (getters : List Name) : (classDecl className fields getters interfaces).ReadsBack := by
  refine TypeDecl.readsBack_of_parts rfl nofun hinterfaces (by simp [classDecl, TypeDecl.publicType])
    nofun ?_
  intro member hmember
  rcases List.mem_append.1 hmember with hmember | hmember
  · obtain ⟨field, hfield, rfl⟩ := List.mem_map.1 hmember
    exact readsBack_fieldDecl (hfields field hfield) className
  · rcases List.mem_cons.1 hmember with rfl | hmember
    · exact readsBack_constructorDecl hfields className
    · obtain ⟨⟨field, getter⟩, hpair, rfl⟩ := List.mem_map.1 hmember
      have hfield := hfields field (List.of_mem_zip hpair).1
      exact readsBack_accessor (List.forall_mem_nil _) hfield.2 getter field.term className

/-- The class of an object schema is read back when the types of its fields can be. -/
theorem readsBack_classOf (package : QualifiedName) (name : String) {fields : List ModelField}
    {interfaces : List ClassType} (hfields : ∀ field ∈ fields, field.type.IsVariable)
    (hinterfaces : ∀ type ∈ interfaces, type.toRef.nesting ≤ nestingLimit) :
    (classOf package name fields interfaces).ReadsBack :=
  Definition.readsBack_ofDecl nofun (readsBack_classDecl hfields hinterfaces _ _)

/-- Only an optional property adds a level to the nesting of its type. -/
theorem isVariable_field {property : Property} (h : property.type.nesting < nestingLimit) :
    property.field.type.IsVariable :=
  TypeRef.isVariable_java h property.isOptional

end Model

/-! ## Enumerations -/

namespace Enumeration

private theorem readsBack_enumDecl {constants : List EnumConstant} {words : Words}
    (hne : constants ≠ [])
    (hconstants : ∀ constant ∈ constants, constant.toCall.SpelledWithin 1)
    (htext : words.text.IsVariable) (name : Name) :
    (enumDecl name constants words).ReadsBack := by
  have hplain : ∀ use ∈ ([] : List AnnotationUse), use.ReadsBack := List.forall_mem_nil _
  refine TypeDecl.readsBack_of_parts rfl (List.forall_mem_nil _) (List.forall_mem_nil _)
    (by simp [enumDecl, TypeDecl.publicType, hne])
    (fun constant hconstant => (hconstants constant hconstant).mono (by decide)) ?_
  refine List.forall_mem_cons.2 ⟨?_, List.forall_mem_cons.2 ⟨?_, List.forall_mem_cons.2
    ⟨?_, List.forall_mem_singleton.2 ?_⟩⟩⟩
  · exact Member.readsBack_field htext hplain (List.forall_mem_nil _)
  · exact Member.readsBack_constructor rfl hplain
      (List.forall_mem_singleton.2 (Parameter.readsBack_plain htext words.value))
      (List.forall_mem_singleton.2 (Model.readsBack_storeParameter words.value))
  · exact Model.readsBack_accessor hplain htext.2 words.getValue words.value name
  · exact Model.readsBack_accessor
      (List.forall_mem_singleton.2 (AnnotationUse.readsBack_plain words.overrides)) htext.2
      words.toText words.value name

/-- Every value becomes a constant that carries it as its argument. -/
theorem spelledWithin_constantsOf (values : List String) :
    ∀ constant ∈ constantsOf values, constant.toCall.SpelledWithin 1 := by
  intro constant hconstant
  obtain ⟨⟨name, value⟩, -, rfl⟩ := List.mem_map.1 hconstant
  exact .call name (List.forall_mem_singleton.2 (.text value))

/-- An enum that has a constant is read back. -/
theorem readsBack_enumOf (package : QualifiedName) (name : String) {values : List String}
    (h : values ≠ []) : (enumOf package name values).ReadsBack := by
  have hne : constantsOf values ≠ [] := by
    rw [← List.length_pos_iff] at h ⊢
    simpa [constantsOf] using h
  exact Definition.readsBack_ofDecl nofun
    (readsBack_enumDecl hne (spelledWithin_constantsOf values) (Ty.isVariable_plain _) _)

end Enumeration

/-! ## Named lists -/

/-- The class that is extended nests one level deeper than the items. -/
theorem NamedList.readsBack_listOf (package : QualifiedName) (name : String) {items : Ty}
    (h : items.toRef.nesting < nestingLimit) : (listOf package name items).ReadsBack := by
  refine Definition.readsBack_ofDecl nofun ?_
  refine TypeDecl.readsBack_of_parts rfl (List.forall_mem_singleton.2 ?_) nofun
    (by simp [listDecl, TypeDecl.publicType]) nofun nofun
  exact (Ty.nesting_ofTypes_le (List.forall_mem_singleton.2 le_rfl)).trans h

/-! ## Unions -/

/-- The interface of a union is read back. -/
theorem Union.readsBack_interfaceOf (package : QualifiedName) (name discriminator : String)
    (variants : List UnionVariant) :
    (interfaceOf package name discriminator variants).ReadsBack := by
  have htext : Ty.text.IsVariable := Ty.isVariable_plain _
  refine Definition.readsBack_ofDecl nofun (TypeDecl.readsBack_publicType nofun ?_)
  refine List.forall_mem_append.2 ⟨List.forall_mem_map.2 fun constant hconstant => ?_,
    List.forall_mem_singleton.2 (Member.readsBack_method htext.2 nofun nofun nofun)⟩
  obtain ⟨⟨name, variant⟩, -, rfl⟩ := List.mem_map.1 hconstant
  exact Member.readsBack_field htext nofun (List.forall_mem_singleton.2 (.text variant.value))

/-! ## Transport -/

namespace Binding

private theorem readsBack_sendMethod (future : QualifiedName) (owner : Name) :
    (Member.method (sendMethod future)).ReadsBack owner := by
  have hmap : (Ty.ofClass (.ofTypes (.simple LibraryName.map.name)
      [.text, .ofClass (.plain (.simple ⟨"Object", by decide⟩))])).IsVariable :=
    ⟨nofun, by decide⟩
  have hclass : (Ty.ofClass (.ofArgs (.simple ⟨"Class", by decide⟩) [.any])).IsVariable :=
    ⟨nofun, by decide⟩
  refine Member.readsBack_method ?_ nofun ?_ nofun
  · exact (Ty.isClassWithin_library (List.forall_mem_singleton.2
      (Ty.isClassWithin_plain _))).nesting_le.trans (by decide)
  · intro param hparam
    simp only [sendMethod, List.mem_cons, List.not_mem_nil, or_false] at hparam
    rcases hparam with rfl | rfl | rfl | rfl | rfl | rfl
    · exact Parameter.readsBack_plain (Ty.isVariable_plain _) _
    · exact Parameter.readsBack_plain (Ty.isVariable_plain _) _
    · exact Parameter.readsBack_plain hmap _
    · exact Parameter.readsBack_plain hmap _
    · exact Parameter.readsBack_plain (Ty.isVariable_plain _) _
    · exact Parameter.readsBack_plain hclass _

/-- The transport is read back in every package. -/
theorem readsBack_transport (package : QualifiedName) (framework : Framework) :
    (transport package framework).ReadsBack := by
  refine Definition.readsBack_ofDecl (List.forall_mem_singleton.2 nofun)
    (TypeDecl.readsBack_publicType nofun ?_)
  exact List.forall_mem_singleton.2 (readsBack_sendMethod _ _)

end Binding

end Stubwright
