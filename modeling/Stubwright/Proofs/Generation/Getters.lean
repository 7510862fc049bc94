import Stubwright.Proofs.Generation.Discriminator
import Stubwright.Proofs.MemberWords

/-!
# The getters of a class

A class is refused when two of its properties have one Java name, and nothing is said of the getters
that are named after these. Two properties with names of their own share a getter when the names
have the same words: `aBC` and `aBc` both lead to `getABc`. This takes a run of capitals in one of
the names, as wire names with words of a single letter leave it.

## Main definitions

* `ModelField.IsSettled` — a field that some property was settled to

## Main results

* `Model.nodup_methodNames_iff` — which classes declare no method twice
* `Model.not_nodup_methodNames` — a class that does
-/

namespace Stubwright

open Source

/-- A field that some property was settled to. -/
def ModelField.IsSettled (package : QualifiedName) (field : ModelField) : Prop :=
  ∃ (className property : String) (type : Ty) (isRequired : Bool) (log : Log),
    (((Model.handler package).handle
      (.transformProperty className property type isRequired)).outcome log ()).1.result =
        .ok (.field field)

namespace Model

variable {package : QualifiedName} {name : String} {fields : List ModelField} {parents : List Ty}
  {log : Log} {definition : Definition}

/-- The Java name of a settled field is that of a member. -/
theorem exists_memberName_of_isSettled {field : ModelField} (h : field.IsSettled package) :
    ∃ property, field.term.text = Naming.memberName property "field" := by
  obtain ⟨className, property, type, isRequired, log, h⟩ := h
  obtain ⟨settled, hsettled, hfield⟩ := Step.result_bind_pure_eq_ok_iff.1 h
  obtain ⟨-, rfl⟩ := (transformProperty_settles className property type
    isRequired).result_eq_ok_iff.1 hsettled
  cases hfield
  exact ⟨property, rfl⟩

/-- The fields of required properties that are texts. -/
theorem forall_isSettled_text (properties : List String) :
    ∀ field ∈ properties.map fun property => settledField property .text true,
      field.IsSettled package := by
  rw [List.forall_mem_map]
  intro property _
  have hsettled : (transformProperty "" property .text true).Decides () True
      (settledField property .text true) () := transformProperty_settles ..
  exact ⟨"", property, .text, true, ∅, Step.result_bind_pure_eq_ok_iff.2
    ⟨_, hsettled.result_eq_ok_iff.2 ⟨trivial, rfl⟩, rfl⟩⟩

/-- A class without parents is rendered when the Java names of its fields differ. -/
theorem renderClass_of_nodup (h : (fields.map (·.term)).Nodup) :
    (((handler package).handle (.renderClass name fields [])).outcome log ()).1.result =
      .ok (.rendered (classOf package name fields [])) :=
  Step.result_bind_pure_eq_ok_iff.2 ⟨_, renderClass_eq_ok_iff.2 ⟨h, [], rfl, rfl⟩, rfl⟩

/-- The methods of a rendered class are the getters of its fields, whose Java names differ. -/
theorem methodNames_of_renderClass
    (h : (((handler package).handle (.renderClass name fields parents)).outcome log ()).1.result =
      .ok (.rendered definition)) :
    (fields.map (·.term.text)).Nodup ∧
      definition.methodNames = fields.map fun field => Naming.getterName field.term.text := by
  obtain ⟨rendered, hrendered, heq⟩ := Step.result_bind_pure_eq_ok_iff.1 h
  cases heq
  obtain ⟨hnodup, interfaces, -, rfl⟩ := renderClass_eq_ok_iff.1 hrendered
  refine ⟨?_, ?_⟩
  · rw [← List.nodup_map_iff Name.text_injective, List.map_map] at hnodup
    exact hnodup
  · change (classOf package name fields interfaces).methods.map (·.name.text) = _
    rw [methods_classOf, List.map_map]
    rfl

theorem isLower_of_mem_field : ∀ c ∈ "field".toList, c.isLower :=
  List.all_eq_true.1 (by decide)

/-- A rendered class whose fields were settled from properties declares no method twice exactly when
the Java names of the properties have different words. So it does not when no two capitals stand
next to each other in any of them. -/
theorem nodup_methodNames_iff (hfields : ∀ field ∈ fields, field.IsSettled package)
    (h : (((handler package).handle (.renderClass name fields parents)).outcome log ()).1.result =
      .ok (.rendered definition)) :
    (definition.methodNames.Nodup ↔
        (fields.map fun field => Naming.tokens field.term.text).Nodup) ∧
      ((∀ field ∈ fields, Naming.CapitalsApart field.term.text) →
        definition.methodNames.Nodup) := by
  obtain ⟨hnodup, hmethods⟩ := methodNames_of_renderClass h
  have hiff : definition.methodNames.Nodup ↔
      (fields.map fun field => Naming.tokens field.term.text).Nodup := by
    rw [hmethods, List.Nodup, List.Nodup, List.pairwise_map, List.pairwise_map]
    refine List.Pairwise.iff_of_mem fun {first second} hfirst hsecond => not_congr ?_
    obtain ⟨property, hproperty⟩ := exists_memberName_of_isSettled (hfields first hfirst)
    obtain ⟨other, hother⟩ := exists_memberName_of_isSettled (hfields second hsecond)
    rw [hproperty, hother]
    exact Naming.getterName_memberName_eq_iff isLower_of_mem_field property other
  refine ⟨hiff, fun hapart => hiff.2 ?_⟩
  -- The terms differ, and where capitals stand apart nothing but their words can tell them apart.
  rw [List.Nodup, List.pairwise_map] at hnodup ⊢
  refine hnodup.imp_of_mem fun {first second} hfirst hsecond hne htokens => hne ?_
  obtain ⟨property, hproperty⟩ := exists_memberName_of_isSettled (hfields first hfirst)
  obtain ⟨other, hother⟩ := exists_memberName_of_isSettled (hfields second hsecond)
  have hfirst := hapart first hfirst
  have hsecond := hapart second hsecond
  rw [hproperty] at hfirst htokens ⊢
  rw [hother] at hsecond htokens ⊢
  exact Naming.memberName_eq_of_tokens_eq isLower_of_mem_field hfirst hsecond htokens

theorem nodup_methodNames_iff_initials :
    ∃ (fields : List ModelField) (definition : Definition),
      (∀ field ∈ fields, field.IsSettled GeneratorConfig.standardPackage) ∧
        (((handler GeneratorConfig.standardPackage).handle
          (.renderClass "person" fields [])).outcome ∅ ()).1.result = .ok (.rendered definition) ∧
        fields.map (·.term.text) = ["initialsABC", "initialsAb", "class_", "_2Nd"] ∧
          definition.methodNames.Nodup := by
  obtain ⟨fields, hfields⟩ : ∃ fields : List ModelField, fields =
    ["initials a b c", "initials_ab", "class", "2nd"].map fun property =>
      settledField property .text true := ⟨_, rfl⟩
  have hsettled : ∀ field ∈ fields, field.IsSettled GeneratorConfig.standardPackage := by
    rw [hfields]
    exact forall_isSettled_text _
  have hterms : (fields.map (·.term)).Nodup := by
    rw [hfields]
    decide +kernel
  have hrendered : (((handler GeneratorConfig.standardPackage).handle
      (.renderClass "person" fields [])).outcome ∅ ()).1.result = _ :=
    renderClass_of_nodup hterms
  refine ⟨fields, _, hsettled, hrendered, ?_, (nodup_methodNames_iff hsettled hrendered).1.2 ?_⟩
  all_goals
    rw [hfields]
    decide +kernel

/-- Two properties with names of their own, and one getter for both. -/
theorem not_nodup_methodNames :
    ∃ (fields : List ModelField) (definition : Definition),
      (∀ field ∈ fields, field.IsSettled GeneratorConfig.standardPackage) ∧
        (((handler GeneratorConfig.standardPackage).handle
          (.renderClass "letters" fields [])).outcome ∅ ()).1.result = .ok (.rendered definition) ∧
        fields.map (·.name) = ["a_b_c", "a_bc"] ∧ fields.map (·.term.text) = ["aBC", "aBc"] ∧
          definition.methodNames = ["getABc", "getABc"] ∧ ¬ definition.methodNames.Nodup := by
  obtain ⟨fields, hfields⟩ : ∃ fields : List ModelField, fields =
    ["a_b_c", "a_bc"].map fun property => settledField property .text true := ⟨_, rfl⟩
  have hsettled : ∀ field ∈ fields, field.IsSettled GeneratorConfig.standardPackage := by
    rw [hfields]
    exact forall_isSettled_text _
  have hterms : (fields.map (·.term)).Nodup := by
    rw [hfields]
    decide +kernel
  refine ⟨fields, _, hsettled, renderClass_of_nodup hterms, ?_⟩
  rw [hfields]
  decide +kernel

end Model

end Stubwright
