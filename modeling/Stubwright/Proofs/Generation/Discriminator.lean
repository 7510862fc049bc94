import Stubwright.Proofs.Generation.Contents

/-!
# The getters of discriminators

The interface of a union declares a getter for the discriminator, and the classes of its variants
implement the interface. What a class has to supply for that is the getter of its own discriminator
property, which is named after the same wire name.

The two names are made apart from each other. They agree whenever the wire name has an ASCII letter
or digit. Without any the interface falls back on `type` and the class on `field`, so that the class
supplies the getter only if another of its properties happens to have it.

## Main definitions

* `Definition.Supplies` — a file that declares what a getter asks for

## Main results

* `Property.type_field_eq_text_iff` — which properties have a getter that returns a text
* `supplies_getter_iff_of_generate` — which variants supply the getter of their union
* `not_supplies_getter_of_generate` — a variant that does not
-/

namespace Stubwright

open Source

/-! ## Methods -/

/-- A file declares a method without parameters that has the name of a getter and returns what the
getter does. -/
def Definition.Supplies (definition : Definition) (getter : MethodDecl) : Prop :=
  ∃ method ∈ definition.methods,
    method.name = getter.name ∧ method.params = [] ∧ method.returnType = getter.returnType

instance (definition : Definition) (getter : MethodDecl) :
    Decidable (definition.Supplies getter) :=
  inferInstanceAs (Decidable (∃ method ∈ definition.methods,
    method.name = getter.name ∧ method.params = [] ∧ method.returnType = getter.returnType))

/-- The methods of a class are the getters of its fields. -/
theorem Model.methods_classOf (package : QualifiedName) (name : String) (fields : List ModelField)
    (interfaces : List ClassType) : (classOf package name fields interfaces).methods =
      fields.map fun field =>
        accessor [] field.type (JavaName.getterOf field.term) field.term := by
  have hzip : fields.zip (fields.map fun field => JavaName.getterOf field.term) =
      fields.map fun field => (field, JavaName.getterOf field.term) :=
    List.map_prod_left_eq_zip.symm
  rw [classOf, Definition.methods_ofDecl]
  refine TypeDecl.methods_of_members (fields.map (Source.Member.field ∘ fieldDecl) ++
    [.constructor (constructorDecl (JavaName.typeOf name) fields)]) _ ?_ ?_
  · simp [classDecl, TypeDecl.publicType, hzip]
  · rw [List.forall_mem_append, List.forall_mem_map, List.forall_mem_singleton]
    exact ⟨by simp, by simp⟩

theorem Model.supplies_classOf {package : QualifiedName} {name : String}
    {properties : List Property} {interfaces : List ClassType} {getter : MethodDecl} :
    (classOf package name (properties.map Property.field) interfaces).Supplies getter ↔
      ∃ property ∈ properties,
        JavaName.getterOf property.term = getter.name ∧
          property.field.type = getter.returnType := by
  simp [Definition.Supplies, methods_classOf, accessor, Property.field]

/-- The only method of an interface is the getter of the discriminator. -/
theorem Union.methods_interfaceOf (package : QualifiedName) (name discriminator : String)
    (variants : List UnionVariant) : (interfaceOf package name discriminator variants).methods =
      [⟨[], [], [], .text,
        JavaName.getterOf (JavaName.memberOf discriminator ⟨"type", by decide⟩), [], none⟩] := by
  rw [interfaceOf, Definition.methods_ofDecl]
  exact TypeDecl.methods_of_members ((constantsOf variants).map .field) [_] rfl (by simp)

/-! ## Properties that are texts -/

theorem Source.Ty.ofClass_eq_text_iff {type : ClassType} : Ty.ofClass type = .text ↔
    type.name = .simple ⟨"String", by decide⟩ ∧ type.args = [] := by
  simp [Ty.text, ofClass, ClassType.toRef, ClassType.plain]

/-- A library type with arguments is not `String`, which has none. -/
theorem Source.Ty.library_ne_text (name : QualifiedName) (first : Ty) (rest : List Ty) :
    library name (first :: rest) ≠ .text := by
  simp [library, ofClass_eq_text_iff, ClassType.ofTypes]

/-- The class `String` wraps no primitive type. -/
theorem Source.Ty.unboxed_eq_text_iff {type : Ty} : type.unboxed = .text ↔ type = .text := by
  have htext : Ty.text.unboxed = .text := rfl
  refine ⟨fun h => ?_, fun h => h ▸ htext⟩
  unfold unboxed at h
  split at h
  · split at h
    · cases h
    · exact h
  · exact h

/-- The type `String` is that of texts and of references to a schema that is called so in Java. -/
theorem TypeRef.java_eq_text_iff {type : TypeRef} :
    type.java = .text ↔
      type = .string ∨ ∃ name, type = .ref name ∧ Naming.typeName name = "String" := by
  cases type with
  | string => simp [java]
  | ref name =>
    simp [java, Ty.ofClass_eq_text_iff, ClassType.plain, QualifiedName.simple, JavaName.typeOf]
  | array items => simp [java, Ty.list, Ty.library_ne_text]
  | map values => simp [java, Ty.map, Ty.library_ne_text]
  | _ =>
    refine iff_of_false ?_ (by simp)
    rw [java]
    decide

/-- A getter returns a text where the property is a required one with that type, or a required
reference to a schema that is called `String` in Java. -/
theorem Property.type_field_eq_text_iff {property : Property} :
    property.field.type = .text ↔ property.isOptional = false ∧ (property.type = .string ∨
      ∃ name, property.type = .ref name ∧ Naming.typeName name = "String") := by
  rw [← TypeRef.java_eq_text_iff, field]
  cases property.isOptional
  · simp [Ty.unboxed_eq_text_iff]
  · simp [Ty.optional, Ty.library_ne_text]

/-! ## Variants and their unions -/

/-- Without a letter or digit in the name of the discriminator, the getter is called after the
fallback of the union. -/
theorem Union.getterName_of_no_words {discriminator : String}
    (h : ¬ ∃ c ∈ discriminator.toList, c.isAlphanum) :
    Naming.getterName (Naming.memberName discriminator "type") = "getType" := by
  rw [Naming.memberName_eq_empty h]
  decide +kernel

/-- The type of a schema is one of the support types. -/
theorem Generation.definition_mem_support {package : QualifiedName} {config : GeneratorConfig}
    {description : ApiDescription} {declared : SchemaDef} (h : declared ∈ description.schemas) :
    declared.definition package description.schemas ∈
      (generated package config description).support := by
  rw [support_generated]
  exact List.mem_append_left _ (List.mem_map_of_mem h)

section

variable {config : GeneratorConfig} {description : ApiDescription}

/-- In an accepted description only texts have a getter that returns a text, since no schema is
called `String` in Java. -/
theorem ApiDescription.IsAccepted.type_field_eq_text_iff (h : description.IsAccepted config)
    {declared : SchemaDef} (hdeclared : declared ∈ description.schemas)
    {properties : List Property} (hproperties : declared.schema = .object properties)
    {property : Property} (hproperty : property ∈ properties) :
    property.field.type = .text ↔ property.type = .string ∧ property.isOptional = false := by
  rw [Property.type_field_eq_text_iff, and_comm, or_iff_left]
  rintro ⟨name, href, htext⟩
  have htype : property.type ∈ declared.schema.typeRefs := by
    rw [hproperties]
    exact List.mem_map_of_mem hproperty
  have hname : name ∈ property.type.refs := by
    rw [href]
    exact List.mem_singleton_self name
  obtain ⟨target, htarget, rfl⟩ := h.references declared hdeclared _ htype name hname
  refine h.free _ (List.mem_map_of_mem htarget) ?_
  rw [htext]
  decide

variable {σ : Type} {log : Log} {state : σ} {result : Codegen}

/-- In a successful run every variant of a union is an object schema. Its class supplies the getter
of the interface of the union exactly when the name of the discriminator has an ASCII letter or
digit, or the getter of another required text is `getType`. -/
theorem supplies_getter_iff_of_generate
    (h : ((generate description config).outcome log state).1.result = .ok result)
    {union discriminator : String} {variants : List String}
    (hunion : ⟨union, .union discriminator variants⟩ ∈ description.schemas)
    {variant : String} (hvariant : variant ∈ variants) :
    ∃ properties, ⟨variant, .object properties⟩ ∈ description.schemas ∧
      ∃ interface ∈ result.support, interface.name.text = Naming.typeName union ∧
      ∃ model ∈ result.support, model.name.text = Naming.typeName variant ∧
      ∃ getter, interface.methods = [getter] ∧
        (model.Supplies getter ↔ (∃ c ∈ discriminator.toList, c.isAlphanum) ∨
          ∃ property ∈ properties,
            Naming.getterName (Naming.memberName property.name "field") = "getType" ∧
              property.type = .string ∧ property.isOptional = false) := by
  obtain ⟨package, -, haccepted, rfl⟩ := result_generate_eq_ok_iff.1 h
  obtain ⟨properties, hmodel, found, hfind, hstring, hrequired⟩ :=
    (haccepted.variants _ hunion discriminator variants rfl).2 variant hvariant
  refine ⟨properties, hmodel, _, Generation.definition_mem_support hunion, by simp,
    _, Generation.definition_mem_support hmodel, by simp,
    _, Union.methods_interfaceOf package union discriminator _, ?_⟩
  rw [SchemaDef.definition, Model.supplies_classOf]
  by_cases hwords : ∃ c ∈ discriminator.toList, c.isAlphanum
  · -- The discriminator property itself has the getter, whatever the fallbacks are.
    refine iff_of_true ⟨found, List.mem_of_find?_eq_some hfind, ?_, ?_⟩ (.inl hwords)
    · have hname : found.name = discriminator := by simpa using List.find?_some hfind
      refine Name.text_injective ?_
      rw [JavaName.text_getterOf, JavaName.text_getterOf, Property.term, hname]
      exact congrArg Naming.getterName (Naming.memberName_eq_memberName hwords "field" "type")
    · exact (haccepted.type_field_eq_text_iff hmodel rfl (List.mem_of_find?_eq_some hfind)).2
        ⟨hstring, hrequired⟩
  · rw [or_iff_right hwords]
    refine exists_congr fun property => and_congr_right fun hproperty => ?_
    rw [haccepted.type_field_eq_text_iff hmodel rfl hproperty, ← Name.text_injective.eq_iff]
    refine and_congr_left' ?_
    rw [JavaName.text_getterOf, JavaName.text_getterOf, JavaName.text_memberOf,
      Union.getterName_of_no_words hwords]
    rfl

end

theorem supplies_getter_iff_of_generate_shapes :
    ∃ (description : ApiDescription) (result : Codegen),
      ((generate description .standard).outcome ∅ ()).1.result = .ok result ∧
        ∃ interface ∈ result.support, interface.name.text = "Shape" ∧
        ∃ model ∈ result.support, model.name.text = "Circle" ∧
        ∃ getter, interface.methods = [getter] ∧ model.Supplies getter := by
  obtain ⟨description, hdescription⟩ : ∃ description : ApiDescription, description =
    ⟨none, [⟨"shape", .union "class" ["circle"]⟩,
      ⟨"circle", .object [⟨"class", .string, false⟩, ⟨"radius", .number, true⟩]⟩], []⟩ := ⟨_, rfl⟩
  have haccepted : description.IsAccepted .standard := by
    rw [hdescription]
    decide +kernel
  have h : ((generate description .standard).outcome ∅ ()).1.result = _ :=
    result_generate_standard haccepted
  have hunion : ⟨"shape", .union "class" ["circle"]⟩ ∈ description.schemas := by
    rw [hdescription]
    exact List.mem_cons_self
  obtain ⟨properties, -, interface, hinterface, hshape, model, hmodel, hcircle, getter, hgetter,
    hsupplies⟩ := supplies_getter_iff_of_generate h hunion (List.mem_singleton_self "circle")
  refine ⟨description, _, h, interface, hinterface, hshape.trans ?_, model, hmodel,
    hcircle.trans ?_, getter, hgetter, hsupplies.2 (.inl ?_)⟩
  · decide +kernel
  · decide +kernel
  · exact ⟨'c', by decide, by decide⟩

/-- The name of the discriminator has no ASCII letter or digit, so the interface asks for `getType`
while all that the class has is `getField`. -/
theorem not_supplies_getter_of_generate :
    ∃ result, ((generate ⟨none, [⟨"shape", .union "種類" ["circle"]⟩,
        ⟨"circle", .object [⟨"種類", .string, false⟩]⟩], []⟩ .standard).outcome ∅ ()).1.result =
          .ok result ∧
      ∃ interface ∈ result.support, interface.name.text = "Shape" ∧
      ∃ model ∈ result.support, model.name.text = "Circle" ∧
        interface.methodNames = ["getType"] ∧ model.methodNames = ["getField"] ∧
          ∀ getter ∈ interface.methods, ¬ model.Supplies getter := by
  obtain ⟨description, hdescription⟩ : ∃ description : ApiDescription, description =
    ⟨none, [⟨"shape", .union "種類" ["circle"]⟩,
      ⟨"circle", .object [⟨"種類", .string, false⟩]⟩], []⟩ := ⟨_, rfl⟩
  rw [← hdescription]
  have haccepted : description.IsAccepted .standard := by
    rw [hdescription]
    decide +kernel
  refine ⟨_, result_generate_standard haccepted, ?_⟩
  rw [hdescription]
  decide +kernel

end Stubwright
