import Stubwright.Proofs.Generation.Discriminator
import Stubwright.Proofs.Generation.Files

/-!
# The interfaces of a class

Unions list their variants, and the class of a variant implements the unions that list it. A run
inverts the relation by going through the unions in order and through the variants of each.

A union that lists a variant twice is met twice on the way. The class then names its interface
twice, which is more than the relation holds and more than a class may say.

## Main definitions

* `Schema.variants` — the schemas that a schema lists as its variants
* `Definition.interfaces` — what the types of a file implement
* `ApiDescription.unionsListing`, `ApiDescription.ListsOnce` — the unions that list a variant

## Main results

* `interfaces_of_generate` — the interfaces of the class of an object schema
* `interfaces_of_generate_twice` — a class that names an interface twice
-/

namespace Stubwright

open Source

/-! ## Variants -/

/-- The variants that a schema lists, as they stand there. Only unions have some. -/
def Schema.variants : Schema → List String
  | .union _ variants => variants
  | .object _ | .enumeration _ | .array _ => []

/-- Every union contributes its name as often as it lists the variant. -/
theorem unionsOf_eq_flatMap_replicate (schemas : List SchemaDef) (variant : String) :
    unionsOf schemas variant = schemas.flatMap fun declared =>
      List.replicate (declared.schema.variants.count variant) declared.name := by
  unfold unionsOf
  refine List.flatMap_congr fun declared _ => ?_
  obtain ⟨name, schema⟩ := declared
  cases schema with
  | union discriminator variants =>
    simp only [Schema.variants, List.map_const', List.count_eq_length_filter, beq_eq_decide]
  | object properties => rfl
  | enumeration values => rfl
  | array items => rfl

/-- Items that are repeated once at most are those that are repeated at all. -/
theorem flatMap_replicate_eq_map_filter {α β : Type} {count : α → Nat} {f : α → β} {items : List α}
    (h : ∀ item ∈ items, count item ≤ 1) :
    (items.flatMap fun item => List.replicate (count item) (f item)) =
      (items.filter fun item => 0 < count item).map f := by
  induction items with
  | nil => rfl
  | cons first rest ih =>
    obtain ⟨hfirst, hrest⟩ := List.forall_mem_cons.1 h
    rw [List.flatMap_cons, List.filter_cons, ih hrest]
    obtain hcount | hcount : count first = 0 ∨ count first = 1 := by omega
    · rw [hcount]
      rfl
    · rw [hcount]
      rfl

/-! ## Interfaces -/

/-- What the types of a file implement, in order. -/
def Definition.interfaces (definition : Definition) : List ClassType :=
  definition.file.types.flatMap (·.interfaces)

/-- A file declares one type, an interface. -/
def Definition.IsInterface (definition : Definition) : Prop :=
  definition.file.types.map (·.kind) = [.interfaceType]

instance (definition : Definition) : Decidable definition.IsInterface :=
  inferInstanceAs (Decidable (definition.file.types.map (·.kind) = [.interfaceType]))

@[simp] theorem Model.interfaces_classOf (package : QualifiedName) (name : String)
    (fields : List ModelField) (interfaces : List ClassType) :
    (classOf package name fields interfaces).interfaces = interfaces :=
  List.append_nil _

/-- The class of an object schema takes an interface from a union for every listing. -/
theorem SchemaDef.interfaces_definition (package : QualifiedName) (schemas : List SchemaDef)
    (name : String) (properties : List Property) :
    (definition package schemas ⟨name, .object properties⟩).interfaces =
      schemas.flatMap fun declared =>
        List.replicate (declared.schema.variants.count name) (unionInterface declared.name) := by
  rw [definition, Model.interfaces_classOf, unionsOf_eq_flatMap_replicate, List.map_flatMap]
  simp only [List.map_replicate]

/-- A union that lists a variant becomes an interface, and is referred to by its name. -/
theorem SchemaDef.isInterface_definition (package : QualifiedName) (schemas : List SchemaDef)
    {declared : SchemaDef} {variant : String} (h : variant ∈ declared.schema.variants) :
    (declared.definition package schemas).IsInterface ∧ unionInterface declared.name =
      .plain (.simple (declared.definition package schemas).name) := by
  rw [name_definition]
  obtain ⟨name, schema⟩ := declared
  cases schema with
  | union discriminator variants => exact ⟨rfl, rfl⟩
  | object properties => cases h
  | enumeration values => cases h
  | array items => cases h

theorem unionInterface_inj {first second : String} :
    unionInterface first = unionInterface second ↔
      Naming.typeName first = Naming.typeName second := by
  simp [unionInterface, ClassType.plain, QualifiedName.simple, JavaName.typeOf]

/-- A type that was generated is the only one of its name. -/
theorem Generation.eq_of_mem_definitions {package : QualifiedName} {config : GeneratorConfig}
    {description : ApiDescription} (h : description.IsAccepted config) {first second : Definition}
    (hfirst : first ∈ (generated package config description).definitions)
    (hsecond : second ∈ (generated package config description).definitions)
    (hname : first.name.text = second.name.text) : first = second := by
  have hnames := (names_generated_perm package config description).nodup_iff.2 h.nodup_typeNames
  exact List.inj_on_of_nodup_map hnames hfirst hsecond hname

/-- The support types are among the definitions. -/
theorem Codegen.mem_definitions_of_support {result : Codegen} {definition : Definition}
    (h : definition ∈ result.support) : definition ∈ result.definitions :=
  List.mem_append_left _ (List.mem_append_left _ h)

/-! ## The interfaces of a class -/

namespace ApiDescription

variable (description : ApiDescription) (variant : String)

/-- The unions that list a variant, in order of declaration. -/
def unionsListing : List SchemaDef :=
  description.schemas.filter fun declared => variant ∈ declared.schema.variants

/-- No union lists a variant more than once. -/
def ListsOnce : Prop :=
  ∀ declared ∈ description.schemas, declared.schema.variants.count variant ≤ 1

instance : Decidable (description.ListsOnce variant) :=
  inferInstanceAs (Decidable (∀ declared ∈ description.schemas,
    declared.schema.variants.count variant ≤ 1))

variable {description variant}

/-- The interfaces of different unions differ, since their Java names do. -/
theorem IsAccepted.nodup_unionInterface {config : GeneratorConfig}
    (h : description.IsAccepted config) :
    ((description.unionsListing variant).map fun union => unionInterface union.name).Nodup := by
  have htypes := h.distinct
  rw [schemaTypes, List.Nodup, List.pairwise_map] at htypes
  rw [List.Nodup, List.pairwise_map]
  exact (htypes.imp fun hne heq => hne (unionInterface_inj.1 heq)).filter _

/-- What unions contribute is one interface each when none of them lists the variant twice. -/
theorem ListsOnce.flatMap_replicate (h : description.ListsOnce variant) :
    (description.schemas.flatMap fun declared => List.replicate
        (declared.schema.variants.count variant) (unionInterface declared.name)) =
      (description.unionsListing variant).map fun union => unionInterface union.name := by
  have hcount (declared : SchemaDef) : (variant ∈ declared.schema.variants) =
      (0 < declared.schema.variants.count variant) := propext List.count_pos_iff.symm
  simp only [unionsListing, hcount]
  exact flatMap_replicate_eq_map_filter (f := fun declared => unionInterface declared.name) h

/-- An interface is repeated when a union lists the variant twice. -/
theorem listsOnce_of_nodup (h : (description.schemas.flatMap fun declared => List.replicate
    (declared.schema.variants.count variant) (unionInterface declared.name)).Nodup) :
    description.ListsOnce variant := fun declared hdeclared =>
  List.nodup_replicate.1 ((List.nodup_flatMap.1 h).1 declared hdeclared)

end ApiDescription

/-- In a successful run the class of an object schema implements, union by union in the order of the
schemas, the interface of each union as often as the union lists the schema. So these are the unions
that list the schema, each once, exactly when none of them lists it twice, and there are none when
none lists it. -/
theorem interfaces_of_generate {σ : Type} {config : GeneratorConfig} {description : ApiDescription}
    {log : Log} {state : σ} {result : Codegen}
    (h : ((generate description config).outcome log state).1.result = .ok result)
    {name : String} {properties : List Property}
    (hobject : ⟨name, .object properties⟩ ∈ description.schemas) :
    ∃ model ∈ result.definitions, model.name.text = Naming.typeName name ∧
      (∀ other ∈ result.definitions, other.name.text = Naming.typeName name → other = model) ∧
      model.interfaces = (description.schemas.flatMap fun declared =>
        List.replicate (declared.schema.variants.count name) (unionInterface declared.name)) ∧
      (model.interfaces =
          (description.unionsListing name).map (fun union => unionInterface union.name) ↔
        description.ListsOnce name) ∧
      (model.interfaces.Nodup ↔ description.ListsOnce name) ∧
      (model.interfaces = [] ↔ description.unionsListing name = []) ∧
      ∀ type ∈ model.interfaces, ∃ interface ∈ result.definitions,
        interface.IsInterface ∧ type = .plain (.simple interface.name) := by
  obtain ⟨package, -, haccepted, rfl⟩ := result_generate_eq_ok_iff.1 h
  have hmem {declared : SchemaDef} (hdeclared : declared ∈ description.schemas) :
      declared.definition package description.schemas ∈
        (Generation.generated package config description).definitions :=
    Codegen.mem_definitions_of_support (Generation.definition_mem_support hdeclared)
  refine ⟨_, hmem hobject, by simp, fun other hother hname =>
    Generation.eq_of_mem_definitions haccepted hother (hmem hobject) (by simpa using hname),
    SchemaDef.interfaces_definition .., ?_, ?_, ?_, ?_⟩
  all_goals rw [SchemaDef.interfaces_definition]
  -- Interfaces of different unions differ, so they repeat only where one union lists twice.
  · exact ⟨fun heq => ApiDescription.listsOnce_of_nodup (heq ▸ haccepted.nodup_unionInterface),
      fun honce => honce.flatMap_replicate⟩
  · exact ⟨ApiDescription.listsOnce_of_nodup,
      fun honce => honce.flatMap_replicate ▸ haccepted.nodup_unionInterface⟩
  · simp [ApiDescription.unionsListing, List.flatMap_eq_nil_iff, List.count_eq_zero]
  · intro type htype
    obtain ⟨declared, hdeclared, hrepeated⟩ := List.mem_flatMap.1 htype
    obtain ⟨hcount, rfl⟩ := List.mem_replicate.1 hrepeated
    have hlists : name ∈ declared.schema.variants := List.count_pos_iff.1 (by omega)
    obtain ⟨hinterface, heq⟩ := declared.isInterface_definition package description.schemas hlists
    exact ⟨_, hmem hdeclared, hinterface, heq⟩

theorem interfaces_of_generate_shapes :
    ∃ (description : ApiDescription) (result : Codegen),
      ((generate description .standard).outcome ∅ ()).1.result = .ok result ∧
        ∃ model ∈ result.definitions, model.name.text = "Circle" ∧
          model.interfaces = [unionInterface "shape", unionInterface "figure"] ∧
          model.interfaces.Nodup := by
  obtain ⟨description, hdescription⟩ : ∃ description : ApiDescription, description =
    ⟨none, [⟨"shape", .union "kind" ["circle", "square"]⟩,
      ⟨"circle", .object [⟨"kind", .string, false⟩]⟩,
      ⟨"polygon", .union "kind" ["square"]⟩,
      ⟨"square", .object [⟨"kind", .string, false⟩]⟩,
      ⟨"figure", .union "kind" ["square", "circle"]⟩], []⟩ := ⟨_, rfl⟩
  have haccepted : description.IsAccepted .standard := by
    rw [hdescription]
    decide +kernel
  have h : ((generate description .standard).outcome ∅ ()).1.result = _ :=
    result_generate_standard haccepted
  have hobject : ⟨"circle", .object [⟨"kind", .string, false⟩]⟩ ∈ description.schemas := by
    rw [hdescription]
    decide
  have honce : description.ListsOnce "circle" := by
    rw [hdescription]
    decide
  obtain ⟨model, hmodel, hname, -, -, hinterfaces, hnodup, -⟩ := interfaces_of_generate h hobject
  refine ⟨description, _, h, model, hmodel, hname.trans ?_, (hinterfaces.2 honce).trans ?_,
    hnodup.2 honce⟩
  · decide +kernel
  · rw [hdescription]
    rfl

/-- The union lists its variant twice, and the class of the variant names the interface twice. -/
theorem interfaces_of_generate_twice :
    ∃ result, ((generate ⟨none, [⟨"shape", .union "kind" ["circle", "circle"]⟩,
        ⟨"circle", .object [⟨"kind", .string, false⟩]⟩], []⟩ .standard).outcome ∅ ()).1.result =
          .ok result ∧
      ∃ model ∈ result.definitions, model.name.text = "Circle" ∧
        model.interfaces = [unionInterface "shape", unionInterface "shape"] ∧
          ¬ model.interfaces.Nodup := by
  obtain ⟨description, hdescription⟩ : ∃ description : ApiDescription, description =
    ⟨none, [⟨"shape", .union "kind" ["circle", "circle"]⟩,
      ⟨"circle", .object [⟨"kind", .string, false⟩]⟩], []⟩ := ⟨_, rfl⟩
  rw [← hdescription]
  have haccepted : description.IsAccepted .standard := by
    rw [hdescription]
    decide +kernel
  refine ⟨_, result_generate_standard haccepted, ?_⟩
  rw [hdescription]
  decide +kernel

end Stubwright
