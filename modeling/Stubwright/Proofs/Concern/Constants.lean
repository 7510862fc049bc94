import Stubwright.Proofs.Concern.SupportTypes

/-!
# Constants of enumerations and unions

Values on the wire may be any texts and may repeat, so several of them may ask for one Java name.
Each gets a constant that holds it unchanged, and the names are made distinct: where one is taken, a
number is appended that makes it free.

## Main definitions

* `Source.TypeDecl.fields` — the fields that a type declares

## Main results

* `Source.Name.map_zip_uniques` — what is made of items beside names that are made distinct
* `render_constants` — which constants the enum of an enumeration and the interface of a union have
-/

namespace Stubwright

open Source

/-! ## Items beside distinct names -/

/-- What is made of items beside names that are made distinct has distinct names, and tells the
items in order. -/
theorem Source.Name.map_zip_uniques {α β γ : Type} (items : List α) (base : α → Name)
    {build : Name × α → β} {name : β → Name} {part : β → γ} {source : α → γ}
    (hname : ∀ pair, name (build pair) = pair.1)
    (hpart : ∀ pair, part (build pair) = source pair.2) :
    let built := ((Name.uniques [] (items.map base)).zip items).map build
    (built.map name).Nodup ∧ built.map part = items.map source := by
  have hlength : (Name.uniques [] (items.map base)).length = items.length := by simp
  intro built
  have hnames : built.map name = Name.uniques [] (items.map base) := by
    conv_rhs => rw [← List.map_fst_zip hlength.le]
    rw [List.map_map]
    exact List.map_congr_left fun pair _ => hname pair
  have hparts : built.map part = items.map source := by
    conv_rhs => rw [← List.map_snd_zip hlength.ge]
    rw [List.map_map, List.map_map]
    exact List.map_congr_left fun pair _ => hpart pair
  exact ⟨hnames ▸ Name.nodup_uniques [] _, hparts⟩

/-! ## Constants -/

theorem Enumeration.constantsOf_spec (values : List String) :
    ((Enumeration.constantsOf values).map (·.name)).Nodup ∧
      (Enumeration.constantsOf values).map (·.args) = values.map fun value => [.text value] :=
  Name.map_zip_uniques values JavaName.constantOf (fun _ => rfl) fun _ => rfl

example : (Enumeration.constantsOf ["v2", "v 2", "v22", "v2"]).map (·.name.text) =
    ["V_2", "V_22", "V_222", "V_23"] := by decide +kernel

theorem Union.constantsOf_spec (variants : List UnionVariant) :
    ((Union.constantsOf variants).map (·.name)).Nodup ∧
      (Union.constantsOf variants).map (·.init) =
        variants.map fun variant => some (.text variant.value) :=
  Name.map_zip_uniques variants (fun variant => JavaName.constantOf variant.value) (fun _ => rfl)
    fun _ => rfl

/-- The fields that a type declares, in order. -/
def Source.TypeDecl.fields (decl : TypeDecl) : List FieldDecl :=
  decl.members.filterMap fun
    | .field field => some field
    | .constructor _ | .method _ => none

theorem Union.fields_interfaceDecl (name : Name) (constants : List FieldDecl) (text : Ty)
    (getter : Name) : (Union.interfaceDecl name constants text getter).fields = constants := by
  unfold TypeDecl.fields Union.interfaceDecl TypeDecl.publicType
  rw [List.filterMap_append, List.filterMap_map]
  exact (List.append_nil _).trans List.filterMap_some

/-- Any values but none at all make an enum with a constant for each value in order, whose only
argument is the value. Any variants but none at all make an interface with a text constant for each
variant in order, which holds the value of the variant. The names of the constants differ. -/
theorem render_constants (package : QualifiedName) (name : String) (log : Log) :
    (∀ values : List String, values ≠ [] → ∃ decl : TypeDecl,
      (((Enumeration.handler package).handle ⟨name, values⟩).outcome log ()).1.result =
        .ok (.ofDecl package [] decl) ∧
      decl.kind = .enumType ∧
      decl.constants.map (·.args) = values.map (fun value => [.text value]) ∧
      (decl.constants.map (·.name)).Nodup) ∧
    ∀ (discriminator : String) (variants : List UnionVariant), variants ≠ [] → ∃ decl : TypeDecl,
      (((Union.handler package).handle ⟨name, discriminator, variants⟩).outcome log ()).1.result =
        .ok (.ofDecl package [] decl) ∧
      decl.kind = .interfaceType ∧
      (∀ field ∈ decl.fields, field.type = .text ∧
        field.modifiers = [.isPublic, .isStatic, .isFinal]) ∧
      decl.fields.map (·.init) = variants.map (fun variant => some (.text variant.value)) ∧
      (decl.fields.map (·.name)).Nodup := by
  refine ⟨fun values hvalues => ?_, fun discriminator variants hvariants => ?_⟩
  · obtain ⟨hnames, hargs⟩ := Enumeration.constantsOf_spec values
    exact ⟨_, ((Enumeration.render_decides package name values).answers hvalues log).1, rfl, hargs,
      hnames⟩
  · obtain ⟨hnames, hinits⟩ := Union.constantsOf_spec variants
    refine ⟨_, ((Union.render_decides package name discriminator variants).answers hvariants log).1,
      rfl, ?_⟩
    rw [Union.fields_interfaceDecl]
    refine ⟨fun field hfield => ?_, hinits, hnames⟩
    obtain ⟨pair, -, rfl⟩ := List.mem_map.1 hfield
    exact ⟨rfl, rfl⟩

/-- Two values that ask for one name, a third one that asks for what the second one got, and a
variant without words. -/
theorem render_constants_collision :
    (∃ decl : TypeDecl,
      (((Enumeration.handler LibraryName.javaUtil).handle ⟨"kind", ["v2", "v 2", "v22"]⟩).outcome ∅
        ()).1.result = .ok (.ofDecl LibraryName.javaUtil [] decl) ∧
      decl.constants.map (·.args) = [[.text "v2"], [.text "v 2"], [.text "v22"]] ∧
      (decl.constants.map (·.name)).Nodup) ∧
    ∃ decl : TypeDecl,
      (((Union.handler LibraryName.javaUtil).handle ⟨"pet", "kind", [⟨"*", .text⟩, ⟨"cat", .text⟩,
        ⟨"CAT", .text⟩]⟩).outcome ∅ ()).1.result = .ok (.ofDecl LibraryName.javaUtil [] decl) ∧
      decl.fields.map (·.init) = [some (.text "*"), some (.text "cat"), some (.text "CAT")] ∧
      (decl.fields.map (·.name)).Nodup := by
  obtain ⟨enum, hrender, -, hargs, hnames⟩ := (render_constants LibraryName.javaUtil "kind" ∅).1
    ["v2", "v 2", "v22"] (List.cons_ne_nil _ _)
  obtain ⟨interface, hunion, -, -, hinits, hfields⟩ :=
    (render_constants LibraryName.javaUtil "pet" ∅).2 "kind"
      [⟨"*", .text⟩, ⟨"cat", .text⟩, ⟨"CAT", .text⟩] (List.cons_ne_nil _ _)
  exact ⟨⟨enum, hrender, hargs, hnames⟩, interface, hunion, hinits, hfields⟩

end Stubwright
