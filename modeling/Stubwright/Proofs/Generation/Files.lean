import Mathlib.Data.List.Perm.Basic
import Stubwright.Proofs.Generation.Contents

/-!
# Generated files

Each generated type has a file of its own, in the directory of the configured package. Types are
claimed under names that are put together from the description, and rendered under names that are
put together again; the two agree, so that no file takes the place of another.

## Main definitions

* `Definition.LiesIn` — a file of a package that declares one type, under the name of the type
* `ApiDescription.typeNames` — the Java names of all types that are generated

## Main results

* `Generation.names_generated_perm` — the types that are generated are those that are claimed
* `files_of_generate` — the files of a successful run
-/

namespace Stubwright

open Source

/-! ## Files of a package -/

/-- The file of a definition lies in the directory of a package, is called like its type, belongs to
the package and declares nothing else. -/
structure Definition.LiesIn (package : QualifiedName) (definition : Definition) : Prop where
  path : definition.toFile.path =
    "/".intercalate (package.segments.map Name.text ++ [definition.name.text ++ ".java"])
  package : definition.file.package = some package
  types : ∃ decl, definition.file.types = [decl] ∧ decl.name = definition.name

/-- Directories that are each ended by a slash, and what follows them. -/
theorem join_append_eq_intercalate (directories : List Name) (file : String) :
    String.join (directories.map fun directory => directory.text ++ "/") ++ file =
      "/".intercalate (directories.map Name.text ++ [file]) := by
  induction directories with
  | nil => simp
  | cons first rest ih =>
    rw [List.map_cons, String.join_cons, String.append_assoc, ih, List.map_cons, List.cons_append,
      String.intercalate_cons_of_ne_nil (by simp)]

theorem Definition.liesIn_ofDecl (package : QualifiedName) (imports : List Import)
    (decl : TypeDecl) : (Definition.ofDecl package imports decl).LiesIn package where
  path := by
    rw [← join_append_eq_intercalate, ← String.append_assoc]
    rfl
  package := rfl
  types := ⟨decl, rfl, rfl⟩

/-- Files of one package are told apart by the names of their types. -/
theorem Definition.LiesIn.name_of_path {package : QualifiedName} {first second : Definition}
    (hfirst : first.LiesIn package) (hsecond : second.LiesIn package)
    (h : first.toFile.path = second.toFile.path) : first.name.text = second.name.text := by
  rw [hfirst.path, hsecond.path, ← join_append_eq_intercalate, ← join_append_eq_intercalate] at h
  exact (String.append_left_inj ".java").1 ((String.append_right_inj _).1 h)

/-! ## The types that are generated -/

/-- The Java names of all types that are generated from a description. -/
def ApiDescription.typeNames (config : GeneratorConfig) (description : ApiDescription) :
    List String :=
  description.schemaTypes ++
    if description.endpoints = [] then [] else config.endpointTypes description.endpoints

/-- No two types that are generated from an accepted description have the same name. -/
theorem ApiDescription.IsAccepted.nodup_typeNames {config : GeneratorConfig}
    {description : ApiDescription} (h : description.IsAccepted config) :
    (description.typeNames config).Nodup := by
  unfold typeNames
  split
  · rw [List.append_nil]
    exact h.distinct
  · exact h.types ‹_›

namespace Generation

variable (package : QualifiedName) (config : GeneratorConfig) (description : ApiDescription)

theorem liesIn_generated :
    ∀ definition ∈ (generated package config description).definitions,
      definition.LiesIn package := by
  rw [Codegen.definitions, support_generated, clients_generated, servers_generated]
  simp only [List.forall_mem_append, List.forall_mem_map]
  refine ⟨⟨⟨fun declared _ => ?_, ?_⟩, fun group _ => ?_⟩, fun group _ => ?_⟩
  · obtain ⟨name, schema⟩ := declared
    cases schema <;> exact Definition.liesIn_ofDecl ..
  · split
    · exact List.forall_mem_nil _
    · exact List.forall_mem_singleton.2 (Definition.liesIn_ofDecl ..)
  · exact Definition.liesIn_ofDecl ..
  · exact Definition.liesIn_ofDecl ..

/-- Clients stand before servers in the result, while each group claims its two types together. -/
theorem map_append_map_perm_flatMap (groups : List String) :
    ((groups.map fun group => Naming.typeName s!"{group} {config.clientSuffix}") ++
      groups.map fun group => Naming.typeName s!"{group} {config.serverSuffix}").Perm
        (groups.flatMap config.groupTypes) := by
  rw [← List.flatMap_pure_eq_map, ← List.flatMap_pure_eq_map]
  exact List.flatMap_append_perm ..

/-- The names of the generated types are those that the description claims. -/
theorem names_generated_perm :
    ((generated package config description).definitions.map (·.name.text)).Perm
      (description.typeNames config) := by
  have hgroups (type : String × List Route → Definition) (name : String → String)
      (hname : ∀ group, (type group).name.text = name group.1) :
      ((groupedRoutes description).map type).map (·.name.text) =
        (Endpoint.groups description.endpoints).map name := by
    rw [groupedRoutes, List.map_map, List.map_map]
    exact List.map_congr_left fun group _ => hname _
  have hschemas : (description.schemas.map
      (SchemaDef.definition package description.schemas)).map (·.name.text) =
        description.schemaTypes := by
    simp [Function.comp_def, ApiDescription.schemaTypes]
  rw [Codegen.definitions, support_generated, clients_generated, servers_generated,
    List.map_append, List.map_append, List.map_append, hschemas,
    hgroups _ (fun group => Naming.typeName s!"{group} {config.clientSuffix}") fun _ => rfl,
    hgroups _ (fun group => Naming.typeName s!"{group} {config.serverSuffix}") fun _ => rfl,
    List.append_assoc, List.append_assoc, ApiDescription.typeNames]
  -- All clients are generated before the servers, but names are claimed group by group.
  refine List.Perm.append_left _ ?_
  split
  · rename_i h
    rw [h]
    rfl
  · exact (map_append_map_perm_flatMap config _).cons _

end Generation

/-! ## The files of a run -/

/-- A successful run has generated files with distinct paths. Each of them lies in the directory of
the configured package, belongs to this package, and declares one type, after which it is called. -/
theorem files_of_generate {σ : Type} {description : ApiDescription} {config : GeneratorConfig}
    {log : Log} {state : σ} {result : Codegen}
    (h : ((generate description config).outcome log state).1.result = .ok result) :
    ∃ package, Grammar.qualifiedName.parse config.package = .ok package ∧
      (result.files.map (·.path)).Nodup ∧
        ∀ definition ∈ result.definitions, definition.LiesIn package := by
  obtain ⟨package, hpackage, haccepted, rfl⟩ := result_generate_eq_ok_iff.1 h
  have hlies := Generation.liesIn_generated package config description
  have hnames : ((Generation.generated package config description).definitions.map
      (·.name.text)).Nodup :=
    (Generation.names_generated_perm package config description).nodup_iff.2
      haccepted.nodup_typeNames
  refine ⟨package, hpackage, ?_, hlies⟩
  rw [Codegen.files, List.map_map]
  refine List.Nodup.map_on (fun first hfirst second hsecond hpath => ?_) hnames.of_map
  exact List.inj_on_of_nodup_map hnames hfirst hsecond
    ((hlies first hfirst).name_of_path (hlies second hsecond) hpath)

theorem files_of_generate_toys :
    ∃ (description : ApiDescription) (result : Codegen),
      ((generate description .standard).outcome ∅ ()).1.result = .ok result ∧
        result.files.map (·.path) = [
          "com/example/api/Toy.java", "com/example/api/ApiTransport.java",
          "com/example/api/ToyShopClient.java", "com/example/api/DefaultClient.java",
          "com/example/api/ToyShopHandler.java", "com/example/api/DefaultHandler.java"] ∧
        ∃ package,
          Grammar.qualifiedName.parse GeneratorConfig.standard.package = .ok package ∧
            (result.files.map (·.path)).Nodup ∧
              ∀ definition ∈ result.definitions, definition.LiesIn package := by
  obtain ⟨description, hdescription⟩ : ∃ description : ApiDescription, description =
    ⟨none, [⟨"toy", .object [⟨"name", .string, false⟩]⟩],
      [ ⟨"list", .get, "/toys", ["toy shop"], [], none, [⟨200, some (.array (.ref "toy"))⟩]⟩,
        ⟨"ping", .get, "/ping", [], [], none, []⟩]⟩ := ⟨_, rfl⟩
  -- Acceptance is evaluated instead of the run, which would read the source of the transport.
  have haccepted : description.IsAccepted .standard := by
    rw [hdescription]
    decide +kernel
  have h : ((generate description .standard).outcome ∅ ()).1.result = _ :=
    result_generate_standard haccepted
  refine ⟨description, _, h, ?_, files_of_generate h⟩
  rw [hdescription]
  decide +kernel

end Stubwright
