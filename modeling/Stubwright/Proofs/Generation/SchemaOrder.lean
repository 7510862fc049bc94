import Mathlib.Data.List.Perm.Basic
import Stubwright.Proofs.Generation.Contents

/-!
# The order of schemas

Schemas may refer to schemas that are declared behind them, so their order says nothing to a run. It
decides only in which order the support types are generated. The order of the unions among
themselves does say something: a class implements its unions in this order.

## Main definitions

* `ApiDescription.Reorders` — a description with the schemas of another one in another order

## Main results

* `ApiDescription.Reorders.isAccepted_iff` — reordered descriptions are accepted alike
* `ApiDescription.Reorders.files_perm` — the same files are generated from them
* `generate_reordered` — two runs that differ in the order of the schemas
-/

namespace Stubwright

open Source

/-! ## Reordered descriptions -/

/-- Whether a schema is a union. -/
def SchemaDef.isUnion (declared : SchemaDef) : Bool :=
  match declared.schema with
  | .union .. => true
  | .object _ | .enumeration _ | .array _ => false

private theorem unionsOf_cons (declared : SchemaDef) (rest : List SchemaDef) (variant : String) :
    unionsOf (declared :: rest) variant = unionsOf [declared] variant ++ unionsOf rest variant := by
  simp [unionsOf]

/-- Schemas that are no unions add nothing to the unions of a variant. -/
theorem unionsOf_filter_isUnion (schemas : List SchemaDef) (variant : String) :
    unionsOf (schemas.filter SchemaDef.isUnion) variant = unionsOf schemas variant := by
  induction schemas with
  | nil => rfl
  | cons declared rest ih =>
    rw [unionsOf_cons, List.filter_cons]
    by_cases h : declared.isUnion = true
    · rw [if_pos h, unionsOf_cons, ih]
    · have hnone : unionsOf [declared] variant = [] := by
        obtain ⟨name, schema⟩ := declared
        cases schema with
        | union discriminator variants => exact absurd rfl h
        | _ => rfl
      rw [if_neg h, ih, hnone, List.nil_append]

/-- Whatever else is registered, an endpoint that has a route keeps it. -/
theorem Endpoint.IsAccepted.mono {wires more : List String} {endpoint : Endpoint}
    (h : endpoint.IsAccepted wires) (hmore : ∀ name ∈ wires, name ∈ more) :
    endpoint.IsAccepted more where
  path := h.path
  distinct := h.distinct
  params param hparam name hname := hmore name (h.params param hparam name hname)
  body type htype name hname := hmore name (h.body type htype name hname)
  response type htype name hname := hmore name (h.response type htype name hname)

namespace ApiDescription

/-- Two descriptions that differ only in the order of their schemas, while the unions among these
stand in the same order. -/
structure Reorders (description other : ApiDescription) : Prop where
  requires : description.requires = other.requires
  endpoints : description.endpoints = other.endpoints
  schemas : description.schemas.Perm other.schemas
  unions : description.schemas.filter SchemaDef.isUnion = other.schemas.filter SchemaDef.isUnion

namespace Reorders

variable {description other : ApiDescription} {config : GeneratorConfig}

private theorem symm (h : description.Reorders other) : other.Reorders description :=
  ⟨h.requires.symm, h.endpoints.symm, h.schemas.symm, h.unions.symm⟩

private theorem mem_iff (h : description.Reorders other) {declared : SchemaDef} :
    declared ∈ description.schemas ↔ declared ∈ other.schemas := h.schemas.mem_iff

private theorem schemaTypes_perm (h : description.Reorders other) :
    description.schemaTypes.Perm other.schemaTypes := h.schemas.map _

/-! ## Acceptance -/

/-- No condition on a description asks where a schema stands. -/
theorem isAccepted (h : description.Reorders other) (haccepted : description.IsAccepted config) :
    other.IsAccepted config where
  package := haccepted.package
  requirement := h.requires ▸ haccepted.requirement
  distinct := h.schemaTypes_perm.nodup_iff.1 haccepted.distinct
  free type htype := haccepted.free type (h.schemaTypes_perm.mem_iff.2 htype)
  references declared hdeclared type htype name hname := by
    obtain ⟨target, htarget, hfound⟩ :=
      haccepted.references declared (h.mem_iff.2 hdeclared) type htype name hname
    exact ⟨target, h.mem_iff.1 htarget, hfound⟩
  members declared hdeclared := haccepted.members declared (h.mem_iff.2 hdeclared)
  values declared hdeclared := haccepted.values declared (h.mem_iff.2 hdeclared)
  variants declared hdeclared discriminator variants hunion := by
    obtain ⟨hvariants, hall⟩ :=
      haccepted.variants declared (h.mem_iff.2 hdeclared) discriminator variants hunion
    refine ⟨hvariants, fun variant hvariant => ?_⟩
    obtain ⟨properties, hmem, hproperty⟩ := hall variant hvariant
    exact ⟨properties, h.mem_iff.1 hmem, hproperty⟩
  items declared hdeclared := haccepted.items declared (h.mem_iff.2 hdeclared)
  routes hendpoints := by
    rw [← h.endpoints] at hendpoints ⊢
    have hwires : ∀ name ∈ description.schemas.map (·.name), name ∈ other.schemas.map (·.name) :=
      fun name => (h.schemas.map _).mem_iff.1
    obtain ⟨hkeys, hall⟩ := exists_extractRoutes_iff.1 (haccepted.routes hendpoints)
    exact exists_extractRoutes_iff.2
      ⟨hkeys, fun endpoint hendpoint => (hall endpoint hendpoint).mono hwires⟩
  types hendpoints := by
    rw [← h.endpoints] at hendpoints ⊢
    exact (h.schemaTypes_perm.append_right _).nodup_iff.1 (haccepted.types hendpoints)

theorem isAccepted_iff (h : description.Reorders other) :
    description.IsAccepted config ↔ other.IsAccepted config := ⟨h.isAccepted, h.symm.isAccepted⟩

/-! ## What is generated -/

/-- The type of a schema depends on its fellows only through the unions that list it. -/
theorem definition_eq (h : description.Reorders other) (package : QualifiedName)
    (declared : SchemaDef) : declared.definition package description.schemas =
      declared.definition package other.schemas := by
  have hunions : unionsOf description.schemas declared.name =
      unionsOf other.schemas declared.name := by
    rw [← unionsOf_filter_isUnion, h.unions, unionsOf_filter_isUnion]
  simp only [SchemaDef.definition, hunions]

private theorem support_perm (h : description.Reorders other) (package : QualifiedName) :
    (Generation.generated package config description).support.Perm
      (Generation.generated package config other).support := by
  rw [Generation.support_generated, Generation.support_generated, h.endpoints,
    List.map_congr_left fun declared _ => h.definition_eq package declared]
  exact (h.schemas.map _).append_right _

private theorem groupedRoutes_eq (h : description.Reorders other) :
    Generation.groupedRoutes description = Generation.groupedRoutes other := by
  unfold Generation.groupedRoutes
  rw [h.endpoints]

private theorem clients_eq (h : description.Reorders other) (package : QualifiedName) :
    (Generation.generated package config description).clients =
      (Generation.generated package config other).clients := by
  rw [Generation.clients_generated, Generation.clients_generated, h.groupedRoutes_eq]

private theorem servers_eq (h : description.Reorders other) (package : QualifiedName) :
    (Generation.generated package config description).servers =
      (Generation.generated package config other).servers := by
  rw [Generation.servers_generated, Generation.servers_generated, h.groupedRoutes_eq]

theorem files_perm (h : description.Reorders other) (package : QualifiedName) :
    (Generation.generated package config description).files.Perm
      (Generation.generated package config other).files := by
  unfold Codegen.files Codegen.definitions
  rw [h.clients_eq, h.servers_eq]
  exact (((h.support_perm package).append_right _).append_right _).map _

end Reorders

end ApiDescription

/-! ## Two runs -/

/-- Of two descriptions that differ in the order of their schemas but for the unions, both are
generated from or none is. The results have the same files, and the same clients and servers. -/
theorem generate_reordered {σ : Type} {description other : ApiDescription}
    (h : description.Reorders other) (config : GeneratorConfig) (log log' : Log) (state : σ) :
    let run := ((generate description config).outcome log state).1.result
    let run' := ((generate other config).outcome log' state).1.result
    ((∃ result, run = .ok result) ↔ ∃ result, run' = .ok result) ∧
      ∀ result result', run = .ok result → run' = .ok result' →
        result.files.Perm result'.files ∧ result.clients = result'.clients ∧
          result.servers = result'.servers := by
  refine ⟨?_, fun result result' hrun hrun' => ?_⟩
  · simp only [result_generate_eq_ok_iff]
    constructor
    · rintro ⟨-, package, hpackage, haccepted, -⟩
      exact ⟨_, package, hpackage, h.isAccepted_iff.1 haccepted, rfl⟩
    · rintro ⟨-, package, hpackage, haccepted, -⟩
      exact ⟨_, package, hpackage, h.isAccepted_iff.2 haccepted, rfl⟩
  · obtain ⟨package, hpackage, -, rfl⟩ := result_generate_eq_ok_iff.1 hrun
    obtain ⟨package', hpackage', -, rfl⟩ := result_generate_eq_ok_iff.1 hrun'
    obtain rfl : package = package' := Except.ok.inj (hpackage.symm.trans hpackage')
    exact ⟨h.files_perm package, h.clients_eq package, h.servers_eq package⟩

theorem generate_reordered_shapes :
    ∃ (description other : ApiDescription) (result result' : Codegen),
      description.Reorders other ∧
        ((generate description .standard).outcome ∅ ()).1.result = .ok result ∧
        ((generate other .standard).outcome ∅ ()).1.result = .ok result' ∧
        result.support.map (·.name.text) = ["Shape", "Circle", "Figure", "Shapes", "ApiTransport"] ∧
        result'.support.map (·.name.text) = ["Shapes", "Shape", "Figure", "Circle", "ApiTransport"] ∧
        result.files.Perm result'.files ∧ result.clients = result'.clients ∧
          result.servers = result'.servers := by
  obtain ⟨description, hdescription⟩ : ∃ description : ApiDescription, description =
    ⟨none, [⟨"shape", .union "kind" ["circle"]⟩, ⟨"circle", .object [⟨"kind", .string, false⟩]⟩,
        ⟨"figure", .union "kind" ["circle"]⟩, ⟨"shapes", .array (.ref "shape")⟩],
      [⟨"list", .get, "/shapes", ["shapes"], [], none, [⟨200, some (.ref "shapes")⟩]⟩]⟩ := ⟨_, rfl⟩
  obtain ⟨other, hother⟩ : ∃ other : ApiDescription, other =
    ⟨none, [⟨"shapes", .array (.ref "shape")⟩, ⟨"shape", .union "kind" ["circle"]⟩,
        ⟨"figure", .union "kind" ["circle"]⟩, ⟨"circle", .object [⟨"kind", .string, false⟩]⟩],
      [⟨"list", .get, "/shapes", ["shapes"], [], none, [⟨200, some (.ref "shapes")⟩]⟩]⟩ := ⟨_, rfl⟩
  have h : description.Reorders other := by
    rw [hdescription, hother]
    exact ⟨rfl, rfl, by decide, by decide⟩
  have haccepted : description.IsAccepted .standard := by
    rw [hdescription]
    decide +kernel
  have hrun : ((generate description .standard).outcome ∅ ()).1.result = _ :=
    result_generate_standard haccepted
  have hrun' : ((generate other .standard).outcome ∅ ()).1.result = _ :=
    result_generate_standard (h.isAccepted haccepted)
  refine ⟨description, other, _, _, h, hrun, hrun', ?_, ?_,
    (generate_reordered h .standard ∅ ∅ ()).2 _ _ hrun hrun'⟩
  · rw [hdescription]
    decide +kernel
  · rw [hother]
    decide +kernel

end Stubwright
