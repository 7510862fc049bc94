import Stubwright.Generate
import Stubwright.Proofs.Decision
import Stubwright.Proofs.Naming

/-!
# Claimed types

Every type of a run is claimed once. Types are claimed one after another, so that claims succeed
together exactly when the types differ from each other and from those claimed before.

## Main definitions

* `Claims.Admits` — types that can be claimed together

## Main results

* `Claims.admits_append` — types that are claimed in two parts
* `Generation.claim_decides`, `Generation.claimSchemas_decides` — which types are claimed
-/

namespace Stubwright

open Source

/-! ## Types that can be claimed -/

namespace Claims

/-- The types that are claimed. -/
def names (claims : Claims) : List String := claims.map Prod.fst

/-- Types that differ from each other and from those that are claimed. -/
def Admits (claims : Claims) (types : List String) : Prop :=
  types.Nodup ∧ ∀ type ∈ types, type ∉ claims.names

instance (claims : Claims) (types : List String) : Decidable (claims.Admits types) :=
  inferInstanceAs (Decidable (types.Nodup ∧ ∀ type ∈ types, type ∉ claims.names))

/-- Nothing may always be claimed. -/
theorem admits_nil (claims : Claims) : claims.Admits [] := ⟨List.nodup_nil, nofun⟩

theorem admits_start {types : List String} : Admits [] types ↔ types.Nodup :=
  and_iff_left fun _ _ => List.not_mem_nil

/-- A type may be claimed when it is free, and the others beside it. -/
theorem admits_cons {claims : Claims} {type : String} {types : List String} (origin : String) :
    claims.Admits (type :: types) ↔
      type ∉ claims.names ∧ Admits ((type, origin) :: claims) types := by
  simp only [Admits, names, List.nodup_cons, List.map_cons, List.mem_cons, not_or,
    forall_eq_or_imp]
  grind

/-- Types are claimed in two parts, where the claims for the first part come in between. -/
theorem admits_append {claims between : Claims} {first second : List String}
    (h : ∀ type, type ∈ between.names ↔ type ∈ first) :
    claims.Admits (first ++ second) ↔ claims.Admits first ∧ Admits (between ++ claims) second := by
  have hnames : (between ++ claims).names = between.names ++ claims.names := List.map_append
  simp only [Admits, hnames, List.mem_append, h, List.nodup_append, not_or]
  grind

/-- What can be claimed after types of its own kind are the types that continue their list. -/
theorem admits_iff_nodup_append {claims : Claims} {first second : List String}
    (h : ∀ type, type ∈ claims.names ↔ type ∈ first) (hfirst : first.Nodup) :
    claims.Admits second ↔ (first ++ second).Nodup := by
  have happend : Admits [] (first ++ second) ↔ Admits [] first ∧ Admits (claims ++ []) second :=
    admits_append h
  rw [admits_start, admits_start, List.append_nil, and_iff_right hfirst] at happend
  exact happend.symm

theorem lookup_eq_none_iff {claims : Claims} {type : String} :
    claims.lookup type = none ↔ type ∉ claims.names := by
  rw [List.lookup_eq_none_iff]
  simp only [names, List.mem_map, not_exists, not_and, bne_iff_ne, ne_eq]
  exact ⟨fun h claim hclaim heq => h claim hclaim heq.symm,
    fun h claim hclaim heq => h claim hclaim heq.symm⟩

end Claims

namespace Generation

variable {σ : Type} {state : σ}

/-! ## Claiming -/

/-- A type is claimed when it is not claimed yet. -/
theorem claim_decides (claims : Claims) (name : Name) {origin : String}
    (horigin : InOwnWords origin) :
    (accept (claims.claim name origin)).Decides state (name.text ∉ claims.names)
      ((name.text, origin) :: claims) state := by
  unfold Claims.claim
  cases hlookup : claims.lookup name.text with
  | none =>
    exact Step.Decides.pure.congr (iff_of_true trivial (Claims.lookup_eq_none_iff.1 hlookup))
  | some previous =>
    have hwords : InOwnWords s!"{origin} and {previous} both generate Java type '{name}'" := by
      simp [toString, horigin]
    refine (Step.Decides.refuse hwords).congr (iff_of_false id fun hnot => ?_)
    rw [Claims.lookup_eq_none_iff.2 hnot] at hlookup
    cases hlookup

theorem claimSchema_decides (claims : Claims) (name : Name) (schema : String) :
    (accept (claims.claimSchema name schema)).Decides state
      (name.text ∉ implicitTypes ∧ name.text ∉ claims.names)
      ((name.text, s!"schema '{schema}'") :: claims) state := by
  unfold Claims.claimSchema
  split
  · rename_i h
    exact (Step.Decides.refuse (by simp +decide)).congr
      (iff_of_false id fun hboth => hboth.1 h)
  · rename_i h
    have horigin : InOwnWords s!"schema '{schema}'" := by simp +decide
    exact (claim_decides claims name horigin).congr (iff_and_self.2 fun _ => h)

theorem accept_eq_ok_iff {α : Type} {answer : Except String α} {value : α} (log : Log)
    (state : σ) :
    ((accept answer : Step σ α).outcome log state).1.result = .ok value ↔ answer = .ok value := by
  cases answer with
  | ok found => exact ⟨fun h => congrArg _ (Except.ok.inj h), fun h => congrArg _ (Except.ok.inj h)⟩
  | error message => exact iff_of_false nofun nofun

/-- Claims that are accepted one by one are accepted together. -/
theorem accept_foldlM {α β : Type} (f : β → α → Except String β) (start : β) (items : List α) :
    (accept (items.foldlM f start) : Step σ β) =
      items.foldlM (fun value item => accept (f value item)) start := by
  induction items generalizing start with
  | nil => rfl
  | cons item rest ih =>
    rw [List.foldlM_cons, List.foldlM_cons]
    cases f start item with
    | error message => rfl
    | ok value => exact ih value

/-- The claims for schemas, the last one first. -/
def schemaClaims (schemas : List SchemaDef) : Claims :=
  (schemas.map fun schema => (Naming.typeName schema.name, s!"schema '{schema.name}'")).reverse

/-- The claims for schemas are for their Java names. -/
theorem mem_names_schemaClaims (schemas : List SchemaDef) (type : String) :
    type ∈ (schemaClaims schemas).names ↔
      type ∈ schemas.map fun schema => Naming.typeName schema.name := by
  simp [schemaClaims, Claims.names]

/-- Schemas claim their types when no type is one of those that generated code uses, and none is
claimed twice. -/
theorem claimSchemas_decides (claims : Claims) (schemas : List SchemaDef) :
    (accept (((schemas.map fun schema => JavaName.typeOf schema.name).zip schemas).foldlM
      (fun (claims : Claims) (name, schema) => claims.claimSchema name schema.name) claims)).Decides
        state ((∀ schema ∈ schemas, Naming.typeName schema.name ∉ implicitTypes) ∧
          claims.Admits (schemas.map fun schema => Naming.typeName schema.name))
        (schemaClaims schemas ++ claims) state := by
  rw [accept_foldlM]
  induction schemas generalizing claims with
  | nil => exact Step.Decides.pure.congr (iff_of_true trivial ⟨nofun, claims.admits_nil⟩)
  | cons schema rest ih =>
    rw [List.map_cons, List.zip_cons_cons, List.foldlM_cons]
    have hclaims : schemaClaims (schema :: rest) ++ claims = schemaClaims rest ++
        (Naming.typeName schema.name, s!"schema '{schema.name}'") :: claims := by
      simp [schemaClaims]
    rw [hclaims]
    refine ((claimSchema_decides claims (JavaName.typeOf schema.name) schema.name).bind fun _ =>
      ih _).congr ?_
    simp only [JavaName.text_typeOf, List.map_cons, List.forall_mem_cons]
    rw [Claims.admits_cons s!"schema '{schema.name}'"]
    tauto

/-- Before anything is claimed, it is enough that the types of the schemas differ. -/
theorem claimAllSchemas_decides (schemas : List SchemaDef) :
    (accept (((schemas.map fun schema => JavaName.typeOf schema.name).zip schemas).foldlM
      (fun (claims : Claims) (name, schema) => claims.claimSchema name schema.name) [])).Decides
        state ((∀ schema ∈ schemas, Naming.typeName schema.name ∉ implicitTypes) ∧
          (schemas.map fun schema => Naming.typeName schema.name).Nodup)
        (schemaClaims schemas) state := by
  rw [← List.append_nil (schemaClaims schemas), ← Claims.admits_start]
  exact claimSchemas_decides [] schemas

/-- Schemas are claimed when their Java names are free and differ from each other. -/
theorem claimAllSchemas_eq_ok_iff {schemas : List SchemaDef} {claims : Claims} :
    ((schemas.map fun schema => JavaName.typeOf schema.name).zip schemas).foldlM
        (fun (claims : Claims) (name, schema) => claims.claimSchema name schema.name) [] =
          .ok claims ↔
      ((∀ schema ∈ schemas, Naming.typeName schema.name ∉ implicitTypes) ∧
        (schemas.map fun schema => Naming.typeName schema.name).Nodup) ∧
      claims = schemaClaims schemas := by
  have hdecides : Step.Decides _ () _ _ _ := claimAllSchemas_decides schemas
  exact (accept_eq_ok_iff ∅ ()).symm.trans hdecides.result_eq_ok_iff

end Generation

end Stubwright
