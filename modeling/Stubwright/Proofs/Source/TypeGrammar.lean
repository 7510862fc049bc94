import Stubwright.Proofs.Source.BuiltTypes

/-!
# The grammar of types

Which texts are types is told by a grammar on tokens. It says nothing of how tokens are read: where
a name ends, how many brackets belong to a type and which angle bracket closes which list of
arguments are choices of a derivation. Each rule builds another kind of tree, so a derivation is
told by its tree. Every type but `void` has a derivation, whose tokens are those of its canonical
text, and no two types have the same tokens: a text has at most one derivation, and the parser finds
it.

## Main definitions

* `DerivesName`, `DerivesType`, `DerivesClass`, `DerivesArgs`, `DerivesArg` — the rules of the
  grammar, each with the tree that it builds

## Main results

* `derivesType_iff` — a type is derived from its tokens, and from nothing else
* `Ty.eq_of_tokens_eq` — two types with the same tokens are one type
* `parse_type_iff_derivesType` — the types that are read are those that the grammar derives, up to
  the limit of nesting
* `not_parse_type_iff_argLevels` — the limit does not count wildcards without a bound
-/

namespace Stubwright.Source

/-! ## Rules -/

/-- `Name ('.' Name)*`, where a name is an identifier that is not reserved. -/
inductive DerivesName : List Token → QualifiedName → Prop where
  | simple (n : Name) : DerivesName [n.token] (.simple n)
  | child {us : List Token} {parent : QualifiedName} (h : DerivesName us parent) (n : Name) :
      DerivesName (us ++ [.symbol .dot, n.token]) (parent.child n)

mutual

/-- `(primitive | Class) ('[' ']')*`. -/
inductive DerivesType : List Token → Ty → Prop where
  | primitive (p : PrimitiveType) : DerivesType [.word p.keyword] (.primitive p)
  | ofClass {us : List Token} {type : ClassType} (h : DerivesClass us type) :
      DerivesType us (.ofClass type)
  | array {us : List Token} {element : Ty} (h : DerivesType us element) :
      DerivesType (us ++ [.symbol .leftBracket, .symbol .rightBracket]) element.array

/-- `Name ('.' Name)* ['<' Arg (',' Arg)* '>']`. -/
inductive DerivesClass : List Token → ClassType → Prop where
  | plain {us : List Token} {name : QualifiedName} (h : DerivesName us name) :
      DerivesClass us (.plain name)
  | generic {us vs : List Token} {name : QualifiedName} {args : List TypeArg}
      (h : DerivesName us name) (hargs : DerivesArgs vs args) :
      DerivesClass (us ++ .symbol .less :: (vs ++ [.symbol .greater])) ⟨name, args⟩

/-- `Arg (',' Arg)*`. -/
inductive DerivesArgs : List Token → List TypeArg → Prop where
  | single {us : List Token} {arg : TypeArg} (h : DerivesArg us arg) : DerivesArgs us [arg]
  | cons {us vs : List Token} {arg : TypeArg} {args : List TypeArg} (h : DerivesArg us arg)
      (hargs : DerivesArgs vs args) : DerivesArgs (us ++ .symbol .comma :: vs) (arg :: args)

/-- `'?' [('extends' | 'super') Ref] | Ref`, where `Ref` is a type that is not a bare primitive. -/
inductive DerivesArg : List Token → TypeArg → Prop where
  | any : DerivesArg [.symbol .question] .any
  | subtypesOf {us : List Token} {bound : RefType} (h : DerivesType us (.reference bound)) :
      DerivesArg (.symbol .question :: .word "extends" :: us) (.subtypesOf bound)
  | supertypesOf {us : List Token} {bound : RefType} (h : DerivesType us (.reference bound)) :
      DerivesArg (.symbol .question :: .word "super" :: us) (.supertypesOf bound)
  | exactly {us : List Token} {type : RefType} (h : DerivesType us (.reference type)) :
      DerivesArg us (.exactly type)

end

/-! ## Derivations and tokens -/

private theorem QualifiedName.tokens_child (parent : QualifiedName) (n : Name) :
    (parent.child n).tokens = parent.tokens ++ [.symbol .dot, n.token] := by
  obtain ⟨first, more, rfl⟩ := parent.exists_ofSegments
  have hchild : (ofSegments first more).child n = ofSegments first (more ++ [n]) :=
    eq_of_segments_eq (by simp)
  rw [hchild, tokens_ofSegments, tokens_ofSegments]
  simp

/-- A name is derived from its tokens only. -/
theorem DerivesName.eq_tokens {us : List Token} {name : QualifiedName} (h : DerivesName us name) :
    us = name.tokens := by
  induction h with
  | simple n => exact (QualifiedName.tokens_ofSegments n []).symm
  | child _ n ih => rw [ih, QualifiedName.tokens_child]

private theorem derivesName_tokens (name : QualifiedName) : DerivesName name.tokens name := by
  obtain ⟨first, more, rfl⟩ := name.exists_ofSegments
  induction more using List.reverseRecOn with
  | nil =>
    rw [QualifiedName.tokens_ofSegments]
    exact .simple first
  | append_singleton more n ih =>
    have hchild : QualifiedName.ofSegments first (more ++ [n]) =
        (QualifiedName.ofSegments first more).child n :=
      QualifiedName.eq_of_segments_eq (by simp)
    rw [hchild, QualifiedName.tokens_child]
    exact .child ih n

private theorem ClassType.tokens_plain (name : QualifiedName) :
    (ClassType.plain name).tokens = name.tokens := RefType.tokens_named name []

private theorem ClassType.tokens_generic (name : QualifiedName) {args : List TypeArg}
    (h : args ≠ []) :
    ClassType.tokens ⟨name, args⟩ = name.tokens ++
      .symbol .less :: (Parser.commaTokens TypeArg.tokens args ++ [.symbol .greater]) := by
  cases args with
  | nil => exact absurd rfl h
  | cons arg args => exact RefType.tokens_named name (arg :: args)

private theorem TypeArg.commaTokens_cons_cons (first second : TypeArg) (rest : List TypeArg) :
    Parser.commaTokens TypeArg.tokens (first :: second :: rest) =
      first.tokens ++ .symbol .comma :: Parser.commaTokens TypeArg.tokens (second :: rest) := by
  simp

mutual

/-- A type is derived from its tokens only, and `void` is not derived. -/
theorem DerivesType.eq_tokens : {us : List Token} → {type : Ty} → DerivesType us type →
    us = type.tokens ∧ type ≠ .void
  | _, _, .primitive p => ⟨(Ty.tokens_primitive p).symm, nofun⟩
  | _, _, .ofClass h => ⟨by rw [h.eq_tokens]; exact (Ty.tokens_reference _).symm, nofun⟩
  | _, _, .array h => by
    obtain ⟨rfl, hvoid⟩ := h.eq_tokens
    exact ⟨(Ty.tokens_array hvoid).symm, Ty.array_ne_void _⟩

theorem DerivesClass.eq_tokens : {us : List Token} → {type : ClassType} → DerivesClass us type →
    us = type.tokens
  | _, _, .plain h => by rw [h.eq_tokens, ClassType.tokens_plain]
  | _, _, .generic h hargs => by
    obtain ⟨rfl, hne⟩ := hargs.eq_tokens
    rw [h.eq_tokens, ClassType.tokens_generic _ hne]

theorem DerivesArgs.eq_tokens : {us : List Token} → {args : List TypeArg} → DerivesArgs us args →
    us = Parser.commaTokens TypeArg.tokens args ∧ args ≠ []
  | _, _, .single h => ⟨by rw [h.eq_tokens]; simp, by simp⟩
  | _, _, .cons h hargs => by
    obtain ⟨rfl, hne⟩ := hargs.eq_tokens
    obtain ⟨second, rest, rfl⟩ := List.exists_cons_of_ne_nil hne
    exact ⟨by rw [h.eq_tokens, TypeArg.commaTokens_cons_cons], by simp⟩

theorem DerivesArg.eq_tokens : {us : List Token} → {arg : TypeArg} → DerivesArg us arg →
    us = arg.tokens
  | _, _, .any => TypeArg.tokens_any.symm
  | _, _, .subtypesOf h => by
    rw [h.eq_tokens.1, Ty.tokens_reference, TypeArg.tokens_subtypesOf]
  | _, _, .supertypesOf h => by
    rw [h.eq_tokens.1, Ty.tokens_reference, TypeArg.tokens_supertypesOf]
  | _, _, .exactly h => by rw [h.eq_tokens.1, Ty.tokens_reference, TypeArg.tokens_exactly]

end

mutual

private theorem RefType.derivesType : (type : RefType) → DerivesType type.tokens (.reference type)
  | .named name [] => by
    rw [RefType.tokens_named]
    exact .ofClass (.plain (derivesName_tokens name))
  | .named name (arg :: args) => by
    rw [RefType.tokens_named]
    exact .ofClass (.generic (derivesName_tokens name)
      (TypeArg.derivesArgs (arg :: args) (List.cons_ne_nil _ _)))
  | .primitiveArray element => by
    rw [RefType.tokens_primitiveArray]
    exact .array (.primitive element)
  | .array element => by
    rw [RefType.tokens_array]
    exact .array element.derivesType

theorem TypeArg.derivesArg : (arg : TypeArg) → DerivesArg arg.tokens arg
  | .exactly type => by
    rw [TypeArg.tokens_exactly]
    exact .exactly type.derivesType
  | .any => by
    rw [TypeArg.tokens_any]
    exact .any
  | .subtypesOf bound => by
    rw [TypeArg.tokens_subtypesOf]
    exact .subtypesOf bound.derivesType
  | .supertypesOf bound => by
    rw [TypeArg.tokens_supertypesOf]
    exact .supertypesOf bound.derivesType

theorem TypeArg.derivesArgs : (args : List TypeArg) → args ≠ [] →
    DerivesArgs (Parser.commaTokens TypeArg.tokens args) args
  | [], h => absurd rfl h
  | [arg], _ => by
    rw [Parser.commaTokens_cons, List.flatMap_nil, List.append_nil]
    exact .single arg.derivesArg
  | arg :: second :: rest, _ => by
    rw [TypeArg.commaTokens_cons_cons]
    exact .cons arg.derivesArg (TypeArg.derivesArgs (second :: rest) (List.cons_ne_nil _ _))

end

/-- A type other than `void` is derived from its tokens, and from nothing else. -/
theorem derivesType_iff {us : List Token} {type : Ty} :
    DerivesType us type ↔ us = type.tokens ∧ type ≠ .void := by
  refine ⟨DerivesType.eq_tokens, ?_⟩
  rintro ⟨rfl, hvoid⟩
  cases type with
  | void => exact absurd rfl hvoid
  | primitive p =>
    rw [Ty.tokens_primitive]
    exact .primitive p
  | reference type =>
    rw [Ty.tokens_reference]
    exact type.derivesType

/-- Two types with the same tokens are one type. -/
theorem Ty.eq_of_tokens_eq {a b : Ty} (ha : a ≠ .void) (hb : b ≠ .void) (h : a.tokens = b.tokens) :
    a = b := by
  have hread : ∀ type : Ty, type ≠ .void → type.nesting ≤ max a.nesting b.nesting →
      Parser.type (Parser.refTypeAt (max a.nesting b.nesting)) type.tokens = .ok (type, []) := by
    intro type hvoid hnesting
    exact (Parser.type_reaches_end (Parser.readsTypes_refTypeAt _) hvoid).1 hnesting
  have hsame := hread a ha (Nat.le_max_left _ _)
  rw [h, hread b hb (Nat.le_max_right _ _)] at hsame
  simpa [eq_comm] using hsame

/-- Tokens derive one type at most. -/
theorem DerivesType.unique {us : List Token} {a b : Ty} (ha : DerivesType us a)
    (hb : DerivesType us b) : a = b := by
  obtain ⟨htokens, ha⟩ := derivesType_iff.1 ha
  obtain ⟨htokens', hb⟩ := derivesType_iff.1 hb
  exact Ty.eq_of_tokens_eq ha hb (htokens.symm.trans htokens')

/-! ## The types that are read -/

namespace Parser

private theorem outerType_eq_ok {us : List Token} {found : Ty} :
    outerType us = .ok (found, []) ↔ DerivesType us found ∧ found.nesting ≤ nestingLimit := by
  rw [derivesType_iff]
  constructor
  · intro h
    obtain ⟨us, rfl, rfl, hvoid, hnesting⟩ := outerType_takes _ _ _ h
    exact ⟨⟨by simp, hvoid⟩, hnesting⟩
  · rintro ⟨⟨rfl, hvoid⟩, hnesting⟩
    exact (type_reaches_end readsTypes_firstInner hvoid).1 hnesting

end Parser

/-- A text with tokens is read as a type exactly when the tokens derive from the grammar with type
arguments that nest at most 128 levels, and what is read is the only tree that they derive. A type
argument that is a type or has a bound is a level; a wildcard without a bound is none. -/
theorem parse_type_iff_derivesType {text : String} {placed : List PlacedToken}
    (htokens : tokenize text = .ok placed) :
    ((∃ type, Grammar.type.parse text = .ok type) ↔
      ∃ type, DerivesType (placed.map PlacedToken.token) type ∧ type.nesting ≤ 128) ∧
    ∀ type, Grammar.type.parse text = .ok type →
      DerivesType (placed.map PlacedToken.token) type ∧
        ∀ other, DerivesType (placed.map PlacedToken.token) other → other = type := by
  have hparse : ∀ type, Grammar.type.parse text = .ok type ↔
      DerivesType (placed.map PlacedToken.token) type ∧ type.nesting ≤ 128 := fun type =>
    (Parser.parseText_eq_ok_iff htokens).trans Parser.outerType_eq_ok
  refine ⟨exists_congr hparse, fun type h => ?_⟩
  obtain ⟨hderives, -⟩ := (hparse type).1 h
  exact ⟨hderives, fun other hother => hother.unique hderives⟩

/-- Two closing brackets in a row close two lists of arguments. -/
theorem parse_type_iff_derivesType_map :
    ∃ text placed, text = "a.Map<?, List<? super int[]>>[]" ∧ tokenize text = .ok placed ∧
      (∃ type, Grammar.type.parse text = .ok type) ∧
      (∃ type, DerivesType (placed.map PlacedToken.token) type ∧ type.nesting ≤ 128) ∧
      ∀ type, Grammar.type.parse text = .ok type →
        DerivesType (placed.map PlacedToken.token) type ∧
          ∀ other, DerivesType (placed.map PlacedToken.token) other → other = type := by
  obtain ⟨text, htext⟩ : ∃ text, text = "a.Map<?, List<? super int[]>>[]" := ⟨_, rfl⟩
  obtain ⟨type, hread⟩ : ∃ type, Grammar.type.parse text = .ok type :=
    Grammar.exists_of_isOk (by rw [htext]; decide +kernel)
  obtain ⟨placed, hplaced⟩ := Parser.exists_tokenize_of_parseText hread
  obtain ⟨hiff, htree⟩ := parse_type_iff_derivesType hplaced
  exact ⟨text, placed, htext, hplaced, ⟨type, hread⟩, hiff.1 ⟨type, hread⟩, htree⟩

/-- The limit is not one on the levels of argument lists: a type whose lists nest 129 levels is
read, as its deepest list holds a wildcard only. -/
theorem not_parse_type_iff_argLevels :
    ∃ placed, tokenize (canonical (Ty.Recipe.wildcardIn 128).build) = .ok placed ∧
      (∃ type, Grammar.type.parse (canonical (Ty.Recipe.wildcardIn 128).build) = .ok type) ∧
      ¬ ∃ type, DerivesType (placed.map PlacedToken.token) type ∧ type.argLevels ≤ 128 := by
  have hvoid : (Ty.Recipe.wildcardIn 128).build ≠ .void := by decide +kernel
  have hnesting : (Ty.Recipe.wildcardIn 128).build.nesting ≤ nestingLimit := by decide +kernel
  have hlevels : (Ty.Recipe.wildcardIn 128).build.argLevels = 129 := by decide +kernel
  generalize (Ty.Recipe.wildcardIn 128).build = built at hvoid hnesting hlevels ⊢
  obtain ⟨placed, hplaced, htokens⟩ := tokenize_render built.spaced_pieces
  refine ⟨placed, hplaced, ⟨built, (Ty.parse_canonical_reaches hvoid).1 hnesting⟩, ?_⟩
  rintro ⟨type, hderives, hle⟩
  have hbuilt : DerivesType (placed.map PlacedToken.token) built :=
    derivesType_iff.2 ⟨htokens, hvoid⟩
  rw [hderives.unique hbuilt, hlevels] at hle
  exact absurd hle (by decide)

end Stubwright.Source
