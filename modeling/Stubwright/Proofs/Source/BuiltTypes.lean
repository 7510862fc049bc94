import Stubwright.Proofs.Source.ReadsBack

/-!
# Types put together with the builders

The builders take any type wherever a type is asked for: they wrap primitive types and `void` where
the language allows reference types only. Whatever they are combined to, the printed type is read
back, and only the depth of its type arguments can stand in the way.

## Main definitions

* `Ty.Recipe`, `ClassType.Recipe`, `GivenArg.Recipe` — compositions of builders
* `Ty.Recipe.build` — the type that a composition builds
* `Ty.argLevels` — the levels of argument lists in a type

## Main results

* `Ty.Recipe.parse_canonical_build` — built types are read back up to the limit of nesting
* `Ty.Recipe.parse_canonical_wildcardIn` — a wildcard alone may stand one level deeper
-/

namespace Stubwright.Source

/-! ## Compositions of builders -/

mutual

/-- A composition of builders that gives a type. -/
inductive Ty.Recipe where
  | void
  | primitive (type : PrimitiveType)
  | ofClass (type : ClassType.Recipe)
  | array (element : Ty.Recipe)
  | boxed (type : Ty.Recipe)
  | unboxed (type : Ty.Recipe)
  | erasure (type : Ty.Recipe)
  | contained (type : Ty.Recipe)
  | optional (inner : Ty.Recipe)
  | future (inner : Ty.Recipe)
  | function (input output : Ty.Recipe)
  | supplier (inner : Ty.Recipe)
  | list (item : Ty.Recipe)
  | map (key value : Ty.Recipe)

/-- A composition of builders that gives a class or interface type. -/
inductive ClassType.Recipe where
  | ofArgs (name : QualifiedName) (args : List GivenArg.Recipe)
  | withArgs (type : ClassType.Recipe) (args : List Ty.Recipe)

/-- A type argument that is asked for with a composition of builders in it. -/
inductive GivenArg.Recipe where
  | exactly (type : Ty.Recipe)
  | any
  | subtypesOf (bound : Ty.Recipe)
  | supertypesOf (bound : Ty.Recipe)

end

mutual

/-- The type that a composition of builders gives. -/
def Ty.Recipe.build : Ty.Recipe → Ty
  | .void => .void
  | .primitive type => .primitive type
  | .ofClass type => .ofClass type.build
  | .array element => element.build.array
  | .boxed type => type.build.boxed
  | .unboxed type => type.build.unboxed
  | .erasure type => type.build.erasure
  | .contained type => type.build.contained
  | .optional inner => .optional inner.build
  | .future inner => .future inner.build
  | .function input output => .function input.build output.build
  | .supplier inner => .supplier inner.build
  | .list item => .list item.build
  | .map key value => .map key.build value.build

/-- The class or interface type that a composition of builders gives. -/
def ClassType.Recipe.build : ClassType.Recipe → ClassType
  | .ofArgs name args => .ofArgs name (GivenArg.Recipe.buildList args)
  | .withArgs type args => type.build.withArgs (Ty.Recipe.buildList args)

/-- The type argument that is asked for. -/
def GivenArg.Recipe.build : GivenArg.Recipe → GivenArg
  | .exactly type => .exactly type.build
  | .any => .any
  | .subtypesOf bound => .subtypesOf bound.build
  | .supertypesOf bound => .supertypesOf bound.build

/-- The types that compositions of builders give. -/
def Ty.Recipe.buildList : List Ty.Recipe → List Ty
  | [] => []
  | type :: rest => type.build :: Ty.Recipe.buildList rest

/-- The type arguments that are asked for. -/
def GivenArg.Recipe.buildList : List GivenArg.Recipe → List GivenArg
  | [] => []
  | arg :: rest => arg.build :: GivenArg.Recipe.buildList rest

end

/-! ## Levels of argument lists

The nesting of a type counts the types in its arguments, one level deeper each. A wildcard without a
bound holds no type, so it adds nothing there; as an argument it is one level deeper all the same.
-/

mutual

/-- The levels of argument lists in a reference type, every argument counted. -/
def RefType.argLevels : RefType → Nat
  | .named _ args => TypeArg.levelsList args
  | .primitiveArray _ => 0
  | .array element => element.argLevels

/-- The levels that a type argument brings to the type around it. -/
def TypeArg.levels : TypeArg → Nat
  | .exactly type => type.argLevels + 1
  | .any => 1
  | .subtypesOf bound => bound.argLevels + 1
  | .supertypesOf bound => bound.argLevels + 1

/-- The most levels that one of the arguments brings. -/
def TypeArg.levelsList : List TypeArg → Nat
  | [] => 0
  | arg :: rest => max arg.levels (TypeArg.levelsList rest)

end

/-- The levels of argument lists in a type, every argument counted. -/
def Ty.argLevels : Ty → Nat
  | .reference type => type.argLevels
  | .void | .primitive _ => 0

/-! ## Reading built types back -/

namespace Ty

/-- `Optional` of a reference type nests one level deeper. -/
theorem nesting_optional_reference (inner : RefType) :
    (optional (.reference inner)).nesting = inner.nesting + 1 := by
  change max (inner.nesting + 1) 0 = inner.nesting + 1
  exact Nat.max_zero _

theorem isOptional_optional (inner : Ty) : (optional inner).isOptional := by
  change decide (LibraryName.optional.text = "Optional" ∨
    LibraryName.optional.text = "java.util.Optional") = true
  decide

/-- `Optional` of a reference type contains the type as it is. -/
theorem contained_optional_reference (inner : RefType) :
    (optional (.reference inner)).contained = .reference inner := rfl

namespace Recipe

/-- The canonical text of a built type other than `void` is read back as the type when its type
arguments nest at most 128 levels, and otherwise it is refused because it nests too deep. A type
argument that is a type or has a bound is a level; a wildcard without a bound is none. `Optional` of
a built class or array type that leaves a level free is read back as an `Optional` that contains
the type. -/
theorem parse_canonical_build (recipe : Ty.Recipe) :
    (recipe.build ≠ .void →
      (recipe.build.nesting ≤ 128 →
        Grammar.type.parse (canonical recipe.build) = .ok recipe.build) ∧
      (128 < recipe.build.nesting → ∃ error,
        Grammar.type.parse (canonical recipe.build) = .error error ∧
          error.message = "nesting too deep")) ∧
    ∀ inner, recipe.build = .reference inner → recipe.build.nesting ≤ 127 →
      ∃ again, Grammar.type.parse (canonical (Ty.optional recipe.build)) = .ok again ∧
        again.isOptional ∧ again.contained = recipe.build := by
  refine ⟨fun hvoid => ?_, fun inner hinner hnesting => ?_⟩
  · obtain ⟨hfits, hdeep⟩ := parse_canonical_reaches hvoid
    refine ⟨hfits, fun hnesting => ?_⟩
    obtain ⟨pos, herror⟩ := hdeep (Nat.not_le.2 hnesting)
    exact ⟨_, herror, rfl⟩
  · rw [hinner] at hnesting ⊢
    have hfits : (Ty.optional (.reference inner)).nesting ≤ nestingLimit := by
      rw [nesting_optional_reference]
      exact Nat.succ_le_succ hnesting
    have hvoid : Ty.optional (.reference inner) ≠ .void := nofun
    exact ⟨_, (parse_canonical_reaches hvoid).1 hfits, isOptional_optional _,
      contained_optional_reference inner⟩

/-- Primitive types and `void` become classes as arguments, as bounds and as elements. -/
theorem parse_canonical_build_map :
    ∃ recipe : Ty.Recipe,
      canonical recipe.build = "java.util.Map<Void, Box<? extends Integer, ?, Void[]>>" ∧
        recipe.build ≠ .void ∧ recipe.build.nesting ≤ 127 ∧
          Grammar.type.parse (canonical recipe.build) = .ok recipe.build ∧
            ∃ again, Grammar.type.parse (canonical (Ty.optional recipe.build)) = .ok again ∧
              again.isOptional ∧ again.contained = recipe.build := by
  obtain ⟨hread, hoptional⟩ := parse_canonical_build (.map .void (.ofClass
    (.ofArgs (.simple ⟨"Box", by decide⟩)
      [.subtypesOf (.primitive .int), .any, .exactly (.array .void)])))
  exact ⟨_, by decide +kernel, by decide +kernel, by decide +kernel,
    (hread (by decide +kernel)).1 (by decide +kernel), hoptional _ rfl (by decide +kernel)⟩

/-- A class with a wildcard as its argument, inside of some lists. -/
def wildcardIn : Nat → Ty.Recipe
  | 0 => .ofClass (.ofArgs (.simple ⟨"A", by decide⟩) [.any])
  | lists + 1 => .list (wildcardIn lists)

/-- A wildcard without a bound is read as the argument of the deepest type that may stand: the
argument lists of this type nest 129 levels. -/
theorem parse_canonical_wildcardIn :
    (wildcardIn 128).build ≠ .void ∧ (wildcardIn 128).build.argLevels = 129 ∧
      Grammar.type.parse (canonical (wildcardIn 128).build) = .ok (wildcardIn 128).build := by
  have hvoid : (wildcardIn 128).build ≠ .void := by decide +kernel
  have hnesting : (wildcardIn 128).build.nesting ≤ nestingLimit := by decide +kernel
  exact ⟨hvoid, by decide +kernel, (parse_canonical_reaches hvoid).1 hnesting⟩

end Recipe

end Ty

end Stubwright.Source
