import Stubwright.JavaName
import Stubwright.Naming.Unique
import Stubwright.Route
import Stubwright.Vocabulary

/-!
# Unions

A union schema becomes an interface with a getter for the discriminator and a text constant for each
variant. The classes of the variants implement it; their own discriminator property supplies the
getter.
-/

namespace Stubwright.Union

open Source

variable {σ : Type}

/-- The constant of a variant, which holds its value on the wire. -/
def constantDecl (text : Ty) (name : Name) (variant : UnionVariant) : FieldDecl :=
  ⟨[], [.isPublic, .isStatic, .isFinal], text, name, some (.text variant.value)⟩

/-- The constants of variants, with distinct names in order. -/
def readConstants (text : Ty) (interfaceName : Name) (variants : List UnionVariant) :
    Step σ (List FieldDecl) :=
  let names := Naming.uniqueNames [] (variants.map fun variant =>
    Naming.constantName variant.value)
  (names.zip variants).mapM fun (name, variant) => do
    let constant ← Grammar.name.read name
    Step.debug s!"{variant.type} is a variant of {interfaceName}"
    return constantDecl text constant variant

/-- The interface with constants and the getter of the discriminator. -/
def interfaceDecl (name : Name) (constants : List FieldDecl) (text : Ty) (getter : Name) :
    TypeDecl :=
  .publicType .interfaceType name
    (constants.map .field ++ [.method ⟨[], [], [], text, getter, [], none⟩])

/-- The interface of a union schema, which has to have a variant. -/
def render (package : QualifiedName) (name discriminator : String)
    (variants : List UnionVariant) : Step σ Definition := do
  if variants.isEmpty then Step.refuse s!"union '{name}' declares no variants"
  let interfaceName ← JavaName.ofType name
  let text ← Grammar.type.read "String"
  let constants ← readConstants text interfaceName variants
  let member ← JavaName.ofMember discriminator "type"
  let getter ← JavaName.ofGetter member
  Step.info s!"rendered union {interfaceName} ({variants.length} variants)"
  return .ofDecl package [] (interfaceDecl interfaceName constants text getter)

/-- The instruction to render a union with the wire name of its discriminator and its variants. -/
structure Term where
  name : String
  discriminator : String
  variants : List UnionVariant
deriving DecidableEq

/-- The instruction on unions. Its answer is a support type. -/
abbrev vocabulary : Vocabulary where
  Term := Term
  Answer := Definition
  label term := s!"render union {term.name} ({term.variants.length} variants)"
  contribute definition result := result.add .support definition

/-- The handler of the instruction on unions. -/
def handler (package : QualifiedName) : Handler vocabulary :=
  .stateless fun term => render package term.name term.discriminator term.variants

end Stubwright.Union
