import Stubwright.JavaName
import Stubwright.Vocabulary

/-!
# Named lists

An array schema becomes a class of its own that extends `java.util.ArrayList`.
-/

namespace Stubwright.NamedList

open Source

variable {σ : Type}

/-- The class that extends a list class with items of a type. -/
def listDecl (name : Name) (base : ClassType) (items : Ty) : TypeDecl :=
  { TypeDecl.publicType .classType name [] with supers := [base.withArgs [items]] }

/-- The class of an array schema, whose items must not be optional. -/
def render (package : QualifiedName) (name : String) (items : Ty) : Step σ Definition := do
  if items.isOptional then
    Step.refuse s!"array '{name}' cannot hold optional items ({items})"
  let className ← JavaName.ofType name
  let base ← Grammar.classType.read "java.util.ArrayList"
  Step.info s!"rendered array {className}"
  return .ofDecl package [] (listDecl className base items)

/-- The instruction to render an array with its items. -/
structure Term where
  name : String
  items : Ty
deriving DecidableEq

/-- The instruction on arrays. Its answer is a support type. -/
abbrev vocabulary : Vocabulary where
  Term := Term
  Answer := Definition
  label term := s!"render array {term.name} of {term.items}"
  contribute definition result := result.add .support definition

/-- The handler of the instruction on arrays. -/
def handler (package : QualifiedName) : Handler vocabulary :=
  .stateless fun term => render package term.name term.items

end Stubwright.NamedList
