import Stubwright.Concern.Model

/-!
# Enumerations

An enumeration schema becomes an enum with one constant for each value on the wire, which the
constant carries as its argument.
-/

namespace Stubwright.Enumeration

open Source

variable {σ : Type}

/-- The constants of values: distinct names in order, each with its value as the argument. -/
def readConstants (values : List String) : Step σ (List EnumConstant) :=
  let names := Naming.uniqueNames [] (values.map Naming.constantName)
  (names.zip values).mapM fun (name, value) => do
    let constant ← Grammar.name.read name
    return ⟨constant, [.text value]⟩

/-- The names that the declaration of an enum uses. -/
structure Words where
  text : Ty
  value : Name
  getValue : Name
  toText : Name
  overrides : QualifiedName

/-- Reads the names that the declaration of an enum uses. -/
def readWords : Step σ Words := do
  let text ← Grammar.type.read "String"
  let value ← Grammar.name.read "value"
  let getValue ← Grammar.name.read "getValue"
  let toText ← Grammar.name.read "toString"
  let overrides ← Grammar.qualifiedName.read "Override"
  return ⟨text, value, getValue, toText, overrides⟩

/-- The enum with constants: its value is a field that a getter and `toString` answer. -/
def enumDecl (name : Name) (constants : List EnumConstant) (words : Words) : TypeDecl :=
  let field : FieldDecl := ⟨[], [.isPrivate, .isFinal], words.text, words.value, none⟩
  let builder : ConstructorDecl :=
    ⟨[], [], name, [.plain words.text words.value], [Model.storeParameter words.value]⟩
  let members :=
    [ .field field,
      .constructor builder,
      .method (Model.accessor [] words.text words.getValue words.value),
      .method (Model.accessor [.plain words.overrides] words.text words.toText words.value)]
  { TypeDecl.publicType .enumType name members with constants }

/-- The enum of an enumeration schema, which has to have a value. -/
def render (package : QualifiedName) (name : String) (values : List String) :
    Step σ Definition := do
  if values.isEmpty then Step.refuse s!"enum '{name}' declares no values"
  let enumName ← JavaName.ofType name
  let constants ← readConstants values
  let words ← readWords
  Step.info s!"rendered enum {enumName} ({values.length} values)"
  return .ofDecl package [] (enumDecl enumName constants words)

/-- The instruction to render an enumeration with its values on the wire. -/
structure Term where
  name : String
  values : List String
deriving DecidableEq

/-- The instruction on enumerations. Its answer is a support type. -/
abbrev vocabulary : Vocabulary where
  Term := Term
  Answer := Definition
  label term := s!"render enum {term.name}"
  contribute definition result := result.add .support definition

/-- The handler of the instruction on enumerations. -/
def handler (package : QualifiedName) : Handler vocabulary :=
  .stateless fun term => render package term.name term.values

end Stubwright.Enumeration
