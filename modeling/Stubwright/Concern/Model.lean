import Stubwright.JavaName
import Stubwright.Naming.Unique
import Stubwright.Route
import Stubwright.Vocabulary

/-!
# Models

An object schema becomes an immutable class: a final field and a getter for each property, and a
constructor that takes them all.

## Main definitions

* `Model.transformProperty` — the field of a property
* `Model.classDecl`, `Model.renderClass` — the class of an object schema
* `Model.vocabulary`, `Model.handler` — the instructions and what carries them out
-/

namespace Stubwright.Model

open Source

variable {σ : Type}

/-- What is noted of a property when its field is settled. -/
def settledNote (className propertyName : String) (type : Ty) (term : Name) : String :=
  s!"{className}.{propertyName} -> {type} {term}"

/-- The field of a property: it gets a Java name, and the type of a required one is unboxed. -/
def transformProperty (className propertyName : String) (type : Ty) (isRequired : Bool) :
    Step σ ModelField := do
  let term ← JavaName.ofMember propertyName "field"
  let settled := if isRequired then type.unboxed else type
  Step.debug (settledNote className propertyName settled term)
  return ⟨propertyName, term, settled, isRequired⟩

/-! ## The class -/

/-- The final field that holds a property. -/
def fieldDecl (field : ModelField) : FieldDecl :=
  ⟨[], [.isPrivate, .isFinal], field.type, field.term, none⟩

/-- The statement that stores a parameter in the field of the same name. -/
def storeParameter (name : Name) : Stmt := .eval (.assign (.selfField name) (.name name))

/-- The constructor that takes every property. -/
def constructorDecl (className : Name) (fields : List ModelField) : ConstructorDecl :=
  { annotations := []
    modifiers := [.isPublic]
    name := className
    params := fields.map fun field => .plain field.type field.term
    body := fields.map fun field => storeParameter field.term }

/-- A public method without parameters that answers a field of the object. -/
def accessor (annotations : List AnnotationUse) (type : Ty) (name field : Name) : MethodDecl :=
  ⟨annotations, [.isPublic], [], type, name, [], some [.returns (some (.selfField field))]⟩

/-- The class with fields, the names of their getters, and the interfaces it implements. -/
def classDecl (className : Name) (fields : List ModelField) (getters : List Name)
    (interfaces : List ClassType) : TypeDecl :=
  let accessors := (fields.zip getters).map fun (field, getter) =>
    Member.method (accessor [] field.type getter field.term)
  let members := fields.map (Member.field ∘ fieldDecl)
    ++ .constructor (constructorDecl className fields) :: accessors
  { TypeDecl.publicType .classType className members with interfaces }

/-- The class of an object schema. No two properties may have the same Java name, and every parent
has to be an interface or class. -/
def renderClass (package : QualifiedName) (name : String) (fields : List ModelField)
    (parents : List Ty) : Step σ Definition := do
  let className ← JavaName.ofType name
  if let some repeated := Naming.firstRepeat? [] (fields.map (·.term)) then
    Step.refuse s!"class {className} has two properties named '{repeated}'"
  match parents.mapM Ty.classType? with
  | none => Step.defect s!"parent of {className} is not a class or interface type"
  | some interfaces =>
    let getters ← fields.mapM fun field => JavaName.ofGetter field.term
    Step.info s!"rendered model {className} ({fields.length} fields)"
    return .ofDecl package [] (classDecl className fields getters interfaces)

/-! ## Instructions -/

/-- An instruction: to settle a property, or to render a class. -/
inductive Term where
  | transformProperty (className propertyName : String) (type : Ty) (isRequired : Bool)
  | renderClass (name : String) (fields : List ModelField) (parents : List Ty)
deriving DecidableEq

/-- An answer, one kind for each kind of instruction. -/
inductive Answer where
  | field (field : ModelField)
  | rendered (definition : Definition)
deriving DecidableEq

/-- A short description of an instruction. -/
def Term.label : Term → String
  | transformProperty className propertyName _ _ =>
    s!"transform property {className}.{propertyName}"
  | renderClass name _ _ => s!"render class {name}"

namespace Answer

/-- The field that was settled. -/
def asField : Answer → Step σ ModelField
  | field settled => return settled
  | rendered definition =>
    Step.defect s!"expected a field from model renderer, got class {definition.name}"

/-- The class that was rendered. -/
def asClass : Answer → Step σ Definition
  | rendered definition => return definition
  | field settled =>
    Step.defect s!"expected a class from model renderer, got field {settled.name}"

end Answer

/-- The instructions on models. A rendered class is a support type. -/
abbrev vocabulary : Vocabulary where
  Term := Term
  Answer := Answer
  label := Term.label
  contribute
    | .field _, result => result
    | .rendered definition, result => result.add .support definition

/-- The handler of the instructions on models. -/
def handler (package : QualifiedName) : Handler vocabulary := .stateless fun
  | .transformProperty className propertyName type isRequired => do
    let field ← transformProperty className propertyName type isRequired
    return .field field
  | .renderClass name fields parents => do
    let definition ← renderClass package name fields parents
    return .rendered definition

end Stubwright.Model
