import Stubwright.Source.Expr

/-!
# Declarations

Imports, parameters, members, type declarations and the compilation units that hold them.
-/

namespace Stubwright.Source

/-- An import of a type, of everything in a package or type, or of static members. -/
structure Import where
  name : QualifiedName
  isStatic : Bool
  isAsterisk : Bool
deriving DecidableEq

/-- The import of a single type. -/
def Import.ofType (name : QualifiedName) : Import := ⟨name, false, false⟩

/-- An annotation on a declaration, `@Name` or `@Name(argument)`. -/
structure AnnotationUse where
  name : QualifiedName
  argument : Option Expr
deriving DecidableEq

/-- An annotation without an argument. -/
def AnnotationUse.plain (name : QualifiedName) : AnnotationUse := ⟨name, none⟩

/-- A modifier of a declaration. -/
inductive Modifier where
  | isPublic
  | isProtected
  | isPrivate
  | isAbstract
  | isDefault
  | isStatic
  | isFinal
deriving DecidableEq, Repr

namespace Modifier

/-- All modifiers. -/
def all : List Modifier :=
  [isPublic, isProtected, isPrivate, isAbstract, isDefault, isStatic, isFinal]

/-- The keyword of a modifier. -/
def keyword : Modifier → String
  | isPublic => "public"
  | isProtected => "protected"
  | isPrivate => "private"
  | isAbstract => "abstract"
  | isDefault => "default"
  | isStatic => "static"
  | isFinal => "final"

/-- The modifier with a keyword. -/
def ofKeyword? (text : String) : Option Modifier := all.find? (·.keyword = text)

/-- A modifier is found by its own keyword. -/
theorem ofKeyword?_keyword (m : Modifier) : ofKeyword? m.keyword = some m := by
  cases m <;> decide

end Modifier

/-- A parameter of a method or constructor. -/
structure Parameter where
  annotations : List AnnotationUse
  isFinal : Bool
  type : Ty
  name : Name
deriving DecidableEq

/-- A parameter without annotations that is not final. -/
def Parameter.plain (type : Ty) (name : Name) : Parameter := ⟨[], false, type, name⟩

/-- A field. -/
structure FieldDecl where
  annotations : List AnnotationUse
  modifiers : List Modifier
  type : Ty
  name : Name
  init : Option Expr
deriving DecidableEq

/-- A constructor. -/
structure ConstructorDecl where
  annotations : List AnnotationUse
  modifiers : List Modifier
  name : Name
  params : List Parameter
  body : List Stmt
deriving DecidableEq

/-- A method. One without a body is abstract or belongs to an interface. -/
structure MethodDecl where
  annotations : List AnnotationUse
  modifiers : List Modifier
  typeParams : List Name
  returnType : Ty
  name : Name
  params : List Parameter
  body : Option (List Stmt)
deriving DecidableEq

/-- A member of a type declaration. -/
inductive Member where
  | field (decl : FieldDecl)
  | constructor (decl : ConstructorDecl)
  | method (decl : MethodDecl)
deriving DecidableEq

/-- The kind of a type declaration. -/
inductive TypeDeclKind where
  | classType
  | interfaceType
  | enumType
deriving DecidableEq, Repr

/-- The keyword of a kind of type declaration. -/
def TypeDeclKind.keyword : TypeDeclKind → String
  | classType => "class"
  | interfaceType => "interface"
  | enumType => "enum"

/-- A constant of an enum, with the arguments of its constructor call. -/
structure EnumConstant where
  name : Name
  args : List Expr
deriving DecidableEq

/-- A class, an interface or an enum. Only an enum has constants. -/
structure TypeDecl where
  annotations : List AnnotationUse
  modifiers : List Modifier
  kind : TypeDeclKind
  name : Name
  supers : List ClassType
  interfaces : List ClassType
  constants : List EnumConstant
  members : List Member
deriving DecidableEq

/-- A public type declaration with members, which extends and implements nothing. -/
def TypeDecl.publicType (kind : TypeDeclKind) (name : Name) (members : List Member) : TypeDecl :=
  { annotations := [], modifiers := [.isPublic], kind, name, supers := [], interfaces := [],
    constants := [], members }

/-- A source file: its package, its imports and the types it declares. -/
structure CompilationUnit where
  package : Option QualifiedName
  imports : List Import
  types : List TypeDecl
deriving DecidableEq

/-- The file of a package that declares a single type. -/
def CompilationUnit.single (package : QualifiedName) (imports : List Import) (decl : TypeDecl) :
    CompilationUnit := ⟨some package, imports, [decl]⟩

end Stubwright.Source
