import Stubwright.Source.Name

/-!
# Types

A reference type is what may stand as a type argument: a class or interface type, or an array. A
type is a primitive type, a reference type or `void`. Primitive types and `void` are turned into
the classes that stand for them wherever a reference type is needed, so that a type argument, the
bound of a wildcard and the element of an array are always what the language allows.

## Main definitions

* `PrimitiveType` — the eight primitive types with their keywords and wrapper classes
* `RefType`, `TypeArg`, `ClassType`, `Ty` — the types
* `Ty.array`, `ClassType.ofArgs`, `ClassType.ofTypes` — builders, which take any type and
  normalize it
* `Ty.boxed`, `Ty.unboxed`, `Ty.erasure`, `Ty.contained` — views of a type
* `Ty.optional`, `Ty.list`, `Ty.map`, … — the library types that generated code uses
-/

namespace Stubwright.Source

/-! ## Primitive types -/

/-- A primitive type. -/
inductive PrimitiveType where
  | boolean
  | byte
  | short
  | int
  | long
  | char
  | float
  | double
deriving DecidableEq, Repr

namespace PrimitiveType

/-- All primitive types. -/
def all : List PrimitiveType := [boolean, byte, short, int, long, char, float, double]

/-- The keyword of a primitive type. -/
def keyword : PrimitiveType → String
  | boolean => "boolean"
  | byte => "byte"
  | short => "short"
  | int => "int"
  | long => "long"
  | char => "char"
  | float => "float"
  | double => "double"

/-- The class that wraps a primitive type. -/
def wrapper : PrimitiveType → Name
  | boolean => ⟨"Boolean", by decide⟩
  | byte => ⟨"Byte", by decide⟩
  | short => ⟨"Short", by decide⟩
  | int => ⟨"Integer", by decide⟩
  | long => ⟨"Long", by decide⟩
  | char => ⟨"Character", by decide⟩
  | float => ⟨"Float", by decide⟩
  | double => ⟨"Double", by decide⟩

/-- The primitive type with a keyword. -/
def ofKeyword? (text : String) : Option PrimitiveType := all.find? (·.keyword = text)

/-- The primitive type that a class wraps, the class named alone or in `java.lang`. -/
def ofWrapper? (name : QualifiedName) : Option PrimitiveType :=
  all.find? fun p => name.text = p.wrapper.text ∨ name.text = "java.lang." ++ p.wrapper.text

/-- All primitive types are listed. -/
theorem mem_all (p : PrimitiveType) : p ∈ all := by cases p <;> decide

/-- A primitive type is found by its own keyword. -/
theorem ofKeyword?_keyword (p : PrimitiveType) : ofKeyword? p.keyword = some p := by
  cases p <;> decide

end PrimitiveType

/-! ## Reference types and types -/

mutual

/-- A reference type: a class or interface with type arguments, an array of primitives, or an
array of references. -/
inductive RefType where
  | named (name : QualifiedName) (args : List TypeArg)
  | primitiveArray (element : PrimitiveType)
  | array (element : RefType)

/-- A type argument: a type, `?`, `? extends T` or `? super T`. -/
inductive TypeArg where
  | exactly (type : RefType)
  | any
  | subtypesOf (bound : RefType)
  | supertypesOf (bound : RefType)

end

/-- A class or interface type: a name with type arguments on its last segment. -/
structure ClassType where
  name : QualifiedName
  args : List TypeArg

/-- A type. `void` is a type only where a method returns nothing. -/
inductive Ty where
  | void
  | primitive (type : PrimitiveType)
  | reference (type : RefType)

/-! ## Equality -/

mutual

/-- Decides whether two reference types are equal. -/
def RefType.decEq : (a b : RefType) → Decidable (a = b)
  | .named m as, .named n bs =>
    match decEq m n, TypeArg.decEqList as bs with
    | .isTrue h, .isTrue g => .isTrue (by rw [h, g])
    | .isFalse h, _ => .isFalse fun e => h (RefType.named.inj e).1
    | _, .isFalse h => .isFalse fun e => h (RefType.named.inj e).2
  | .primitiveArray p, .primitiveArray q => decidable_of_iff (p = q) (by simp)
  | .array s, .array t => @decidable_of_iff _ (s = t) (by simp) (RefType.decEq s t)
  | .named .., .primitiveArray .. => .isFalse nofun
  | .named .., .array .. => .isFalse nofun
  | .primitiveArray .., .named .. => .isFalse nofun
  | .primitiveArray .., .array .. => .isFalse nofun
  | .array .., .named .. => .isFalse nofun
  | .array .., .primitiveArray .. => .isFalse nofun

/-- Decides whether two type arguments are equal. -/
def TypeArg.decEq : (a b : TypeArg) → Decidable (a = b)
  | .exactly s, .exactly t => @decidable_of_iff _ (s = t) (by simp) (RefType.decEq s t)
  | .any, .any => .isTrue rfl
  | .subtypesOf s, .subtypesOf t => @decidable_of_iff _ (s = t) (by simp) (RefType.decEq s t)
  | .supertypesOf s, .supertypesOf t => @decidable_of_iff _ (s = t) (by simp) (RefType.decEq s t)
  | .exactly .., .any => .isFalse nofun
  | .exactly .., .subtypesOf .. => .isFalse nofun
  | .exactly .., .supertypesOf .. => .isFalse nofun
  | .any, .exactly .. => .isFalse nofun
  | .any, .subtypesOf .. => .isFalse nofun
  | .any, .supertypesOf .. => .isFalse nofun
  | .subtypesOf .., .exactly .. => .isFalse nofun
  | .subtypesOf .., .any => .isFalse nofun
  | .subtypesOf .., .supertypesOf .. => .isFalse nofun
  | .supertypesOf .., .exactly .. => .isFalse nofun
  | .supertypesOf .., .any => .isFalse nofun
  | .supertypesOf .., .subtypesOf .. => .isFalse nofun

/-- Decides whether two lists of type arguments are equal. -/
def TypeArg.decEqList : (as bs : List TypeArg) → Decidable (as = bs)
  | [], [] => .isTrue rfl
  | a :: as, b :: bs =>
    match TypeArg.decEq a b, TypeArg.decEqList as bs with
    | .isTrue h, .isTrue g => .isTrue (by rw [h, g])
    | .isFalse h, _ => .isFalse fun e => h (List.cons.inj e).1
    | _, .isFalse h => .isFalse fun e => h (List.cons.inj e).2
  | [], _ :: _ => .isFalse nofun
  | _ :: _, [] => .isFalse nofun

end

instance : DecidableEq RefType := RefType.decEq

instance : DecidableEq TypeArg := TypeArg.decEq

deriving instance DecidableEq for ClassType

deriving instance DecidableEq for Ty

instance : Inhabited Ty := ⟨.void⟩

/-! ## Builders -/

/-- The class type of a reference type, unless it is an array. -/
def RefType.classType? : RefType → Option ClassType
  | .named name args => some ⟨name, args⟩
  | .primitiveArray _ | .array _ => none

/-- A class or interface type as a reference type. -/
def ClassType.toRef (type : ClassType) : RefType := .named type.name type.args

/-- A class without type arguments. -/
def ClassType.plain (name : QualifiedName) : ClassType := ⟨name, []⟩

namespace Ty

/-- A class or interface type. -/
def ofClass (type : ClassType) : Ty := .reference type.toRef

/-- The class type that this is, if it is one. -/
def classType? : Ty → Option ClassType
  | .reference type => type.classType?
  | .void | .primitive _ => none

/-- The class that stands for `void`. -/
def voidClass : RefType := .named (.simple ⟨"Void", by decide⟩) []

/-- The class that wraps a primitive type, as a type. -/
def wrapperClass (type : PrimitiveType) : RefType := .named (.simple type.wrapper) []

/-- The reference type that stands for a type: primitive types are wrapped and `void` becomes the
class `Void`. -/
def toRef : Ty → RefType
  | .void => voidClass
  | .primitive type => wrapperClass type
  | .reference type => type

/-- The array of a type. An array of `void` is an array of `Void`. -/
def array : Ty → Ty
  | .void => .reference (.array voidClass)
  | .primitive type => .reference (.primitiveArray type)
  | .reference type => .reference (.array type)

end Ty

/-- A type argument as it is asked for: any type may stand in it. -/
inductive GivenArg where
  | exactly (type : Ty)
  | any
  | subtypesOf (bound : Ty)
  | supertypesOf (bound : Ty)

/-- The argument that is asked for, its type made a reference type. -/
def GivenArg.normalized : GivenArg → TypeArg
  | exactly type => .exactly type.toRef
  | any => .any
  | subtypesOf bound => .subtypesOf bound.toRef
  | supertypesOf bound => .supertypesOf bound.toRef

/-- A class or interface type with any arguments, each normalized. -/
def ClassType.ofArgs (name : QualifiedName) (args : List GivenArg) : ClassType :=
  ⟨name, args.map GivenArg.normalized⟩

/-- A class or interface type with types as arguments, each made a reference type. -/
def ClassType.ofTypes (name : QualifiedName) (args : List Ty) : ClassType :=
  ⟨name, args.map fun type => .exactly type.toRef⟩

/-- The same class or interface with other type arguments. -/
def ClassType.withArgs (type : ClassType) (args : List Ty) : ClassType := .ofTypes type.name args

/-! ## Views -/

mutual

/-- The depth of type arguments inside a reference type. -/
def RefType.nesting : RefType → Nat
  | .named _ args => TypeArg.nestingList args
  | .primitiveArray _ => 0
  | .array element => element.nesting

/-- The depth that a type argument brings to the type around it. -/
def TypeArg.nesting : TypeArg → Nat
  | .exactly type => type.nesting + 1
  | .any => 0
  | .subtypesOf bound => bound.nesting + 1
  | .supertypesOf bound => bound.nesting + 1

/-- The largest depth that one of the arguments brings. -/
def TypeArg.nestingList : List TypeArg → Nat
  | [] => 0
  | arg :: rest => max arg.nesting (TypeArg.nestingList rest)

end

/-- A reference type without its type arguments. -/
def RefType.erasure : RefType → RefType
  | .named name _ => .named name []
  | .primitiveArray element => .primitiveArray element
  | .array element => .array element.erasure

namespace Ty

/-- Whether this is `void`. -/
def isVoid : Ty → Bool
  | .void => true
  | .primitive _ | .reference _ => false

/-- Whether this is a primitive type. -/
def isPrimitive : Ty → Bool
  | .primitive _ => true
  | .void | .reference _ => false

/-- The name of a class or interface type. -/
def name? (type : Ty) : Option QualifiedName := type.classType?.map (·.name)

/-- Whether this is `Optional`, named alone or in `java.util`, with any arguments. -/
def isOptional (type : Ty) : Bool :=
  type.name?.any fun name => name.text = "Optional" ∨ name.text = "java.util.Optional"

/-- Whether a class or interface type has a name: the full name is compared when `text` holds a
dot, and the last segment otherwise. -/
def isNamed (type : Ty) (text : String) : Bool :=
  type.name?.any fun name =>
    if text.toList.contains '.' then name.text = text else name.name.text = text

/-- The type argument when there is exactly one and it is a type; otherwise the type itself. -/
def contained : Ty → Ty
  | .reference (.named _ [.exactly type]) => .reference type
  | type => type

/-- A wrapper class becomes its primitive type; any other type stays as it is. -/
def unboxed : Ty → Ty
  | .reference (.named name []) =>
    match PrimitiveType.ofWrapper? name with
    | some type => .primitive type
    | none => .reference (.named name [])
  | type => type

/-- A primitive type becomes its wrapper class; any other type stays as it is. -/
def boxed : Ty → Ty
  | .primitive type => .reference (wrapperClass type)
  | .void => .void
  | .reference type => .reference type

/-- The type without its type arguments. -/
def erasure : Ty → Ty
  | .reference type => .reference type.erasure
  | .void => .void
  | .primitive type => .primitive type

/-- The depth of type arguments inside a type. -/
def nesting : Ty → Nat
  | .reference type => type.nesting
  | .void | .primitive _ => 0

end Ty

/-! ## Library types -/

namespace LibraryName

/-- The package that the packages of the library are in. -/
def java : Name := ⟨"java", by decide⟩

/-- The package `java.util`. -/
def javaUtil : QualifiedName := .ofSegments java [⟨"util", by decide⟩]

/-- The package `java.util.concurrent`. -/
def javaConcurrent : QualifiedName := javaUtil.child ⟨"concurrent", by decide⟩

/-- The class `java.util.Optional`. -/
def optional : QualifiedName := javaUtil.child ⟨"Optional", by decide⟩

/-- The interface `java.util.List`. -/
def list : QualifiedName := javaUtil.child ⟨"List", by decide⟩

/-- The interface `java.util.Map`. -/
def map : QualifiedName := javaUtil.child ⟨"Map", by decide⟩

/-- The interface `java.util.concurrent.CompletionStage`. -/
def completionStage : QualifiedName := javaConcurrent.child ⟨"CompletionStage", by decide⟩

/-- The interface `java.util.function.Function`. -/
def function : QualifiedName :=
  (javaUtil.child ⟨"function", by decide⟩).child ⟨"Function", by decide⟩

/-- The interface `java.util.function.Supplier`. -/
def supplier : QualifiedName :=
  (javaUtil.child ⟨"function", by decide⟩).child ⟨"Supplier", by decide⟩

end LibraryName

namespace Ty

/-- A library type with type arguments. -/
def library (name : QualifiedName) (args : List Ty) : Ty := .ofClass (.ofTypes name args)

/-- `Optional` of a type. -/
def optional (inner : Ty) : Ty := library LibraryName.optional [inner]

/-- `CompletionStage` of a type. -/
def future (inner : Ty) : Ty := library LibraryName.completionStage [inner]

/-- `Function` from one type to another. -/
def function (input output : Ty) : Ty := library LibraryName.function [input, output]

/-- `Supplier` of a type. -/
def supplier (inner : Ty) : Ty := library LibraryName.supplier [inner]

/-- `List` of a type. -/
def list (item : Ty) : Ty := library LibraryName.list [item]

/-- `Map` from one type to another. -/
def map (key value : Ty) : Ty := library LibraryName.map [key, value]

end Ty

end Stubwright.Source
