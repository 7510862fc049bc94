import Stubwright.Source.Piece
import Stubwright.Source.Decl

/-!
# Canonical text

Every part of a syntax tree has one canonical text. An expression is put in parentheses where it
binds looser than its place asks for; a member stands on lines of its own, indented by its depth,
with an empty line before it unless it is a field after a field.

## Main definitions

* `Ty.pieces`, `ClassType.pieces` — types
* `Expr.pieces`, `Expr.piecesAt` — expressions, alone and in a place that asks for a precedence
* `Stmt.pieces`, `Member.pieces`, `TypeDecl.pieces`, `CompilationUnit.pieces` — the rest
-/

namespace Stubwright.Source

open Piece

/-! ## Names and types -/

/-- The pieces of a name. -/
def Name.pieces (name : Name) : List Piece := [word name.text]

/-- The pieces of a qualified name. -/
def QualifiedName.pieces (name : QualifiedName) : List Piece :=
  separated [symbol .dot] (name.segments.map Name.pieces)

mutual

/-- The pieces of a reference type. -/
def RefType.pieces : RefType → List Piece
  | .named name [] => name.pieces
  | .named name (arg :: rest) =>
    name.pieces ++ symbol .less :: TypeArg.listPieces (arg :: rest) ++ [symbol .greater]
  | .primitiveArray element =>
    [word element.keyword, symbol .leftBracket, symbol .rightBracket]
  | .array element => element.pieces ++ [symbol .leftBracket, symbol .rightBracket]

/-- The pieces of a type argument. -/
def TypeArg.pieces : TypeArg → List Piece
  | .exactly type => type.pieces
  | .any => [symbol .question]
  | .subtypesOf bound => symbol .question :: space :: word "extends" :: space :: bound.pieces
  | .supertypesOf bound => symbol .question :: space :: word "super" :: space :: bound.pieces

/-- The pieces of type arguments with commas between them. -/
def TypeArg.listPieces : List TypeArg → List Piece
  | [] => []
  | [last] => last.pieces
  | first :: second :: rest => first.pieces ++ comma ++ TypeArg.listPieces (second :: rest)

end

/-- The pieces of a class type. -/
def ClassType.pieces (type : ClassType) : List Piece := type.toRef.pieces

/-- The pieces of a type. -/
def Ty.pieces : Ty → List Piece
  | .void => [word "void"]
  | .primitive type => [word type.keyword]
  | .reference type => type.pieces

/-! ## Expressions -/

/-- Whether an integer fits in 32 bits. -/
def fitsInt (n : Int64) : Bool := -0x80000000 ≤ n.toInt && n.toInt < 0x80000000

/-- The pieces of an integer literal: a minus sign when it is negative, and its magnitude, as a
`long` when it does not fit in 32 bits. -/
def integerPieces (n : Int64) : List Piece :=
  let magnitude := n.toInt.natAbs
  let digits := if fitsInt n then .token (.integer magnitude) else long magnitude
  if n.toInt < 0 then [symbol .minus, digits] else [digits]

/-- The pieces of a literal. -/
def Literal.pieces : Literal → List Piece
  | .text value => [.token (.quoted value)]
  | .integer n => integerPieces n
  | .boolean value => [word (if value then "true" else "false")]
  | .null => [word "null"]

/-- Pieces in parentheses when they bind looser than their place asks for. -/
def enclose (own least : Nat) (pieces : List Piece) : List Piece :=
  if own < least then parenthesized pieces else pieces

mutual

/-- The pieces of an expression. After a minus sign, another minus sign is set off by a space,
because two in a row are read as one operator, and an integer literal that is not negative is put
in parentheses, because the sign would be read as a part of it. -/
def Expr.pieces : Expr → List Piece
  | .literal value => value.pieces
  | .name n => n.pieces
  | .self => [word "this"]
  | .field target n =>
    enclose target.precedence 7 target.pieces ++ symbol .dot :: n.pieces
  | .call n args => n.pieces ++ parenthesized (Expr.listPieces args)
  | .callOn target n args =>
    enclose target.precedence 7 target.pieces ++ symbol .dot :: n.pieces
      ++ parenthesized (Expr.listPieces args)
  | .create type args =>
    word "new" :: space :: type.pieces ++ parenthesized (Expr.listPieces args)
  | .classLiteral type => type.erasure.pieces ++ [symbol .dot, word "class"]
  | .unary .not operand => symbol .bang :: enclose operand.precedence 6 operand.pieces
  | .unary .neg (.unary .neg operand) =>
    symbol .minus :: space :: Expr.pieces (.unary .neg operand)
  | .unary .neg (.literal (.integer n)) =>
    if n.toInt < 0 then symbol .minus :: space :: integerPieces n
    else symbol .minus :: parenthesized (integerPieces n)
  | .unary .neg operand => symbol .minus :: enclose operand.precedence 6 operand.pieces
  | .binary op left right =>
    enclose left.precedence op.precedence left.pieces
      ++ space :: symbol op.symbol :: space
      :: enclose right.precedence (op.precedence + 1) right.pieces
  | .assign target value =>
    enclose target.precedence 7 target.pieces ++ space :: symbol .assign :: space
      :: enclose value.precedence 1 value.pieces

/-- The pieces of expressions with commas between them. -/
def Expr.listPieces : List Expr → List Piece
  | [] => []
  | [last] => last.pieces
  | first :: second :: rest => first.pieces ++ comma ++ Expr.listPieces (second :: rest)

end

/-- The pieces of an initial value, when there is one. -/
def initPieces : Option Expr → List Piece
  | none => []
  | some value => space :: symbol .assign :: space :: value.pieces

/-- The pieces of a statement. -/
def Stmt.pieces : Stmt → List Piece
  | .eval value => value.pieces ++ [symbol .semicolon]
  | .returns none => [word "return", symbol .semicolon]
  | .returns (some value) => word "return" :: space :: value.pieces ++ [symbol .semicolon]
  | .throws value => word "throw" :: space :: value.pieces ++ [symbol .semicolon]
  | .declare type name init =>
    type.pieces ++ space :: name.pieces ++ initPieces init ++ [symbol .semicolon]

/-! ## Declarations -/

/-- The pieces of an import. -/
def Import.pieces (i : Import) : List Piece :=
  word "import" :: space :: (if i.isStatic then [word "static", space] else [])
    ++ i.name.pieces ++ (if i.isAsterisk then [symbol .dot, symbol .star] else [])
    ++ [symbol .semicolon]

/-- The pieces of an annotation. -/
def AnnotationUse.pieces (use : AnnotationUse) : List Piece :=
  symbol .atSign :: use.name.pieces
    ++ ((use.argument.map fun value => parenthesized value.pieces).getD [])

/-- The pieces of a parameter, on one line with its annotations. -/
def Parameter.pieces (param : Parameter) : List Piece :=
  (param.annotations.flatMap fun use => use.pieces ++ [space])
    ++ (if param.isFinal then [word "final", space] else [])
    ++ param.type.pieces ++ space :: param.name.pieces

/-- Annotations on lines of their own. -/
def annotationLines (depth : Nat) (annotations : List AnnotationUse) : List Piece :=
  annotations.flatMap fun use => indentation depth ++ use.pieces ++ [newline]

/-- Modifiers, each followed by a space. -/
def modifierPieces (modifiers : List Modifier) : List Piece :=
  modifiers.flatMap fun modifier => [word modifier.keyword, space]

/-- The parameters of a method or constructor in parentheses. -/
def paramPieces (params : List Parameter) : List Piece :=
  parenthesized (separated comma (params.map Parameter.pieces))

/-- A method body at a depth, with a statement on each line. -/
def blockPieces (depth : Nat) (body : List Stmt) : List Piece :=
  space :: symbol .leftBrace :: newline
    :: (body.flatMap fun stmt => indentation (depth + 1) ++ stmt.pieces ++ [newline])
    ++ indentation depth ++ [symbol .rightBrace]

/-- Annotations, indentation and modifiers: what every declaration begins with. -/
def leadPieces (depth : Nat) (annotations : List AnnotationUse) (modifiers : List Modifier) :
    List Piece :=
  annotationLines depth annotations ++ indentation depth ++ modifierPieces modifiers

/-- The pieces of a field at a depth. -/
def FieldDecl.pieces (depth : Nat) (field : FieldDecl) : List Piece :=
  leadPieces depth field.annotations field.modifiers ++ field.type.pieces
    ++ space :: field.name.pieces ++ initPieces field.init ++ [symbol .semicolon]

/-- The pieces of a constructor at a depth. -/
def ConstructorDecl.pieces (depth : Nat) (ctor : ConstructorDecl) : List Piece :=
  leadPieces depth ctor.annotations ctor.modifiers ++ ctor.name.pieces
    ++ paramPieces ctor.params ++ blockPieces depth ctor.body

/-- Type parameters in angle brackets, when there are any. -/
def typeParamPieces : List Name → List Piece
  | [] => []
  | names@(_ :: _) =>
    symbol .less :: separated comma (names.map Name.pieces) ++ [symbol .greater, space]

/-- The pieces of a method at a depth. -/
def MethodDecl.pieces (depth : Nat) (method : MethodDecl) : List Piece :=
  leadPieces depth method.annotations method.modifiers ++ typeParamPieces method.typeParams
    ++ method.returnType.pieces ++ space :: method.name.pieces ++ paramPieces method.params
    ++ ((method.body.map (blockPieces depth)).getD [symbol .semicolon])

/-- The pieces of a member at a depth. -/
def Member.pieces (depth : Nat) : Member → List Piece
  | .field decl => decl.pieces depth
  | .constructor decl => decl.pieces depth
  | .method decl => decl.pieces depth

/-- Whether a member is a field. -/
def Member.isField : Member → Bool
  | .field _ => true
  | .constructor _ | .method _ => false

/-- The pieces of an enum constant. -/
def EnumConstant.pieces (constant : EnumConstant) : List Piece :=
  constant.name.pieces
    ++ if constant.args.isEmpty then [] else parenthesized (Expr.listPieces constant.args)

/-- The constants of an enum at a depth. A semicolon ends them when members follow. -/
def constantPieces (depth : Nat) (constants : List EnumConstant) (hasMembers : Bool) :
    List Piece :=
  separated [symbol .comma, newline]
      (constants.map fun constant => indentation depth ++ constant.pieces)
    ++ if hasMembers then [symbol .semicolon, newline, newline] else [newline]

/-- Members at a depth. An empty line stands between two members unless both are fields. -/
def memberPieces (depth : Nat) : List Member → List Piece
  | [] => []
  | [last] => last.pieces depth ++ [newline]
  | first :: second :: rest =>
    first.pieces depth ++ newline
      :: (if first.isField && second.isField then [] else [newline])
      ++ memberPieces depth (second :: rest)

/-- A keyword and class types with commas between them, when there are any. -/
def clausePieces (keyword : String) : List ClassType → List Piece
  | [] => []
  | types@(_ :: _) =>
    space :: word keyword :: space :: separated comma (types.map ClassType.pieces)

/-- The pieces of a type declaration. Only an enum writes its constants. -/
def TypeDecl.pieces (decl : TypeDecl) : List Piece :=
  leadPieces 0 decl.annotations decl.modifiers
    ++ word decl.kind.keyword :: space :: decl.name.pieces
    ++ clausePieces "extends" decl.supers ++ clausePieces "implements" decl.interfaces
    ++ space :: symbol .leftBrace :: newline
    :: (if decl.kind = .enumType ∧ decl.constants ≠ [] then
          constantPieces 1 decl.constants !decl.members.isEmpty
        else [])
    ++ memberPieces 1 decl.members ++ [symbol .rightBrace]

/-- The sections of a file: the package, the imports, and each type. -/
def CompilationUnit.sections (file : CompilationUnit) : List (List Piece) :=
  (match file.package with
    | some package => [word "package" :: space :: package.pieces ++ [symbol .semicolon, newline]]
    | none => [])
  ++ (if file.imports.isEmpty then [] else [file.imports.flatMap fun i => i.pieces ++ [newline]])
  ++ file.types.map fun decl => decl.pieces ++ [newline]

/-- The pieces of a file: its sections with empty lines between them. -/
def CompilationUnit.pieces (file : CompilationUnit) : List Piece :=
  separated [newline] file.sections

instance : Printable Name := ⟨Name.pieces⟩

instance : Printable QualifiedName := ⟨QualifiedName.pieces⟩

instance : Printable ClassType := ⟨ClassType.pieces⟩

instance : Printable Ty := ⟨Ty.pieces⟩

instance : Printable Expr := ⟨Expr.pieces⟩

instance : Printable Stmt := ⟨Stmt.pieces⟩

instance : Printable Import := ⟨Import.pieces⟩

instance : Printable AnnotationUse := ⟨AnnotationUse.pieces⟩

instance : Printable Parameter := ⟨Parameter.pieces⟩

instance : Printable Member := ⟨Member.pieces 0⟩

instance : Printable TypeDecl := ⟨TypeDecl.pieces⟩

instance : Printable CompilationUnit := ⟨CompilationUnit.pieces⟩

instance : ToString Ty := ⟨canonical⟩

end Stubwright.Source
