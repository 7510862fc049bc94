import Stubwright.Source.Decl
import Stubwright.Source.Parser.Expr

/-!
# Parsing declarations

Statements, members, type declarations and whole files. Everything here stands at the outermost
level of nesting.
-/

namespace Stubwright.Source.Parser

/-- A class or interface type at the outermost level. -/
def outerClassType : Parser ClassType := classType firstInner.refType

/-- A type at the outermost level. -/
def outerType : Parser Ty := type firstInner.refType

/-! ## Statements -/

/-- The initial value after an equals sign, when there is one. -/
def initValue : Parser (Option Expr) := do
  if ← symbol? .assign then some <$> expr else pure none

/-- Reads nothing and answers whether a type, a name, and an equals sign or a semicolon stand
next: the beginning of a local variable. -/
def atLocal : Parser Bool := fun ts =>
  match outerType ts with
  | .ok (_, .word _ :: .symbol .assign :: _) => .ok (true, ts)
  | .ok (_, .word _ :: .symbol .semicolon :: _) => .ok (true, ts)
  | _ => .ok (false, ts)

/-- The declaration of a local variable. -/
def localVariable : Parser Stmt := do
  let type ← outerType
  let name ← name
  let init ← initValue
  expect .semicolon "';' after local variable"
  return .declare type name init

/-- A statement. -/
def stmt : Parser Stmt := do
  if ← word? "return" then
    if ← symbol? .semicolon then return .returns none
    let value ← expr
    expect .semicolon "';' after return value"
    return .returns (some value)
  else if ← word? "throw" then
    let value ← expr
    expect .semicolon "';' after throw"
    return .throws value
  -- `a.b c;` declares and `a.b;` is an expression: only the token after the type tells them apart.
  else if ← atLocal then localVariable
  else
    let value ← expr
    expect .semicolon "';' after expression statement"
    return .eval value

/-- Items up to a closing brace, which is read as well. -/
def untilBrace {α : Type} (what : String) (item : Parser α) : Parser (List α) :=
  many do
    if ← symbol? .rightBrace then pure none
    else if (← peek).isNone then unexpected what
    else some <$> item

/-- Statements between braces. -/
def block : Parser (List Stmt) := do
  expect .leftBrace "'\x7b' to open block"
  untilBrace "'\x7d' to close block" stmt

/-! ## Annotations, modifiers and parameters -/

/-- The annotations that stand next. -/
def annotations : Parser (List AnnotationUse) :=
  many do
    if ← symbol? .atSign then
      let name ← qualifiedName
      if ← symbol? .leftParen then
        let argument ← expr
        expect .rightParen "')' to close annotation argument"
        return some ⟨name, some argument⟩
      else return some ⟨name, none⟩
    else pure none

/-- The modifiers that stand next. -/
def modifiers : Parser (List Modifier) :=
  many do
    match ← peek with
    | some (.word text) =>
      match Modifier.ofKeyword? text with
      | some modifier =>
        skip
        return some modifier
      | none => pure none
    | _ => pure none

/-- A parameter. -/
def parameter : Parser Parameter := do
  let annotations ← annotations
  let isFinal ← word? "final"
  let type ← outerType
  let name ← name
  return ⟨annotations, isFinal, type, name⟩

/-- Parameters in parentheses. -/
def parameterList : Parser (List Parameter) := do
  expect .leftParen "'('"
  upTo .rightParen "')' to close parameter list" parameter

/-- Type parameters in angle brackets. -/
def typeParameters : Parser (List Name) := do
  if ← symbol? .less then
    let names ← commaSeparated name
    expect .greater "'>' to close type parameters"
    return names
  else pure []

/-! ## Members -/

/-- The rest of a constructor after its modifiers. -/
def constructorRest (annotations : List AnnotationUse) (modifiers : List Modifier) :
    Parser Member := do
  let name ← name
  let params ← parameterList
  let body ← block
  return .constructor { annotations, modifiers, name, params, body }

/-- The body of a method, or the semicolon in its place. -/
def methodBody : Parser (Option (List Stmt)) := do
  if ← atSymbol .leftBrace then some <$> block
  else
    expect .semicolon "';' or method body"
    return none

/-- The rest of a method or field after its modifiers and type parameters. -/
def typedMember (annotations : List AnnotationUse) (modifiers : List Modifier)
    (typeParams : List Name) : Parser Member := do
  let type ← returnType firstInner.refType
  let name ← name
  if ← atSymbol .leftParen then
    let params ← parameterList
    let body ← methodBody
    return .method { annotations, modifiers, typeParams, returnType := type, name, params, body }
  else if type.isVoid then fail .voidField
  else if !typeParams.isEmpty then unexpected "'(' after generic method name"
  else
    let init ← initValue
    expect .semicolon "';' after field declaration"
    return .field { annotations, modifiers, type, name, init }

/-- A member of the type named `owner`. The name of the type before a parenthesis begins a
constructor. -/
def member (owner : Name) : Parser Member := do
  let annotations ← annotations
  let modifiers ← modifiers
  let typeParams ← typeParameters
  if (← peek) = some (.word owner.text) ∧ (← peekSecond) = some (.symbol .leftParen) then
    if typeParams.isEmpty then constructorRest annotations modifiers
    else unexpected "a method declaration"
  else typedMember annotations modifiers typeParams

/-! ## Type declarations -/

/-- An enum constant. -/
def enumConstant : Parser EnumConstant := do
  let name ← name
  if ← atSymbol .leftParen then return ⟨name, ← arguments firstInner⟩
  else return ⟨name, []⟩

/-- The constant that stands next in an enum whose last constant may have more after it. The
answer also says whether a comma follows. -/
def enumConstant? (mayFollow : Bool) : Parser (Option (EnumConstant × Bool)) := do
  match mayFollow, ← peek with
  | true, some (.word _) =>
    let constant ← enumConstant
    return some (constant, ← symbol? .comma)
  | _, _ => pure none

/-- Enum constants in reverse and whether more may follow, extended by the next one. -/
def moreConstants? (read : List EnumConstant × Bool) :
    Parser (Option (List EnumConstant × Bool)) := do
  match ← enumConstant? read.2 with
  | some (constant, comma) => return some (constant :: read.1, comma)
  | none => pure none

/-- The constants of an enum with commas between them, where a comma may also end them, and the
semicolon before the members. The semicolon may be left out before the closing brace. -/
def enumConstants : Parser (List EnumConstant) := do
  let (read, _) ← extend moreConstants? ([], true)
  if ← atSymbol .rightBrace then pure ()
  else expect .semicolon "';' or '\x7d' after enum constants"
  return read.reverse

/-- The keyword that says what kind of type is declared. -/
def typeDeclKind : Parser TypeDeclKind := do
  if ← word? "class" then pure .classType
  else if ← word? "interface" then pure .interfaceType
  else if ← word? "enum" then pure .enumType
  else unexpected "'class', 'interface' or 'enum'"

/-- A keyword and class types with commas between them, when the keyword is next. -/
def clause (keyword : String) : Parser (List ClassType) := do
  if ← word? keyword then commaSeparated outerClassType else pure []

/-- A type declaration. -/
def typeDecl : Parser TypeDecl := do
  let annotations ← annotations
  let modifiers ← modifiers
  let kind ← typeDeclKind
  let name ← name
  let supers ← clause "extends"
  let interfaces ← clause "implements"
  expect .leftBrace "'\x7b' to open type body"
  let constants ← if kind = .enumType then enumConstants else pure []
  let members ← untilBrace "'\x7d' to close type body" (member name)
  return { annotations, modifiers, kind, name, supers, interfaces, constants, members }

/-! ## Files -/

/-- A dot and a star. -/
def asterisk : Parser Bool := do
  match ← peek, ← peekSecond with
  | some (.symbol .dot), some (.symbol .star) =>
    skip
    skip
    return true
  | _, _ => return false

/-- What an import names, without the keywords and the semicolon. A static import names a member
or all members of a type. -/
def importTarget (isStatic : Bool) : Parser Import := do
  let before ← remaining
  let name ← qualifiedName
  let isAsterisk ← asterisk
  if isStatic && !isAsterisk && name.isSimple then failAt before .staticImportOfType
  else return ⟨name, isStatic, isAsterisk⟩

/-- An import. -/
def importDecl : Parser Import := do
  if ← word? "import" then
    let isStatic ← word? "static"
    let target ← importTarget isStatic
    expect .semicolon "';' after import"
    return target
  else unexpected "'import'"

/-- The package of a file, when it names one. -/
def packageDecl : Parser (Option QualifiedName) := do
  if ← word? "package" then
    let name ← qualifiedName
    expect .semicolon "';' after package declaration"
    return some name
  else pure none

/-- A file. -/
def compilationUnit : Parser CompilationUnit := do
  let package ← packageDecl
  let imports ← many do
    if (← peek) = some (.word "import") then some <$> importDecl else pure none
  let types ← many do
    if (← peek).isNone then pure none else some <$> typeDecl
  return ⟨package, imports, types⟩

end Stubwright.Source.Parser
