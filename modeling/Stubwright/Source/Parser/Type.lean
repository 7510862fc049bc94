import Stubwright.Source.Parser.Basic

/-!
# Parsing types

A type argument is a type one level deeper, and there is a limit to the depth: `refTypeAt` has a
budget of levels, and with none left every type argument is refused. The parsers of one level are
given the parser of the next.
-/

namespace Stubwright.Source

/-- The deepest nesting of type arguments, parentheses, arguments and unary operators. -/
def nestingLimit : Nat := 128

namespace Parser

/-- A type argument, where `inner` reads a reference type one level deeper. -/
def typeArg (inner : Parser RefType) : Parser TypeArg := do
  if ← symbol? .question then
    if ← word? "extends" then .subtypesOf <$> inner
    else if ← word? "super" then .supertypesOf <$> inner
    else pure .any
  else .exactly <$> inner

/-- A class or interface type. -/
def classType (inner : Parser RefType) : Parser ClassType := do
  let name ← qualifiedName
  if ← symbol? .less then
    if ← atSymbol .greater then fail .noTypeArguments
    let args ← commaSeparated (typeArg inner)
    expect .greater "'>' to close type arguments"
    return ⟨name, args⟩
  else return ⟨name, []⟩

/-- A pair of brackets after a type. -/
def arraySuffix? (type : Ty) : Parser (Option Ty) := do
  if ← symbol? .leftBracket then
    expect .rightBracket "']' in array type"
    return some type.array
  else pure none

/-- A type without brackets after it. -/
def baseType (inner : Parser RefType) : Parser Ty := do
  match ← peek with
  | some (.word text) =>
    match PrimitiveType.ofKeyword? text with
    | some primitive =>
      skip
      return .primitive primitive
    | none =>
      if text = "void" then fail .voidOutsideReturn
      else .ofClass <$> classType inner
  | _ => unexpected "type"

/-- A type; `void` is none. -/
def type (inner : Parser RefType) : Parser Ty := do
  let base ← baseType inner
  extend arraySuffix? base

/-- A type that may stand as a type argument. -/
def refType (inner : Parser RefType) : Parser RefType := do
  let before ← remaining
  match ← type inner with
  | .primitive primitive => failAt before (.primitiveArgument primitive)
  | type => return type.toRef

/-- A reference type at a level with a budget of levels: with none left it is refused. -/
def refTypeAt : Nat → Parser RefType
  | 0 => fail .tooDeep
  | budget + 1 => refType (refTypeAt budget)

/-- A type where a method returns it: `void` is allowed. -/
def returnType (inner : Parser RefType) : Parser Ty := do
  if ← word? "void" then pure .void else type inner

end Parser

end Stubwright.Source
