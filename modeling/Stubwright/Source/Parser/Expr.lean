import Stubwright.Source.Parser.Type
import Stubwright.Source.Expr

/-!
# Parsing expressions

There is one parser for each level of precedence. What stands in parentheses, in an argument list,
after a unary operator or on the right of an assignment is one level of nesting deeper, and the
parsers of one level are given those of the next as `Inner`.
-/

namespace Stubwright.Source

/-- The parsers one level of nesting deeper. -/
structure Inner where
  expr : Parser Expr
  unary : Parser Expr
  refType : Parser RefType

namespace Parser

/-- Arguments in parentheses. -/
def arguments (inner : Inner) : Parser (List Expr) := do
  expect .leftParen "'('"
  upTo .rightParen "')' to close argument list" inner.expr

/-- The class literal of a primitive type or `void`, or of an array. -/
def keywordClassLiteral (inner : Inner) : Parser Expr := do
  let type ← returnType inner.refType
  match ← peek, ← peekSecond with
  | some (.symbol .dot), some (.word "class") =>
    skip
    skip
    return .classLiteral type
  | _, _ => unexpected "'.class' after primitive type"

/-- A new object. -/
def creation (inner : Inner) : Parser Expr := do
  let type ← classType inner.refType
  return .create type (← arguments inner)

/-- A name or a call that stands alone. -/
def nameOrCall (inner : Inner) : Parser Expr := do
  let name ← name
  if ← atSymbol .leftParen then return .call name (← arguments inner)
  else return .name name

/-- An expression that begins with a word. -/
def wordExpr (inner : Inner) (text : String) : Parser Expr := do
  if text = "true" ∨ text = "false" then
    skip
    return .literal (.boolean (text = "true"))
  else if text = "null" then
    skip
    return .null
  else if text = "this" then
    skip
    return .self
  else if text = "new" then
    skip
    creation inner
  else if (PrimitiveType.ofKeyword? text).isSome ∨ text = "void" then keywordClassLiteral inner
  else nameOrCall inner

/-- An integer literal without a sign, which has 63 bits. -/
def integerLiteral (magnitude : Nat) : Parser Expr := do
  if magnitude < 0x8000000000000000 then
    skip
    return .integer (Int64.ofNat magnitude)
  else fail (.outOfRange false magnitude)

/-- An integer literal after its minus sign, which makes room for one more. -/
def negativeLiteral (magnitude : Nat) : Parser Expr := do
  if magnitude ≤ 0x8000000000000000 then
    skip
    return .integer (Int64.ofInt (-magnitude))
  else fail (.outOfRange true magnitude)

/-- An expression without operators. -/
def primary (inner : Inner) : Parser Expr := do
  match ← peek with
  | some (.integer magnitude) => integerLiteral magnitude
  | some (.quoted value) =>
    skip
    return .text value
  | some (.symbol .leftParen) =>
    skip
    let value ← inner.expr
    expect .rightParen "')' to close parenthesized expression"
    return value
  | some (.word text) => wordExpr inner text
  | _ => unexpected "expression"

/-- A dot after an expression and what it selects: a class literal, a call or a field. -/
def selection? (inner : Inner) (target : Expr) : Parser (Option Expr) := do
  let before ← remaining
  if ← symbol? .dot then
    if ← word? "class" then
      match target.qualifiedName? with
      | some name => return some (.classLiteral (.ofClass (.plain name)))
      | none => failAt before .classLiteralTarget
    else
      let name ← name
      if ← atSymbol .leftParen then return some (.callOn target name (← arguments inner))
      else return some (.field target name)
  else pure none

/-- An expression with the selections after it. -/
def postfixed (inner : Inner) : Parser Expr := do
  let target ← primary inner
  extend (selection? inner) target

/-- An expression with the unary operators before it. A minus sign before an integer literal is
the sign of the literal. -/
def unary (inner : Inner) : Parser Expr := do
  if ← symbol? .bang then return .unary .not (← inner.unary)
  else if ← symbol? .minus then
    match ← peek with
    | some (.integer magnitude) => negativeLiteral magnitude
    | _ => return .unary .neg (← inner.unary)
  else postfixed inner

/-- Operands with operators between them, grouped from the left. The operators are tried in
order. -/
def leftChain (operators : List BinaryOp) (operand : Parser Expr) : Parser Expr := do
  let first ← operand
  extend (fun left => do
    let next ← peek
    match operators.find? fun op => next = some (.symbol op.symbol) with
    | some op =>
      skip
      return some (.binary op left (← operand))
    | none => pure none) first

/-- Sums and differences. -/
def additive (inner : Inner) : Parser Expr := leftChain [.add, .sub] (unary inner)

/-- Comparisons. -/
def equality (inner : Inner) : Parser Expr := leftChain [.equal, .notEqual] (additive inner)

/-- Conjunctions. -/
def conjunction (inner : Inner) : Parser Expr := leftChain [.and] (equality inner)

/-- Disjunctions. -/
def disjunction (inner : Inner) : Parser Expr := leftChain [.or] (conjunction inner)

/-- An expression: a disjunction, or an assignment to a name or a field. -/
def exprWith (inner : Inner) : Parser Expr := do
  let before ← remaining
  let target ← disjunction inner
  if ← symbol? .assign then
    if target.isAssignable then return .assign target (← inner.expr)
    else failAt before .assignmentTarget
  else return target

/-- The parsers at a level with a budget of levels: with none left they refuse everything. -/
def innerAt : Nat → Inner
  | 0 => ⟨fail .tooDeep, fail .tooDeep, refTypeAt 0⟩
  | budget + 1 =>
    let inner := innerAt budget
    ⟨exprWith inner, unary inner, refTypeAt (budget + 1)⟩

/-- The parsers one level below the outermost one. -/
def firstInner : Inner := innerAt nestingLimit

/-- An expression at the outermost level. -/
def expr : Parser Expr := exprWith firstInner

end Parser

end Stubwright.Source
