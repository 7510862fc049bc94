import Stubwright.Source.Token
import Stubwright.Source.Type

/-!
# Syntax errors

Why a text is not what it should be, and where.
-/

namespace Stubwright.Source

/-- Why a text is refused. The first eight causes concern single tokens, the others the order in
which tokens stand. -/
inductive SyntaxFault where
  | integerTooLarge (digits : String)
  | newlineInText
  | unfinishedEscape
  | badUnicodeEscape
  | unknownEscape (letter : Char)
  | unclosedText
  | unclosedComment
  | strayCharacter (c : Char)
  | expected (what : String) (found : Option Token)
  | reservedWord (text : String)
  | voidOutsideReturn
  | noTypeArguments
  | primitiveArgument (type : PrimitiveType)
  | tooDeep
  | outOfRange (isNegative : Bool) (magnitude : Nat)
  | classLiteralTarget
  | assignmentTarget
  | voidField
  | staticImportOfType
deriving DecidableEq

/-- What is said of a fault at byte position `pos`. -/
def SyntaxFault.message (pos : Nat) : SyntaxFault → String
  | integerTooLarge digits =>
    s!"invalid integer literal '{digits}': number too large to fit in target type"
  | newlineInText => "newline in string literal"
  | unfinishedEscape => "unterminated escape sequence"
  | badUnicodeEscape => "invalid unicode escape"
  | unknownEscape letter => s!"unknown escape sequence '\\{letter}'"
  | unclosedText => s!"unterminated string literal starting at {pos}"
  | unclosedComment => "unterminated block comment"
  | strayCharacter c => s!"unexpected character '{c}'"
  | expected what found =>
    let next := Token.describeNext found
    s!"expected {what}, found {next}"
  | reservedWord text => s!"expected identifier, found reserved word '{text}'"
  | voidOutsideReturn => "'void' is only valid as a method return type"
  | noTypeArguments => "empty type argument list"
  | primitiveArgument type =>
    let keyword := type.keyword
    s!"primitive type '{keyword}' cannot be used as a type argument"
  | tooDeep => "nesting too deep"
  | outOfRange isNegative magnitude =>
    let sign := if isNegative then "-" else ""
    s!"integer literal {sign}{magnitude} is out of range"
  | classLiteralTarget => "class literal requires a type name"
  | assignmentTarget => "invalid assignment target"
  | voidField => "field cannot have type 'void'"
  | staticImportOfType => "static import must name a member of a type"

/-- A syntax error: a fault and its byte position in the text. -/
structure SyntaxError where
  fault : SyntaxFault
  pos : Nat
deriving DecidableEq

namespace SyntaxError

/-- What is said of the error, without its position. -/
def message (error : SyntaxError) : String := error.fault.message error.pos

/-- What is said of the error, with its position. -/
def display (error : SyntaxError) : String := s!"{error.message} at position {error.pos}"

end SyntaxError

end Stubwright.Source
