import Stubwright.Text.Classes

/-!
# Tokens

Source text is a sequence of tokens with white space and comments between them. An integer token
holds a magnitude only; a minus sign in front of it is a token of its own. `>>` is two tokens, so
that nested type arguments close without ado.
-/

namespace Stubwright.Source

/-- A punctuation mark or operator. -/
inductive Symbol where
  | dot
  | comma
  | semicolon
  | leftParen
  | rightParen
  | leftBrace
  | rightBrace
  | leftBracket
  | rightBracket
  | less
  | greater
  | question
  | atSign
  | assign
  | equal
  | notEqual
  | bang
  | plus
  | minus
  | star
  | andAnd
  | orOr
deriving DecidableEq, Repr

namespace Symbol

/-- How a symbol is written. -/
def text : Symbol → String
  | dot => "."
  | comma => ","
  | semicolon => ";"
  | leftParen => "("
  | rightParen => ")"
  | leftBrace => "\x7b"
  | rightBrace => "\x7d"
  | leftBracket => "["
  | rightBracket => "]"
  | less => "<"
  | greater => ">"
  | question => "?"
  | atSign => "@"
  | assign => "="
  | equal => "=="
  | notEqual => "!="
  | bang => "!"
  | plus => "+"
  | minus => "-"
  | star => "*"
  | andAnd => "&&"
  | orOr => "||"

/-- The symbol that a character is on its own. The characters `=`, `!`, `&` and `|` are not listed:
what they are depends on the character after them. -/
def ofChar? (c : Char) : Option Symbol :=
  [dot, comma, semicolon, leftParen, rightParen, leftBrace, rightBrace, leftBracket, rightBracket,
    less, greater, question, atSign, plus, minus, star].find? (·.text.toList = [c])

end Symbol

/-- A token. -/
inductive Token where
  | word (text : String)
  | integer (magnitude : Nat)
  | quoted (value : String)
  | symbol (symbol : Symbol)
deriving DecidableEq, Repr

/-- A token as error messages name it. -/
def Token.describe : Token → String
  | word text => s!"'{text}'"
  | integer n => s!"integer {n}"
  | quoted value => s!"string \"{value}\""
  | symbol s => s!"'{s.text}'"

/-- What stands next, as error messages name it: a token, or the end of the input. -/
def Token.describeNext (next : Option Token) : String :=
  (next.map describe).getD "end of input"

/-- A token with the byte position where it begins. -/
structure PlacedToken where
  token : Token
  pos : Nat
deriving DecidableEq, Repr

end Stubwright.Source
