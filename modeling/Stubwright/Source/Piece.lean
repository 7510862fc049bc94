import Stubwright.Source.Token
import Stubwright.Text.Quoted

/-!
# Printed text in pieces

A syntax tree is printed as a sequence of pieces: the tokens of the tree, and the white space
between them. The text is the concatenation of their spellings, and its tokens can be read off the
pieces, so what a printed text says is known before it is a text.

## Main definitions

* `Piece`, `Piece.render` — pieces and their text
* `Printable` — what is printed in pieces
-/

namespace Stubwright.Source

/-- How a token is written. -/
def Token.spelling : Token → String
  | word text => text
  | integer n => toString n
  | quoted value => Text.quote value
  | symbol s => s.text

/-- A piece of printed text: a token, a `long` integer, a space, a line end, or one step of
indentation. -/
inductive Piece where
  | token (token : Token)
  | long (magnitude : Nat)
  | space
  | newline
  | indent
deriving DecidableEq, Repr

namespace Piece

/-- How a piece is written. -/
def spelling : Piece → String
  | token t => t.spelling
  | long n => toString n ++ "L"
  | space => " "
  | newline => "\n"
  | indent => "    "

/-- The token that a piece reads back as; white space reads back as nothing. -/
def token? : Piece → Option Token
  | token t => some t
  | long n => some (.integer n)
  | space | newline | indent => none

/-- A word. -/
def word (text : String) : Piece := .token (.word text)

/-- A symbol. -/
def symbol (s : Symbol) : Piece := .token (.symbol s)

/-- The text of a sequence of pieces. -/
def render (pieces : List Piece) : String := String.join (pieces.map spelling)

/-- The tokens of a sequence of pieces. -/
def tokens (pieces : List Piece) : List Token := pieces.filterMap token?

/-- Sequences of pieces with a separator between them. -/
def separated (separator : List Piece) : List (List Piece) → List Piece
  | [] => []
  | [last] => last
  | first :: second :: rest => first ++ separator ++ separated separator (second :: rest)

/-- A comma and a space. -/
def comma : List Piece := [symbol .comma, space]

/-- Pieces between parentheses. -/
def parenthesized (pieces : List Piece) : List Piece :=
  symbol .leftParen :: pieces ++ [symbol .rightParen]

/-- Some steps of indentation. -/
def indentation (depth : Nat) : List Piece := List.replicate depth indent

@[simp] theorem render_nil : render [] = "" := rfl

@[simp] theorem toList_render (pieces : List Piece) :
    (render pieces).toList = pieces.flatMap fun piece => piece.spelling.toList := by
  simp [render, List.flatMap_map]

@[simp] theorem tokens_append (xs ys : List Piece) : tokens (xs ++ ys) = tokens xs ++ tokens ys :=
  List.filterMap_append

end Piece

/-- What is printed in pieces. -/
class Printable (α : Type) where
  pieces : α → List Piece

export Printable (pieces)

/-- The canonical text of a part of a syntax tree. -/
def canonical {α : Type} [Printable α] (a : α) : String := Piece.render (pieces a)

end Stubwright.Source
