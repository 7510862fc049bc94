import Stubwright.Source.SyntaxError

/-!
# The lexer

`Front.of` reads what stands at the front of a text: a blank or a comment, a token, or a fault. It
knows no positions, only how many bytes it read; `tokenize` goes through the text and puts the
positions in.

## Main definitions

* `Front` — what stands at the front of a text
* `textBody` — the inside of a quoted text, with its escapes decoded
* `tokenize` — the tokens of a text with their byte positions
-/

namespace Stubwright.Source

open Text

/-- What stands at the front of a text: something to skip or a token, with the number of bytes it
takes and the rest of the text; or a fault some bytes further on. -/
inductive Front where
  | skip (width : Nat) (rest : List Char)
  | token (token : Token) (width : Nat) (rest : List Char)
  | fault (cause : SyntaxFault) (offset : Nat)

/-- Integer tokens are smaller than this, as they fit into 64 bits. -/
def integerLimit : Nat := 0x10000000000000000

/-- The digits at the front and the letter `L` that may follow them. -/
def Front.number (cs : List Char) : Front :=
  let digits := cs.takeWhile Char.isDigit
  let rest := cs.dropWhile Char.isDigit
  let magnitude := Nat.ofDigitChars 10 digits 0
  if integerLimit ≤ magnitude then .fault (.integerTooLarge (String.ofList digits)) 0
  else match rest with
    | 'L' :: tail | 'l' :: tail => .token (.integer magnitude) (digits.length + 1) tail
    | _ => .token (.integer magnitude) digits.length rest

/-- The word at the front. -/
def Front.word (cs : List Char) : Front :=
  let text := cs.takeWhile isNamePart
  .token (.word (String.ofList text)) (utf8Width text) (cs.dropWhile isNamePart)

/-- The character that a letter after a backslash stands for. -/
def escapedChar? : Char → Option Char
  | '"' => some '"'
  | '\'' => some '\''
  | '\\' => some '\\'
  | 'n' => some '\n'
  | 't' => some '\t'
  | 'r' => some '\r'
  | 'b' => some '\x08'
  | 'f' => some '\x0c'
  | '0' => some '\x00'
  | _ => none

/-- The character that four hexadecimal digits stand for. -/
def unicodeEscape? (digits : List Char) : Option Char :=
  if digits.all isHexDigit then
    charOfCode? (digits.foldl (fun n c => 16 * n + hexDigitValue c) 0)
  else none

/-- The inside of a quoted text after its opening mark: the characters read so far in reverse, the
bytes read so far, and what follows. The answer is the value, the bytes of the whole quoted text,
and the rest after the closing mark; or a fault and its offset. -/
def textBody (read : List Char) (offset : Nat) :
    List Char → Except (SyntaxFault × Nat) (List Char × Nat × List Char)
  | [] => .error (.unclosedText, 0)
  | c :: rest =>
    if c = '"' then .ok (read.reverse, offset + 1, rest)
    else if c = '\n' then .error (.newlineInText, offset)
    else if c = '\\' then
      match rest with
      | [] => .error (.unfinishedEscape, offset)
      | letter :: tail =>
        if letter = 'u' then
          match tail with
          | d₁ :: d₂ :: d₃ :: d₄ :: after =>
            match unicodeEscape? [d₁, d₂, d₃, d₄] with
            | some value => textBody (value :: read) (offset + 6) after
            | none => .error (.badUnicodeEscape, offset + 1)
          | _ => .error (.badUnicodeEscape, offset + 1)
        else
          match escapedChar? letter with
          | some value => textBody (value :: read) (offset + 2) tail
          | none => .error (.unknownEscape letter, offset + 1)
    else textBody (c :: read) (offset + c.utf8Size) rest

/-- The quoted text whose opening mark was read. -/
def Front.quoted (rest : List Char) : Front :=
  match textBody [] 1 rest with
  | .ok (value, width, tail) => .token (.quoted (String.ofList value)) width tail
  | .error (cause, offset) => .fault cause offset

/-- The number of bytes up to the end of a block comment, and what follows. A comment ends at a
slash with a star before it. -/
def commentBody (last : Char) (width : Nat) : List Char → Option (Nat × List Char)
  | [] => none
  | c :: rest =>
    if last = '*' ∧ c = '/' then some (width + 1, rest)
    else commentBody c (width + c.utf8Size) rest

/-- The comment whose first slash was read. -/
def Front.comment : List Char → Front
  | '/' :: rest =>
    let text := rest.takeWhile (· ≠ '\n')
    match rest.dropWhile (· ≠ '\n') with
    | [] => .skip (2 + utf8Width text) []
    | _ :: tail => .skip (3 + utf8Width text) tail
  | '*' :: rest =>
    match commentBody '\x00' 2 rest with
    | some (width, tail) => .skip width tail
    | none => .fault .unclosedComment 0
  | _ => .fault (.strayCharacter '/') 0

/-- A symbol of two equal characters, the first of which was read. -/
def Front.doubled (c : Char) (symbol : Symbol) : List Char → Front
  | d :: tail =>
    if d = c then .token (.symbol symbol) 2 tail else .fault (.strayCharacter c) 0
  | [] => .fault (.strayCharacter c) 0

/-- A symbol that a following equals sign makes another one. -/
def Front.beforeEquals (alone withEquals : Symbol) : List Char → Front
  | '=' :: tail => .token (.symbol withEquals) 2 tail
  | rest => .token (.symbol alone) 1 rest

/-- What stands at the front of the text `c :: rest`. -/
def Front.of (c : Char) (rest : List Char) : Front :=
  if isBlank c then .skip c.utf8Size rest
  else if c.isDigit then Front.number (c :: rest)
  else if c = '"' then Front.quoted rest
  else if c = '/' then Front.comment rest
  else if c = '&' then Front.doubled c .andAnd rest
  else if c = '|' then Front.doubled c .orOr rest
  else if c = '=' then Front.beforeEquals .assign .equal rest
  else if c = '!' then Front.beforeEquals .bang .notEqual rest
  else if isNameStart c then Front.word (c :: rest)
  else match Symbol.ofChar? c with
    | some symbol => .token (.symbol symbol) 1 rest
    | none => .fault (.strayCharacter c) 0

/-- The tokens of a text that begins at byte `pos`, after those already read, which are given in
reverse. Every front takes at least one character, so as many rounds as there are characters are
enough. -/
def tokensFrom (read : List PlacedToken) (pos : Nat) :
    Nat → List Char → Except SyntaxError (List PlacedToken)
  | 0, _ | _ + 1, [] => .ok read.reverse
  | rounds + 1, c :: rest =>
    match Front.of c rest with
    | .skip width tail => tokensFrom read (pos + width) rounds tail
    | .token token width tail => tokensFrom (⟨token, pos⟩ :: read) (pos + width) rounds tail
    | .fault cause offset => .error ⟨cause, pos + offset⟩

/-- The tokens of a text with their byte positions. -/
def tokenize (text : String) : Except SyntaxError (List PlacedToken) :=
  let cs := text.toList
  tokensFrom [] 0 cs.length cs

end Stubwright.Source
