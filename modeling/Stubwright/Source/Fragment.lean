import Stubwright.Source.Lexer
import Stubwright.Source.Parser.Decl
import Stubwright.Step

/-!
# Fragments

Generated code is never spliced together from texts. A text becomes a part of a syntax tree here or
not at all, and a text that is refused is named together with the kind of part it was to be.

## Main definitions

* `Grammar` — a kind of fragment: what it is called, and how it is parsed
* `Grammar.parse` — reads a whole text as a fragment
* `Grammar.read` — the same as a step of generation, which is logged
-/

namespace Stubwright.Source

/-- A kind of fragment: how a log and an error message call it, and its parser. -/
structure Grammar (α : Type) where
  operation : String
  label : String
  parser : Parser α

/-- The byte position where `remaining` tokens were left of the tokens of a text of `size` bytes. -/
def positionOf (tokens : List PlacedToken) (size remaining : Nat) : Nat :=
  match tokens[tokens.length - remaining]? with
  | some placed => placed.pos
  | none => size

namespace Parser

variable {α : Type}

/-- Runs a parser and requires that it reads every token. -/
def complete (parser : Parser α) (ts : List Token) : Except ParseFailure α :=
  match parser ts with
  | .error failure => .error failure
  | .ok (value, []) => .ok value
  | .ok (_, next :: rest) => .error ⟨.expected "end of input" (some next), rest.length + 1⟩

/-- Reads a whole text. -/
def parseText (parser : Parser α) (text : String) : Except SyntaxError α :=
  match tokenize text with
  | .error error => .error error
  | .ok tokens =>
    match parser.complete (tokens.map PlacedToken.token) with
    | .ok value => .ok value
    | .error failure =>
      .error ⟨failure.fault, positionOf tokens text.utf8ByteSize failure.remaining⟩

end Parser

namespace Grammar

variable {α σ : Type}

/-- Reads a whole text as a fragment. -/
def parse (grammar : Grammar α) (text : String) : Except SyntaxError α :=
  grammar.parser.parseText text

/-- What is said of a text that is no such fragment. -/
def refusal (grammar : Grammar α) (text : String) (error : SyntaxError) : String :=
  s!"Unable to parse '{text}' to a {grammar.label}: {error.display}"

/-- What is noted of a text that is read, before anything is known of it. -/
def note (grammar : Grammar α) (text : String) : String := s!"{grammar.operation}: {text}"

/-- Reads a whole text as a fragment and logs that it did. -/
def read (grammar : Grammar α) (text : String) : Step σ α := do
  Step.debug (grammar.note text)
  match grammar.parse text with
  | .ok value => return value
  | .error error => Step.refuse (grammar.refusal text error)

/-- A file. -/
def compilationUnit : Grammar CompilationUnit :=
  ⟨"parse_compilation_unit", "compilation unit", Parser.compilationUnit⟩

/-- A simple name. -/
def name : Grammar Name := ⟨"parse_name", "simple name", Parser.name⟩

/-- A qualified name. -/
def qualifiedName : Grammar QualifiedName :=
  ⟨"parse_qualified_name", "qualified name", Parser.qualifiedName⟩

/-- A type. -/
def type : Grammar Ty := ⟨"parse_type", "type", Parser.outerType⟩

/-- A class or interface type. -/
def classType : Grammar ClassType :=
  ⟨"parse_class_type", "class or interface type", Parser.outerClassType⟩

/-- An expression. -/
def expression : Grammar Expr := ⟨"parse_expression", "expression", Parser.expr⟩

/-- A parameter. -/
def parameter : Grammar Parameter := ⟨"parse_parameter", "parameter", Parser.parameter⟩

/-- An import with its keywords and its semicolon. -/
def importDecl : Grammar Import := ⟨"parse_import", "import", Parser.importDecl⟩

/-- What an import names. -/
def rawImport : Grammar Import := ⟨"parse_raw_import", "raw import", Parser.importTarget false⟩

/-- What a static import names. -/
def rawStaticImport : Grammar Import :=
  ⟨"parse_raw_static_import", "raw static import", Parser.importTarget true⟩

end Grammar

end Stubwright.Source
