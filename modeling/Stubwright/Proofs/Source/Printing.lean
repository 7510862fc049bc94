import Stubwright.Proofs.Source.Lexing
import Stubwright.Proofs.Source.Parsing
import Stubwright.Source.Printer

/-!
# What printed text says

Everything printed here is read back as the tokens of its pieces: names and types print pieces that
may stand next to each other, and their tokens follow the shape of the tree.

## Main definitions

* `Name.tokens`, `RefType.tokens`, … — the tokens of the canonical text

## Main results

* `spaced_append`, `spaced_separated` — spacing of longer sequences from that of their parts
* `RefType.spaced_pieces` — a type is printed in spaced pieces
-/

namespace Stubwright.Source

open Piece

/-! ## Tokens of pieces -/

namespace Piece

variable {α : Type} (ps : List Piece)

@[simp] theorem tokens_nil : tokens [] = [] := rfl

@[simp] theorem tokens_word (text : String) :
    tokens (word text :: ps) = .word text :: tokens ps := rfl

@[simp] theorem tokens_symbol (s : Symbol) :
    tokens (symbol s :: ps) = .symbol s :: tokens ps := rfl

@[simp] theorem tokens_token (t : Token) : tokens (token t :: ps) = t :: tokens ps := rfl

@[simp] theorem tokens_long (n : Nat) : tokens (long n :: ps) = .integer n :: tokens ps := rfl

@[simp] theorem tokens_space : tokens (space :: ps) = tokens ps := rfl

@[simp] theorem tokens_newline : tokens (newline :: ps) = tokens ps := rfl

@[simp] theorem tokens_indent : tokens (indent :: ps) = tokens ps := rfl

@[simp] theorem tokens_indentation (depth : Nat) : tokens (indentation depth) = [] := by
  induction depth with
  | zero => rfl
  | succ depth ih => simpa [indentation, List.replicate_succ] using ih

@[simp] theorem tokens_parenthesized :
    tokens (parenthesized ps) =
      .symbol .leftParen :: (tokens ps ++ [.symbol .rightParen]) := by
  simp [parenthesized]

@[simp] theorem tokens_flatMap (xs : List α) (f : α → List Piece) :
    tokens (xs.flatMap f) = xs.flatMap fun x => tokens (f x) := by
  induction xs with
  | nil => rfl
  | cons x xs ih => simp [ih]

/-- Behind the first part, each part has a separator in front of it. -/
theorem separated_cons (separator first : List Piece) (rest : List (List Piece)) :
    separated separator (first :: rest) = first ++ rest.flatMap fun ps => separator ++ ps := by
  induction rest generalizing first with
  | nil => simp [separated]
  | cons second rest ih => simp [separated, ih]

@[simp] theorem tokens_separated_comma (xs : List α) (f : α → List Piece) :
    tokens (separated comma (xs.map f)) = Parser.commaTokens (fun x => tokens (f x)) xs := by
  cases xs with
  | nil => rfl
  | cons x xs => simp [separated_cons, List.flatMap_map, comma]

end Piece

/-! ## Spacing -/

namespace Piece

@[simp] theorem isReadable_symbol (s : Symbol) : (symbol s).isReadable := rfl

@[simp] theorem isReadable_quoted (value : String) : (token (.quoted value)).isReadable := rfl

@[simp] theorem isReadable_integer (n : Nat) :
    (token (.integer n)).isReadable ↔ n < integerLimit := by
  simp [isReadable]

@[simp] theorem isReadable_long (n : Nat) : (long n).isReadable ↔ n < integerLimit := by
  simp [isReadable]

@[simp] theorem isReadable_space : space.isReadable := by decide

@[simp] theorem isReadable_newline : newline.isReadable := by decide

@[simp] theorem isReadable_indent : indent.isReadable := by decide

@[simp] theorem isOpen_symbol (s : Symbol) :
    (symbol s).isOpen ↔ s ≠ .assign ∧ s ≠ .bang := by
  cases s <;> simp [symbol, isOpen]

@[simp] theorem isOpen_space : space.isOpen := by decide

@[simp] theorem isOpen_newline : newline.isOpen := by decide

@[simp] theorem isOpen_indent : indent.isOpen := by decide

@[simp] theorem isClosed_symbol (s : Symbol) :
    (symbol s).isClosed ↔ s ≠ .assign ∧ s ≠ .equal := by
  cases s <;> simp [symbol, isClosed]

@[simp] theorem isClosed_space : space.isClosed := by decide

@[simp] theorem isClosed_newline : newline.isClosed := by decide

@[simp] theorem isClosed_indent : indent.isClosed := by decide

end Piece

@[simp] theorem spaced_nil : Spaced [] := by simp [Spaced]

@[simp] theorem spaced_singleton {p : Piece} : Spaced [p] ↔ p.isReadable := by simp [Spaced]

/-- Spaced pieces may follow others that end openly, and they may follow all others when they begin
with a closed piece. -/
theorem spaced_append {ps qs : List Piece}
    (h : (∀ p ∈ ps.getLast?, p.isOpen) ∨ ∀ q ∈ qs.head?, q.isClosed) :
    Spaced (ps ++ qs) ↔ Spaced ps ∧ Spaced qs := by
  have hbetween : ∀ p ∈ ps.getLast?, ∀ q ∈ qs.head?, p.MayPrecede q := by
    intro p hp q hq
    rcases h with hopen | hclosed
    · exact mayPrecede_of_isOpen (hopen p hp) q
    · exact mayPrecede_of_isClosed (hclosed q hq) p
  simp only [Spaced, List.isChain_append, List.mem_append]
  constructor
  · rintro ⟨⟨hps, hqs, -⟩, hreadable⟩
    exact ⟨⟨hps, fun p hp => hreadable p (.inl hp)⟩, hqs, fun p hp => hreadable p (.inr hp)⟩
  · rintro ⟨⟨hps, hp⟩, hqs, hq⟩
    exact ⟨⟨hps, hqs, hbetween⟩, fun p hmem => hmem.elim (hp p) (hq p)⟩

@[simp] theorem spaced_append_cons {ps qs : List Piece} {q : Piece} (h : q.isClosed) :
    Spaced (ps ++ q :: qs) ↔ Spaced ps ∧ Spaced (q :: qs) :=
  spaced_append (.inr (by simpa using h))

@[simp] theorem spaced_cons {p : Piece} {ps : List Piece} (h : p.isOpen) :
    Spaced (p :: ps) ↔ p.isReadable ∧ Spaced ps := by
  rw [← spaced_singleton]
  exact @spaced_append [p] ps (.inl (by simpa using h))

@[simp] theorem spaced_cons_cons {p q : Piece} {qs : List Piece} (h : q.isClosed) :
    Spaced (p :: q :: qs) ↔ p.isReadable ∧ Spaced (q :: qs) := by
  rw [← spaced_singleton]
  exact @spaced_append [p] (q :: qs) (.inr (by simpa using h))

@[simp] theorem spaced_indentation_append {depth : Nat} {ps : List Piece} :
    Spaced (indentation depth ++ ps) ↔ Spaced ps := by
  induction depth with
  | zero => rfl
  | succ depth ih =>
    have hsucc : indentation (depth + 1) = indent :: indentation depth := rfl
    rw [hsucc, List.cons_append, spaced_cons rfl, ih]
    simp [isReadable]

/-- Sequences that end openly may be strung together in front of anything. -/
theorem spaced_flatMap_append {α : Type} {xs : List α} {f : α → List Piece} {ps : List Piece}
    (h : ∀ x, ∀ p ∈ (f x).getLast?, p.isOpen) :
    Spaced (xs.flatMap f ++ ps) ↔ (∀ x ∈ xs, Spaced (f x)) ∧ Spaced ps := by
  induction xs with
  | nil => simp
  | cons x xs ih => simp [spaced_append (.inl (h x)), ih, and_assoc]

/-- Sequences with separators between them are spaced when each of them is. -/
theorem spaced_separated {α : Type} {xs : List α} {f : α → List Piece} {separator : List Piece}
    (hne : separator ≠ []) (hspaced : Spaced separator)
    (hclosed : ∀ p ∈ separator.head?, p.isClosed) (hopen : ∀ p ∈ separator.getLast?, p.isOpen)
    (h : ∀ x ∈ xs, Spaced (f x)) : Spaced (separated separator (xs.map f)) := by
  -- A separator ends what is in front of it and lets anything stand behind, so only the parts
  -- matter.
  have hmore : ∀ xs : List α, (∀ x ∈ xs, Spaced (f x)) →
      Spaced ((xs.map f).flatMap fun ps => separator ++ ps) := by
    intro xs hxs
    induction xs with
    | nil => simp
    | cons x xs ih =>
      have hhead : ∀ p ∈ ((xs.map f).flatMap fun ps => separator ++ ps).head?, p.isClosed := by
        cases xs with
        | nil => simp
        | cons y ys =>
          simpa [List.head?_append_of_ne_nil _ hne] using hclosed
      rw [List.map_cons, List.flatMap_cons, spaced_append (.inr hhead),
        spaced_append (.inl hopen)]
      exact ⟨⟨hspaced, hxs x (by simp)⟩, ih fun y hy => hxs y (by simp [hy])⟩
  cases xs with
  | nil => exact spaced_nil
  | cons x xs =>
    have hhead : ∀ p ∈ ((xs.map f).flatMap fun ps => separator ++ ps).head?, p.isClosed := by
      cases xs with
      | nil => simp
      | cons y ys => simpa [List.head?_append_of_ne_nil _ hne] using hclosed
    rw [List.map_cons, separated_cons, spaced_append (.inr hhead)]
    exact ⟨h x (by simp), hmore xs fun y hy => h y (by simp [hy])⟩

/-! ## Names -/

/-- The token of a name. -/
def Name.token (name : Name) : Token := .word name.text

@[simp] theorem Name.tokens_pieces (name : Name) : Piece.tokens name.pieces = [name.token] := rfl

@[simp] theorem Name.spaced_pieces (name : Name) : Spaced name.pieces := by
  simpa [Name.pieces, word, isReadable] using name.isName.1

namespace QualifiedName

/-- The tokens of a qualified name. -/
def tokens (name : QualifiedName) : List Token := Piece.tokens name.pieces

/-- A qualified name is a first segment and others. -/
theorem exists_ofSegments (name : QualifiedName) : ∃ first rest, name = ofSegments first rest := by
  cases h : name.segments with
  | nil => simp [segments] at h
  | cons first rest => exact ⟨first, rest, eq_of_segments_eq (by simp [h])⟩

@[simp] theorem tokens_ofSegments (first : Name) (rest : List Name) :
    (ofSegments first rest).tokens =
      first.token :: rest.flatMap fun n => [.symbol .dot, n.token] := by
  simp [tokens, pieces, separated_cons, List.flatMap_map]

@[simp] theorem tokens_simple (name : Name) : (simple name).tokens = [name.token] :=
  tokens_ofSegments name []

@[simp] theorem spaced_pieces (name : QualifiedName) : Spaced name.pieces :=
  spaced_separated (by simp) (by simp) (by simp) (by simp) fun n _ => n.spaced_pieces

end QualifiedName

/-! ## Types -/

namespace PrimitiveType

@[simp] theorem isReadable_keyword (p : PrimitiveType) : (word p.keyword).isReadable := by
  cases p <;> decide

end PrimitiveType

/-- The tokens of a reference type. -/
def RefType.tokens (type : RefType) : List Token := Piece.tokens type.pieces

/-- The tokens of a type argument. -/
def TypeArg.tokens (arg : TypeArg) : List Token := Piece.tokens arg.pieces

/-- The tokens of a class type. -/
def ClassType.tokens (type : ClassType) : List Token := Piece.tokens type.pieces

/-- The tokens of a type. -/
def Ty.tokens (type : Ty) : List Token := Piece.tokens type.pieces

theorem TypeArg.listPieces_eq (args : List TypeArg) :
    TypeArg.listPieces args = separated comma (args.map TypeArg.pieces) := by
  induction args with
  | nil => rfl
  | cons first rest ih =>
    cases rest with
    | nil => rfl
    | cons second rest => simp [TypeArg.listPieces, separated, ih]

/-- A class is written as its name, with arguments in angle brackets if there are some. -/
theorem RefType.tokens_named (name : QualifiedName) (args : List TypeArg) :
    (RefType.named name args).tokens =
      match args with
      | [] => name.tokens
      | _ :: _ => name.tokens ++ .symbol .less ::
          (Parser.commaTokens TypeArg.tokens args ++ [.symbol .greater]) := by
  cases args with
  | nil => simp [RefType.tokens, RefType.pieces, QualifiedName.tokens]
  | cons arg rest =>
    have hpieces : (RefType.named name (arg :: rest)).pieces = name.pieces ++ symbol .less ::
        (separated comma ((arg :: rest).map TypeArg.pieces) ++ [symbol .greater]) := by
      simp [RefType.pieces, TypeArg.listPieces_eq]
    rw [RefType.tokens, hpieces, tokens_append, tokens_symbol, tokens_append,
      tokens_separated_comma]
    rfl

@[simp] theorem RefType.tokens_primitiveArray (element : PrimitiveType) :
    (RefType.primitiveArray element).tokens =
      [.word element.keyword, .symbol .leftBracket, .symbol .rightBracket] := by
  simp [RefType.tokens, RefType.pieces]

@[simp] theorem RefType.tokens_array (element : RefType) :
    (RefType.array element).tokens =
      element.tokens ++ [.symbol .leftBracket, .symbol .rightBracket] := by
  simp [RefType.tokens, RefType.pieces]

@[simp] theorem TypeArg.tokens_exactly (type : RefType) :
    (TypeArg.exactly type).tokens = type.tokens := by
  simp [TypeArg.tokens, TypeArg.pieces, RefType.tokens]

@[simp] theorem TypeArg.tokens_any : TypeArg.any.tokens = [.symbol .question] := by
  simp [TypeArg.tokens, TypeArg.pieces]

@[simp] theorem TypeArg.tokens_subtypesOf (bound : RefType) :
    (TypeArg.subtypesOf bound).tokens =
      .symbol .question :: .word "extends" :: bound.tokens := by
  simp [TypeArg.tokens, TypeArg.pieces, RefType.tokens]

@[simp] theorem TypeArg.tokens_supertypesOf (bound : RefType) :
    (TypeArg.supertypesOf bound).tokens =
      .symbol .question :: .word "super" :: bound.tokens := by
  simp [TypeArg.tokens, TypeArg.pieces, RefType.tokens]

@[simp] theorem Ty.tokens_void : Ty.void.tokens = [.word "void"] := by
  simp [Ty.tokens, Ty.pieces]

@[simp] theorem Ty.tokens_primitive (type : PrimitiveType) :
    (Ty.primitive type).tokens = [.word type.keyword] := by
  simp [Ty.tokens, Ty.pieces]

@[simp] theorem Ty.tokens_reference (type : RefType) :
    (Ty.reference type).tokens = type.tokens := by
  simp [Ty.tokens, Ty.pieces, RefType.tokens]

mutual

theorem RefType.spaced_pieces : (type : RefType) → Spaced type.pieces
  | .named name [] => by simp [RefType.pieces]
  | .named name (arg :: rest) => by
    have hargs := TypeArg.spaced_listPieces (arg :: rest)
    simp [RefType.pieces, hargs]
  | .primitiveArray element => by simp [RefType.pieces]
  | .array element => by
    have helement := element.spaced_pieces
    simp [RefType.pieces, helement]

theorem TypeArg.spaced_pieces : (arg : TypeArg) → Spaced arg.pieces
  | .exactly type => type.spaced_pieces
  | .any => by simp [TypeArg.pieces]
  | .subtypesOf bound => by
    have hbound := bound.spaced_pieces
    simp +decide [TypeArg.pieces, hbound]
  | .supertypesOf bound => by
    have hbound := bound.spaced_pieces
    simp +decide [TypeArg.pieces, hbound]

theorem TypeArg.spaced_listPieces : (args : List TypeArg) → Spaced (TypeArg.listPieces args)
  | [] => by simp [TypeArg.listPieces]
  | [last] => last.spaced_pieces
  | first :: second :: rest => by
    have hfirst := first.spaced_pieces
    have hrest := TypeArg.spaced_listPieces (second :: rest)
    simp [TypeArg.listPieces, comma, hfirst, hrest]

end

/-- The pieces of a class or interface type keep its tokens apart. -/
theorem ClassType.spaced_pieces (type : ClassType) : Spaced type.pieces := RefType.spaced_pieces _

/-- The pieces of a type keep its tokens apart. -/
theorem Ty.spaced_pieces (type : Ty) : Spaced type.pieces := by
  cases type with
  | void => simp +decide [Ty.pieces]
  | primitive type => simp [Ty.pieces]
  | reference type => exact type.spaced_pieces

end Stubwright.Source
