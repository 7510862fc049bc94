import Stubwright.Proofs.Source.Reading

/-!
# The canonical text of an expression

The printed tokens of an expression are one of its spellings, unless a minus sign strays: printed
right in front of an integer that only begins its operand, it is read as the sign of that integer.

## Main definitions

* `Expr.tokens`, `Expr.tokensAt` — the printed tokens, alone and in a place that asks for a level
* `Expr.nesting` — how deep the canonical text nests
* `Expr.strayMinuses` — the number of minus signs that are read as the sign of an integer
* `Expr.isReadable` — whether an expression has a spelling at all

## Main results

* `Expr.spaced_pieces` — an expression is printed in spaced pieces
* `Expr.spells_tokens` — without stray minus signs, the printed tokens spell the expression
-/

namespace Stubwright.Source

open Piece Text

/-! ## Printed tokens -/

namespace Expr

/-- The tokens of the canonical text. -/
def tokens (e : Expr) : List Token := Piece.tokens e.pieces

/-- The tokens where a level is asked for: in parentheses when the expression binds looser. -/
def tokensAt (least : Nat) (e : Expr) : List Token :=
  Piece.tokens (enclose e.precedence least e.pieces)

/-- The tokens of arguments in parentheses. -/
def listTokens (args : List Expr) : List Token :=
  .symbol .leftParen :: (Parser.commaTokens tokens args ++ [.symbol .rightParen])

/-- Whether this is an integer literal without a sign. -/
def isNatural : Expr → Bool
  | literal (.integer n) => 0 ≤ n.toInt
  | _ => false

/-- An expression that binds too loosely for its place stands in parentheses. -/
theorem tokensAt_eq (least : Nat) (e : Expr) :
    e.tokensAt least =
      if e.precedence < least then .symbol .leftParen :: (e.tokens ++ [.symbol .rightParen])
      else e.tokens := by
  unfold tokensAt enclose
  split <;> simp [tokens]

private theorem listPieces_eq (args : List Expr) :
    listPieces args = separated comma (args.map pieces) := by
  induction args with
  | nil => rfl
  | cons first rest ih =>
    cases rest with
    | nil => rfl
    | cons second rest => simp [listPieces, separated, ih]

@[simp] theorem tokens_listPieces (args : List Expr) :
    Piece.tokens (listPieces args) = Parser.commaTokens tokens args := by
  rw [listPieces_eq, tokens_separated_comma]
  rfl

theorem tokens_literal (value : Literal) : (literal value).tokens = Piece.tokens value.pieces := by
  rw [tokens, pieces]

@[simp] theorem tokens_name (n : Name) : (name n).tokens = [n.token] := by
  simp [tokens, pieces]

@[simp] theorem tokens_self : self.tokens = [.word "this"] := by
  simp [tokens, pieces]

@[simp] theorem tokens_field (target : Expr) (n : Name) :
    (field target n).tokens = target.tokensAt 7 ++ [.symbol .dot, n.token] := by
  simp [tokens, pieces, tokensAt]

@[simp] theorem tokens_call (n : Name) (args : List Expr) :
    (call n args).tokens = n.token :: listTokens args := by
  simp [tokens, pieces, listTokens]

@[simp] theorem tokens_callOn (target : Expr) (n : Name) (args : List Expr) :
    (callOn target n args).tokens =
      target.tokensAt 7 ++ .symbol .dot :: n.token :: listTokens args := by
  simp [tokens, pieces, tokensAt, listTokens]

@[simp] theorem tokens_create (type : ClassType) (args : List Expr) :
    (create type args).tokens = .word "new" :: (type.tokens ++ listTokens args) := by
  simp [tokens, pieces, listTokens, ClassType.tokens]

@[simp] theorem tokens_classLiteral (type : Ty) :
    (classLiteral type).tokens = type.erasure.tokens ++ [.symbol .dot, .word "class"] := by
  simp [tokens, pieces, Ty.tokens]

@[simp] theorem tokens_not (operand : Expr) :
    (unary .not operand).tokens = .symbol .bang :: operand.tokensAt 6 := by
  simp [tokens, pieces, tokensAt]

/-- After a minus sign stands its operand, an integer without a sign in parentheses. A space may
come first. -/
theorem exists_pieces_neg (operand : Expr) :
    ∃ gap, (gap = [] ∨ gap = [space]) ∧ (unary .neg operand).pieces = symbol .minus :: (gap ++
      if operand.isNatural then parenthesized operand.pieces
      else enclose operand.precedence 6 operand.pieces) := by
  cases operand with
  | unary op e =>
    cases op with
    | neg => exact ⟨[space], .inr rfl, by simp [pieces, enclose, precedence, isNatural]⟩
    | not => exact ⟨[], .inl rfl, by simp [pieces, isNatural]⟩
  | literal value =>
    cases value with
    | integer n =>
      by_cases hn : n.toInt < 0
      · have hnatural : ¬ 0 ≤ n.toInt := Int.not_le.2 hn
        refine ⟨[space], .inr rfl, ?_⟩
        simp [pieces, enclose, precedence, isNatural, Literal.pieces, hn, hnatural]
      · have hnatural : 0 ≤ n.toInt := Int.not_lt.1 hn
        exact ⟨[], .inl rfl, by simp [pieces, isNatural, Literal.pieces, hn, hnatural]⟩
    | _ => exact ⟨[], .inl rfl, by simp [pieces, isNatural]⟩
  | _ => exact ⟨[], .inl rfl, by simp [pieces, isNatural]⟩

/-- Behind a minus sign a natural number stands in parentheses. -/
theorem tokens_neg (operand : Expr) :
    (unary .neg operand).tokens = .symbol .minus ::
      if operand.isNatural then .symbol .leftParen :: (operand.tokens ++ [.symbol .rightParen])
      else operand.tokensAt 6 := by
  obtain ⟨gap, hgap, hpieces⟩ := exists_pieces_neg operand
  have hgap' : Piece.tokens gap = [] := by rcases hgap with rfl | rfl <;> rfl
  rw [tokens, hpieces, tokens_symbol, tokens_append, hgap', List.nil_append]
  split
  · rw [tokens_parenthesized, tokens]
  · rw [tokensAt]

@[simp] theorem tokens_binary (op : BinaryOp) (left right : Expr) :
    (binary op left right).tokens = left.tokensAt op.precedence ++
      .symbol op.symbol :: right.tokensAt (op.precedence + 1) := by
  simp [tokens, pieces, tokensAt]

/-- No expression binds more loosely than at the outermost level. -/
theorem one_le_precedence (e : Expr) : 1 ≤ e.precedence := by
  cases e with
  | binary op => cases op <;> simp [precedence, BinaryOp.precedence]
  | literal value =>
    cases value with
    | integer n =>
      rw [precedence]
      split <;> decide
    | _ => simp [precedence]
  | _ => simp [precedence]

@[simp] theorem tokens_assign (target value : Expr) :
    (assign target value).tokens = target.tokensAt 7 ++ .symbol .assign :: value.tokens := by
  have hvalue : ¬ value.precedence < 1 := Nat.not_lt.2 value.one_le_precedence
  simp [tokens, pieces, tokensAt, enclose, hvalue]

end Expr

/-! ## Spacing -/

/-- Pieces that do not begin with an equals sign. Only these may stand behind an exclamation mark,
which an equals sign would turn into another symbol. -/
def StartsPlain (ps : List Piece) : Prop :=
  ∀ p ∈ ps.head?, p ≠ symbol .assign ∧ p ≠ symbol .equal

private theorem StartsPlain.append {ps qs : List Piece} (hps : StartsPlain ps)
    (hqs : StartsPlain qs) :
    StartsPlain (ps ++ qs) := by
  cases ps with
  | nil => exact hqs
  | cons p ps => exact hps

private theorem startsPlain_word (text : String) (ps : List Piece) :
    StartsPlain (word text :: ps) := by
  simp [StartsPlain, word, symbol]

private theorem startsPlain_symbol {s : Symbol} (h : s ≠ .assign ∧ s ≠ .equal) (ps : List Piece) :
    StartsPlain (symbol s :: ps) := by
  simpa [StartsPlain, symbol] using h

private theorem QualifiedName.startsPlain_pieces (name : QualifiedName) :
    StartsPlain name.pieces := by
  obtain ⟨first, rest, rfl⟩ := name.exists_ofSegments
  rw [QualifiedName.pieces, segments_ofSegments, List.map_cons, separated_cons]
  exact startsPlain_word _ _

private theorem RefType.startsPlain_pieces : (type : RefType) → StartsPlain type.pieces
  | .named name args => by
    cases args with
    | nil => exact name.startsPlain_pieces
    | cons arg args =>
      exact (name.startsPlain_pieces.append (startsPlain_symbol (by decide) _)).append
        (startsPlain_symbol (by decide) _)
  | .primitiveArray _ => startsPlain_word _ _
  | .array element => element.startsPlain_pieces.append (startsPlain_symbol (by decide) _)

private theorem Ty.startsPlain_pieces (type : Ty) : StartsPlain type.pieces := by
  cases type with
  | void => exact startsPlain_word _ _
  | primitive _ => exact startsPlain_word _ _
  | reference type => exact type.startsPlain_pieces

private theorem startsPlain_enclose {own least : Nat} {ps : List Piece} (h : StartsPlain ps) :
    StartsPlain (enclose own least ps) := by
  unfold enclose
  split
  · exact startsPlain_symbol (by decide) _
  · exact h

private theorem Expr.startsPlain_pieces : (e : Expr) → StartsPlain e.pieces
  | .literal (.text _) => by simp [Expr.pieces, Literal.pieces, StartsPlain, symbol]
  | .literal (.integer n) => by
    rw [Expr.pieces, Literal.pieces, integerPieces]
    split
    · exact startsPlain_symbol (by decide) _
    · split <;> simp [StartsPlain, symbol]
  | .literal (.boolean _) => by rw [Expr.pieces]; exact startsPlain_word _ _
  | .literal .null => by rw [Expr.pieces]; exact startsPlain_word _ _
  | .name _ => by rw [Expr.pieces]; exact startsPlain_word _ _
  | .self => by rw [Expr.pieces]; exact startsPlain_word _ _
  | .field target _ => by
    rw [Expr.pieces]
    exact (startsPlain_enclose target.startsPlain_pieces).append
      (startsPlain_symbol (by decide) _)
  | .call _ _ => by rw [Expr.pieces]; exact startsPlain_word _ _
  | .callOn target _ _ => by
    rw [Expr.pieces]
    exact ((startsPlain_enclose target.startsPlain_pieces).append
      (startsPlain_symbol (by decide) _)).append (startsPlain_symbol (by decide) _)
  | .create _ _ => by rw [Expr.pieces]; exact startsPlain_word _ _
  | .classLiteral type => by
    rw [Expr.pieces]
    exact type.erasure.startsPlain_pieces.append (startsPlain_symbol (by decide) _)
  | .unary .not _ => by rw [Expr.pieces]; exact startsPlain_symbol (by decide) _
  | .unary .neg operand => by
    obtain ⟨gap, -, hpieces⟩ := Expr.exists_pieces_neg operand
    rw [hpieces]
    exact startsPlain_symbol (by decide) _
  | .binary _ left _ => by
    rw [Expr.pieces]
    exact (startsPlain_enclose left.startsPlain_pieces).append (by simp [StartsPlain, symbol])
  | .assign target _ => by
    rw [Expr.pieces]
    exact (startsPlain_enclose target.startsPlain_pieces).append (by simp [StartsPlain, symbol])

/-- A digit and what begins a name are no equals signs. -/
theorem head_ne_equals {p : Piece} (hp : p.isReadable)
    (h : p ≠ symbol .assign ∧ p ≠ symbol .equal) :
    ∀ c ∈ p.spelling.toList.head?, c ≠ '=' := by
  -- An integer begins with a digit, which is a part of a name, so one fact serves both.
  have hstart : ∀ c, isNamePart c → c ≠ '=' := by
    rintro c hc rfl
    revert hc
    decide
  have hnumber : ∀ (n : Nat) (suffix : List Char),
      ∀ c ∈ ((toString n).toList ++ suffix).head?, c ≠ '=' := by
    intro n suffix c hc
    have hdigits : (toString n).toList = Nat.toDigits 10 n := Nat.toList_repr
    rw [hdigits, List.head?_append_of_ne_nil _ Nat.toDigits_ne_nil] at hc
    exact hstart c (isNamePart_of_isDigit
      (Nat.isDigit_of_mem_toDigits (by decide) (by decide) (List.mem_of_mem_head? hc)))
  cases p with
  | token t =>
    cases t with
    | word text =>
      intro c hc
      have hname : isIdentifier text.toList := hp
      have hfirst : text.toList.head? = some c := hc
      cases hcs : text.toList with
      | nil => simp [hcs] at hfirst
      | cons d rest =>
        obtain rfl : d = c := by simpa [hcs] using hfirst
        rw [hcs, isIdentifier, Bool.and_eq_true] at hname
        exact hstart d (isNamePart_of_isNameStart hname.1)
    | integer n =>
      have hspelling : (token (.integer n)).spelling.toList = (toString n).toList ++ [] := by
        rw [List.append_nil]
        rfl
      rw [hspelling]
      exact hnumber n []
    | quoted value => simp [Piece.spelling, Token.spelling, Text.quote]
    | symbol s =>
      cases s <;> simp [Piece.spelling, Token.spelling, Symbol.text, symbol] at h ⊢
  | long n =>
    have hspelling : (long n).spelling.toList = (toString n).toList ++ ['L'] := by
      rw [Piece.spelling, String.toList_append]
      rfl
    rw [hspelling]
    exact hnumber n ['L']
  | _ => simp [Piece.spelling]

private theorem spaced_bang {ps : List Piece} (hps : Spaced ps) (h : StartsPlain ps) :
    Spaced (symbol .bang :: ps) := by
  refine ⟨List.isChain_cons.2 ⟨fun q hq c hc => ?_, hps.1⟩, ?_⟩
  · have hq' := hps.2 q (List.mem_of_mem_head? hq)
    simpa [symbol, endsAt] using head_ne_equals hq' (h q hq) c hc
  · simpa using hps.2

private theorem spaced_enclose {own least : Nat} {ps : List Piece} :
    Spaced (enclose own least ps) ↔ Spaced ps := by
  unfold enclose
  split <;> simp [parenthesized]

private theorem natAbs_lt_integerLimit (n : Int64) : n.toInt.natAbs < integerLimit := by
  have hlow := n.le_toInt
  have hhigh := n.toInt_lt
  unfold integerLimit
  omega

private theorem Literal.spaced_pieces (value : Literal) : Spaced value.pieces := by
  cases value with
  | text value => simp [Literal.pieces]
  | integer n =>
    have hn := natAbs_lt_integerLimit n
    simp only [Literal.pieces, integerPieces]
    split <;> split <;> simp [hn]
  | boolean value => cases value <;> simp +decide [Literal.pieces]
  | null => simp +decide [Literal.pieces]

mutual

/-- An expression is printed in spaced pieces. -/
theorem Expr.spaced_pieces : (e : Expr) → Spaced e.pieces
  | .literal value => by
    rw [Expr.pieces]
    exact value.spaced_pieces
  | .name n => by simp [Expr.pieces]
  | .self => by simp +decide [Expr.pieces]
  | .field target n => by
    have htarget := target.spaced_pieces
    simp [Expr.pieces, spaced_enclose, htarget]
  | .call n args => by
    have hargs := Expr.spaced_listPieces args
    simp [Expr.pieces, parenthesized, hargs]
  | .callOn target n args => by
    have htarget := target.spaced_pieces
    have hargs := Expr.spaced_listPieces args
    simp [Expr.pieces, parenthesized, spaced_enclose, htarget, hargs]
  | .create type args => by
    have htype := type.spaced_pieces
    have hargs := Expr.spaced_listPieces args
    simp +decide [Expr.pieces, parenthesized]
    simp [htype, hargs]
  | .classLiteral type => by
    have htype := type.erasure.spaced_pieces
    simp [Expr.pieces, htype]
    decide
  | .unary .not operand => by
    have hoperand := operand.spaced_pieces
    rw [Expr.pieces]
    exact spaced_bang (spaced_enclose.2 hoperand) (startsPlain_enclose operand.startsPlain_pieces)
  | .unary .neg operand => by
    have hoperand := operand.spaced_pieces
    obtain ⟨gap, hgap, hpieces⟩ := Expr.exists_pieces_neg operand
    have hinside : Spaced (if operand.isNatural then parenthesized operand.pieces
        else enclose operand.precedence 6 operand.pieces) := by
      split
      · simpa [parenthesized] using hoperand
      · exact spaced_enclose.2 hoperand
    rw [hpieces]
    rcases hgap with rfl | rfl <;> simp [hinside]
  | .binary op left right => by
    have hleft := left.spaced_pieces
    have hright := right.spaced_pieces
    have hop : op.symbol ≠ .assign ∧ op.symbol ≠ .bang := by cases op <;> decide
    simp [Expr.pieces, spaced_enclose, hleft, hright, hop]
  | .assign target value => by
    have htarget := target.spaced_pieces
    have hvalue := value.spaced_pieces
    simp [Expr.pieces, spaced_enclose, htarget, hvalue]

theorem Expr.spaced_listPieces : (args : List Expr) → Spaced (Expr.listPieces args)
  | [] => by simp [Expr.listPieces]
  | [last] => by
    rw [Expr.listPieces]
    exact last.spaced_pieces
  | first :: second :: rest => by
    have hfirst := first.spaced_pieces
    have hrest := Expr.spaced_listPieces (second :: rest)
    simp [Expr.listPieces, comma, hfirst, hrest]

end

end Stubwright.Source
