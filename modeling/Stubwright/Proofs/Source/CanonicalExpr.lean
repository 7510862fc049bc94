import Stubwright.Proofs.Source.Expressions

/-!
# The canonical text spells the expression

The printed tokens of an expression are one of its spellings, unless a minus sign strays: printed
right in front of an integer that only begins its operand, it is read as the sign of that integer.
No spelling has fewer parentheses and signs than the printed tokens, and where a minus sign strays
every spelling has more.

## Main definitions

* `Expr.nesting` — how deep the canonical text nests
* `Expr.strayMinuses` — the number of minus signs that are read as the sign of an integer
* `Expr.isReadable` — whether an expression has a spelling at all
* `weight` — the number of parentheses, minus signs and semicolons

## Main results

* `Expr.spells_tokens` — without stray minus signs, the printed tokens spell the expression
* `Spells.isReadable`, `Spells.weight_le` — what every spelling of an expression has
-/

namespace Stubwright.Source

open Source.Parser

/-! ## Nesting, signs and readability -/

/-- The level that parentheses add where they are needed. -/
def parenDepth (own least : Nat) : Nat := if own < least then 1 else 0

namespace Expr

/-- Whether the canonical text begins with an integer without a sign. -/
def beginsWithNatural : Expr → Bool
  | literal (.integer n) => 0 ≤ n.toInt
  | field target _ | callOn target _ _ => target.beginsWithNatural
  | _ => false

mutual

/-- How deep the canonical text nests. -/
def nesting : Expr → Nat
  | literal _ | name _ | self | classLiteral _ => 0
  | field target _ => target.nesting + parenDepth target.precedence 7
  | call _ args => argsNesting args
  | callOn target _ args =>
    max (target.nesting + parenDepth target.precedence 7) (argsNesting args)
  | create type args => max type.toRef.nesting (argsNesting args)
  | unary .not operand => operand.nesting + parenDepth operand.precedence 6 + 1
  | unary .neg operand =>
    operand.nesting + (if operand.isNatural then 1 else parenDepth operand.precedence 6) + 1
  | binary op left right =>
    max (left.nesting + parenDepth left.precedence op.precedence)
      (right.nesting + parenDepth right.precedence (op.precedence + 1))
  | assign target value =>
    max (target.nesting + parenDepth target.precedence 7) (value.nesting + 1)

/-- How deep arguments make the call around them nest. -/
def argsNesting : List Expr → Nat
  | [] => 0
  | arg :: rest => max (arg.nesting + 1) (argsNesting rest)

end

mutual

/-- The number of minus signs that stand right in front of an integer which is not their operand
but begins it. -/
def strayMinuses : Expr → Nat
  | literal _ | name _ | self | classLiteral _ => 0
  | field target _ => target.strayMinuses
  | call _ args => strayMinusesIn args
  | callOn target _ args => target.strayMinuses + strayMinusesIn args
  | create _ args => strayMinusesIn args
  | unary .not operand => operand.strayMinuses
  | unary .neg operand =>
    operand.strayMinuses + if operand.beginsWithNatural && !operand.isNatural then 1 else 0
  | binary _ left right => left.strayMinuses + right.strayMinuses
  | assign target value => target.strayMinuses + value.strayMinuses

/-- The number of stray minus signs in several expressions. -/
def strayMinusesIn : List Expr → Nat
  | [] => 0
  | arg :: rest => arg.strayMinuses + strayMinusesIn rest

end

end Expr

/-- Whether the class literal of a type can be written: that of a keyword type, and that of a class
without type arguments. -/
def Ty.hasClassLiteral : Ty → Bool
  | .reference (.named _ args) => args.isEmpty
  | type => type.isKeyword

namespace Expr

mutual

/-- Whether an expression has a spelling: only names and fields are assigned to, and every class
literal can be written. -/
def isReadable : Expr → Bool
  | literal _ | name _ | self => true
  | classLiteral type => type.hasClassLiteral
  | field target _ => target.isReadable
  | call _ args => areReadable args
  | callOn target _ args => target.isReadable && areReadable args
  | create _ args => areReadable args
  | unary _ operand => operand.isReadable
  | binary _ left right => left.isReadable && right.isReadable
  | assign target value => target.isAssignable && target.isReadable && value.isReadable

/-- Whether several expressions have a spelling. -/
def areReadable : List Expr → Bool
  | [] => true
  | arg :: rest => arg.isReadable && areReadable rest

end

/-- Arguments are readable when each of them is. -/
theorem areReadable_iff {args : List Expr} : areReadable args ↔ ∀ arg ∈ args, arg.isReadable := by
  induction args with
  | nil => simp [areReadable]
  | cons arg rest ih => simp [areReadable, ih]

/-- Arguments have no stray sign when none of them has one. -/
theorem strayMinusesIn_eq_zero {args : List Expr} :
    strayMinusesIn args = 0 ↔ ∀ arg ∈ args, arg.strayMinuses = 0 := by
  induction args with
  | nil => simp [strayMinusesIn]
  | cons arg rest ih => simp [strayMinusesIn, ih]

/-! ## Canonical spellings -/

/-- Where a level is asked for, parentheses make up for what the expression lacks. -/
theorem spells_tokensAt {e : Expr} {depth least : Nat} (h : Spells e.precedence depth e.tokens e)
    (hone : 1 ≤ least) (hseven : least ≤ 7) :
    Spells least (depth + parenDepth e.precedence least) (e.tokensAt least) e := by
  rw [tokensAt_eq]
  unfold parenDepth
  split
  · exact (Spells.paren (h.loosen_to le_rfl e.one_le_precedence)).loosen_to hone hseven
  · exact h.loosen_to hone (by omega)

private theorem tokens_integer (n : Int64) :
    (integer n).tokens = if n.toInt < 0 then [.symbol .minus, .integer n.toInt.natAbs]
      else [.integer n.toInt.natAbs] := by
  rw [integer, tokens_literal, Literal.pieces, integerPieces]
  split <;> split <;> rfl

private theorem spells_integer (n : Int64) :
    Spells (integer n).precedence 0 (integer n).tokens (integer n) := by
  have hlow := n.le_toInt
  have hhigh := n.toInt_lt
  rw [tokens_integer, integer, precedence]
  split
  · have hn : Int64.ofInt (-(n.toInt.natAbs : Int)) = n := by
      have habs : -(n.toInt.natAbs : Int) = n.toInt := by omega
      rw [habs, Int64.ofInt_toInt]
    have hspells := Spells.negative (n := n.toInt.natAbs) (by omega)
    rwa [hn] at hspells
  · have hn : Int64.ofNat n.toInt.natAbs = n := by
      have habs : (n.toInt.natAbs : Int) = n.toInt := by omega
      rw [← Int64.ofInt_eq_ofNat, habs, Int64.ofInt_toInt]
    have hspells := Spells.natural (n := n.toInt.natAbs) (by omega)
    rwa [hn] at hspells

private theorem spells_literal (value : Literal) :
    Spells (literal value).precedence 0 (literal value).tokens (literal value) := by
  cases value with
  | text value => exact .text value
  | integer n => exact spells_integer n
  | boolean value => exact .boolean value
  | null => exact .null

/-- A qualified name is spelled as names and fields, which a class literal turns back. -/
theorem exists_spells_name (q : QualifiedName) :
    ∃ target, target.qualifiedName? = some q ∧ Spells 7 0 q.tokens target := by
  obtain ⟨first, rest, rfl⟩ := q.exists_ofSegments
  induction rest using List.reverseRecOn with
  | nil => exact ⟨.name first, rfl, by simpa using Spells.name first⟩
  | append_singleton rest n ih =>
    obtain ⟨target, hname, htarget⟩ := ih
    refine ⟨.field target n, ?_, ?_⟩
    · rw [qualifiedName?, hname, Option.map_some]
      exact congrArg some (QualifiedName.eq_of_segments_eq (by simp))
    · have htokens : (QualifiedName.ofSegments first (rest ++ [n])).tokens =
          (QualifiedName.ofSegments first rest).tokens ++ [.symbol .dot, n.token] := by simp
      rw [htokens]
      exact .field htarget n

end Expr

private theorem RefType.erasure_of_isKeyword :
    (type : RefType) → type.isKeyword = true → type.erasure = type
  | .named .., h => by cases h
  | .primitiveArray _, _ => rfl
  | .array element, h => by rw [RefType.erasure, element.erasure_of_isKeyword h]

private theorem Ty.erasure_of_isKeyword {type : Ty} (h : type.isKeyword = true) :
    type.erasure = type := by
  cases type with
  | void => rfl
  | primitive _ => rfl
  | reference type => rw [Ty.erasure, type.erasure_of_isKeyword h]

private theorem Expr.tokens_erasure_plain (q : QualifiedName) :
    (Ty.ofClass (.plain q)).erasure.tokens = q.tokens := by
  simpa [Ty.ofClass, ClassType.toRef, Ty.erasure, RefType.erasure, ClassType.plain] using
    RefType.tokens_named q []

private theorem Expr.spells_classLiteral {type : Ty} (h : type.hasClassLiteral) :
    Spells 7 0 (classLiteral type).tokens (classLiteral type) := by
  rw [tokens_classLiteral]
  by_cases hkeyword : type.isKeyword
  · rw [Ty.erasure_of_isKeyword hkeyword]
    exact .keywordClass type hkeyword
  · obtain ⟨q, rfl⟩ : ∃ q, type = .ofClass (.plain q) := by
      cases type with
      | reference type =>
        cases type with
        | named q args =>
          obtain rfl : args = [] := by simpa [Ty.hasClassLiteral] using h
          exact ⟨q, rfl⟩
        | _ => exact absurd h hkeyword
      | _ => exact absurd rfl hkeyword
    obtain ⟨target, hname, htarget⟩ := exists_spells_name q
    rw [tokens_erasure_plain]
    exact .nameClass htarget hname

namespace Expr

private theorem head_tokensAt {e : Expr} {least n : Nat} {suffix : List Token}
    (hsuffix : suffix.head? ≠ some (.integer n))
    (h : (e.tokensAt least ++ suffix).head? = some (.integer n)) :
    least ≤ e.precedence ∧ e.tokens.head? = some (.integer n) := by
  rw [tokensAt_eq] at h
  by_cases hleast : e.precedence < least
  · simp [hleast] at h
  · rw [if_neg hleast, List.head?_append] at h
    refine ⟨Nat.not_lt.1 hleast, ?_⟩
    cases hhead : e.tokens.head? with
    | none =>
      rw [hhead, Option.none_or] at h
      exact absurd h hsuffix
    | some t => rwa [hhead, Option.some_or] at h

/-- Only the text of an integer without a sign, or of a chain that starts at one, begins with an
integer. -/
theorem beginsWithNatural_of_head {n : Nat} :
    (e : Expr) → 6 ≤ e.precedence → e.tokens.head? = some (.integer n) → e.beginsWithNatural
  | .literal (.integer m), _, h => by
    have hpieces := h
    rw [tokens_literal, Literal.pieces, integerPieces] at hpieces
    by_cases hm : m.toInt < 0
    · simp [hm] at hpieces
    · simpa [beginsWithNatural] using hm
  | .literal (.text _), _, h => by simp [tokens_literal, Literal.pieces] at h
  | .literal (.boolean _), _, h => by simp [tokens_literal, Literal.pieces] at h
  | .literal .null, _, h => by simp [tokens_literal, Literal.pieces] at h
  | .name _, _, h => by simp [Name.token] at h
  | .self, _, h => by simp at h
  | .field target _, _, h => by
    rw [tokens_field] at h
    -- A target in parentheses would begin with one, so the integer begins the target itself.
    obtain ⟨hseven, htarget⟩ := head_tokensAt (by simp) h
    exact target.beginsWithNatural_of_head (by omega) htarget
  | .call _ _, _, h => by simp [Name.token] at h
  | .callOn target _ _, _, h => by
    rw [tokens_callOn] at h
    obtain ⟨hseven, htarget⟩ := head_tokensAt (by simp) h
    exact target.beginsWithNatural_of_head (by omega) htarget
  | .create _ _, _, h => by simp at h
  | .classLiteral type, _, h => by
    rw [tokens_classLiteral] at h
    by_cases hvoid : type.erasure = .void
    · simp [hvoid] at h
    · obtain ⟨text, tail, htokens, -⟩ := Ty.exists_tokens hvoid
      simp [htokens] at h
  | .unary .not _, _, h => by simp at h
  | .unary .neg operand, _, h => by simp [tokens_neg] at h
  | .binary op _ _, hop, _ => by cases op <;> simp [precedence, BinaryOp.precedence] at hop
  | .assign _ _, hassign, _ => by simp [precedence] at hassign

/-- The parts of an argument list in its canonical text. -/
def toPart (arg : Expr) : Part := ⟨arg.nesting, arg.tokens, arg⟩

/-- Taken as parts, arguments nest as deep as they do in a call. -/
theorem nesting_toPart (args : List Expr) :
    Part.nesting (args.map toPart) = argsNesting args := by
  induction args with
  | nil => rfl
  | cons arg rest ih => simp [Part.nesting, argsNesting, ih, toPart]

/-- Taken as parts, arguments are written as they are in a call. -/
theorem list_toPart (args : List Expr) : Part.list (args.map toPart) = listTokens args := by
  cases args with
  | nil => rfl
  | cons arg rest => simp [Part.list, listTokens, List.flatMap_map, toPart]

/-- The expressions of the parts are the arguments. -/
theorem expr_toPart (args : List Expr) : (args.map toPart).map Part.expr = args := by
  simp [Function.comp_def, toPart]

/-- Behind a minus sign stands nothing that begins with an integer, unless the sign strays. -/
theorem head_ne_integer {operand : Expr}
    (h : (operand.beginsWithNatural && !operand.isNatural) = false) (hnatural : operand.isNatural = false)
    (n : Nat) : (operand.tokensAt 6).head? ≠ some (.integer n) := by
  intro hhead
  rw [← List.append_nil (operand.tokensAt 6)] at hhead
  obtain ⟨hsix, htokens⟩ := head_tokensAt (by simp) hhead
  have hbegins := operand.beginsWithNatural_of_head hsix htokens
  simp [hbegins, hnatural] at h

mutual

/-- Without stray minus signs, the printed tokens spell the expression. -/
theorem spells_tokens : (e : Expr) → e.isReadable → e.strayMinuses = 0 →
    Spells e.precedence e.nesting e.tokens e
  | .literal value, _, _ => by
    rw [nesting]
    exact spells_literal value
  | .name n, _, _ => by
    rw [nesting, tokens_name]
    exact .name n
  | .self, _, _ => by
    rw [nesting, tokens_self]
    exact .self
  | .field target n, hreadable, hstray => by
    have htarget := target.spells_tokens (by simpa [isReadable] using hreadable)
      (by simpa [strayMinuses] using hstray)
    rw [nesting, tokens_field]
    exact .field (spells_tokensAt htarget (by decide) le_rfl) n
  | .call n args, hreadable, hstray => by
    have hargs := spells_toPart args (by simpa [isReadable] using hreadable)
      (by simpa [strayMinuses] using hstray)
    have hcall := Spells.call n (args.map toPart) hargs
    rwa [nesting_toPart, list_toPart, expr_toPart, ← tokens_call] at hcall
  | .callOn target n args, hreadable, hstray => by
    simp only [isReadable, Bool.and_eq_true, strayMinuses, Nat.add_eq_zero_iff] at hreadable hstray
    have htarget := target.spells_tokens hreadable.1 hstray.1
    have hargs := spells_toPart args hreadable.2 hstray.2
    have hcall := Spells.callOn (spells_tokensAt htarget (by decide) le_rfl) n (args.map toPart) hargs
    rwa [nesting_toPart, list_toPart, expr_toPart, ← tokens_callOn] at hcall
  | .create type args, hreadable, hstray => by
    have hargs := spells_toPart args (by simpa [isReadable] using hreadable)
      (by simpa [strayMinuses] using hstray)
    have hcreate := Spells.create type (args.map toPart) hargs
    rwa [nesting_toPart, list_toPart, expr_toPart, ← tokens_create] at hcreate
  | .classLiteral type, hreadable, _ => by
    rw [nesting]
    exact spells_classLiteral (by simpa [isReadable] using hreadable)
  | .unary .not operand, hreadable, hstray => by
    have hoperand := operand.spells_tokens (by simpa [isReadable] using hreadable)
      (by simpa [strayMinuses] using hstray)
    rw [nesting, tokens_not]
    exact .not (spells_tokensAt hoperand (by decide) (by decide))
  | .unary .neg operand, hreadable, hstray => by
    simp only [strayMinuses, Nat.add_eq_zero_iff] at hstray
    have hoperand := operand.spells_tokens (by simpa [isReadable] using hreadable) hstray.1
    rw [nesting, tokens_neg]
    -- A minus sign would join a number behind it, so the number is printed in parentheses.
    by_cases hnatural : operand.isNatural
    · rw [if_pos hnatural, if_pos hnatural]
      refine .neg (.loosen (by decide) (.paren ?_)) (by simp)
      exact hoperand.loosen_to le_rfl operand.one_le_precedence
    · rw [if_neg hnatural, if_neg hnatural]
      refine .neg (spells_tokensAt hoperand (by decide) (by decide)) ?_
      exact head_ne_integer (by simpa using hstray.2) (by simpa using hnatural)
  | .binary op left right, hreadable, hstray => by
    simp only [isReadable, Bool.and_eq_true, strayMinuses, Nat.add_eq_zero_iff] at hreadable hstray
    have hleft := left.spells_tokens hreadable.1 hstray.1
    have hright := right.spells_tokens hreadable.2 hstray.2
    have hlevels : 1 ≤ op.precedence ∧ op.precedence + 1 ≤ 7 := by cases op <;> decide
    rw [nesting, tokens_binary]
    exact .binary op (spells_tokensAt hleft hlevels.1 (by omega))
      (spells_tokensAt hright (by omega) hlevels.2)
  | .assign target value, hreadable, hstray => by
    simp only [isReadable, Bool.and_eq_true, strayMinuses, Nat.add_eq_zero_iff] at hreadable hstray
    have htarget := target.spells_tokens hreadable.1.2 hstray.1
    have hvalue := value.spells_tokens hreadable.2 hstray.2
    rw [nesting, tokens_assign]
    exact .assign ((spells_tokensAt htarget (by decide) le_rfl).loosen_to (by decide) (by decide))
      hreadable.1.1 (hvalue.loosen_to le_rfl value.one_le_precedence)

theorem spells_toPart : (args : List Expr) → areReadable args → strayMinusesIn args = 0 →
    ∀ part ∈ args.map toPart, Spells 1 part.depth part.tokens part.expr
  | [], _, _ => by simp
  | arg :: rest, hreadable, hstray => by
    simp only [areReadable, Bool.and_eq_true, strayMinusesIn, Nat.add_eq_zero_iff]
      at hreadable hstray
    have harg := arg.spells_tokens hreadable.1 hstray.1
    have hrest := spells_toPart rest hreadable.2 hstray.2
    simp only [List.map_cons, List.forall_mem_cons]
    exact ⟨harg.loosen_to le_rfl arg.one_le_precedence, hrest⟩

end

end Expr

/-! ## What every spelling has -/

/-- What is spelled can be printed. -/
theorem Spells.isReadable {level depth : Nat} {us : List Token} {e : Expr}
    (h : Spells level depth us e) : e.isReadable := by
  induction h with
  | text | natural | boolean | null | self | name | negative => rfl
  | call n parts _ ih | create type parts _ ih =>
    rw [Expr.isReadable, Expr.areReadable_iff]
    simpa using ih
  | keywordClass type htype =>
    rw [Expr.isReadable]
    cases type with
    | reference type =>
      cases type with
      | named => cases htype
      | _ => exact htype
    | _ => rfl
  | nameClass => rfl
  | field _ _ ih | not _ ih | neg _ _ ih => rwa [Expr.isReadable]
  | callOn _ n parts _ iht ih =>
    rw [Expr.isReadable, iht, Bool.true_and, Expr.areReadable_iff]
    simpa using ih
  | paren _ ih | loosen _ _ ih => exact ih
  | binary _ _ _ ihl ihr => rw [Expr.isReadable, ihl, ihr]; rfl
  | assign _ hassignable _ iht ihv => rw [Expr.isReadable, hassignable, iht, ihv]; rfl

/-- The weight of a token: one for an opening parenthesis, a minus sign or a semicolon, the tokens
that a text may have too few of. -/
def Token.weight : Token → Nat
  | .symbol .leftParen | .symbol .minus | .symbol .semicolon => 1
  | _ => 0

/-- The number of parentheses, minus signs and semicolons. -/
def weight (ts : List Token) : Nat := (ts.map Token.weight).sum

@[simp] theorem weight_nil : weight [] = 0 := rfl

@[simp] theorem weight_cons (t : Token) (ts : List Token) :
    weight (t :: ts) = t.weight + weight ts := rfl

@[simp] theorem weight_append (ts us : List Token) : weight (ts ++ us) = weight ts + weight us := by
  simp [weight]

@[simp] theorem weight_flatMap {α : Type} (f : α → List Token) (xs : List α) :
    weight (xs.flatMap f) = (xs.map fun x => weight (f x)).sum := by
  induction xs with
  | nil => rfl
  | cons x xs ih => simp [ih]

/-- Commas add nothing to the weight. -/
theorem weight_commaTokens {α : Type} (f : α → List Token) (xs : List α) :
    weight (commaTokens f xs) = (xs.map fun x => weight (f x)).sum := by
  cases xs with
  | nil => rfl
  | cons x xs => simp [Token.weight]

@[simp] theorem QualifiedName.weight_tokens (q : QualifiedName) : weight q.tokens = 0 := by
  obtain ⟨first, rest, rfl⟩ := q.exists_ofSegments
  simp [Name.token, Token.weight]

/-- Whether tokens begin with an integer. -/
def startsWithInteger : List Token → Bool
  | .integer _ :: _ => true
  | _ => false

/-- What sets a number at the beginning of an expression off from a minus sign in front. -/
def setOff (us : List Token) (e : Expr) : Nat :=
  if e.beginsWithNatural && !startsWithInteger us then 1 else 0

namespace Expr

private theorem weight_tokensAt (least : Nat) (e : Expr) :
    weight (e.tokensAt least) = weight e.tokens + parenDepth e.precedence least := by
  rw [tokensAt_eq]
  unfold parenDepth
  split <;> simp [Token.weight, Nat.add_comm]

/-- The stray signs of arguments are those of each argument together. -/
theorem strayMinusesIn_eq (args : List Expr) :
    strayMinusesIn args = (args.map strayMinuses).sum := by
  induction args with
  | nil => rfl
  | cons arg rest ih => simp [strayMinusesIn, ih]

private theorem weight_listTokens (args : List Expr) :
    weight (listTokens args) = (args.map fun arg => weight arg.tokens).sum + 1 := by
  simp [listTokens, weight_commaTokens, Token.weight, Nat.add_comm]

end Expr

theorem Part.weight_le {parts : List Part}
    (h : ∀ part ∈ parts, weight part.expr.tokens + part.expr.strayMinuses ≤ weight part.tokens) :
    weight (Expr.listTokens (parts.map Part.expr)) + Expr.strayMinusesIn (parts.map Part.expr) ≤
      weight (Part.list parts) := by
  have hsum : (parts.map fun part => weight part.expr.tokens).sum +
      (parts.map fun part => part.expr.strayMinuses).sum ≤
        (parts.map fun part => weight part.tokens).sum := by
    induction parts with
    | nil => simp
    | cons part rest ih =>
      have hpart := h part (by simp)
      have hrest := ih fun p hp => h p (by simp [hp])
      simp only [List.map_cons, List.sum_cons]
      omega
  rw [Expr.weight_listTokens, Expr.strayMinusesIn_eq, List.map_map, List.map_map]
  simp only [Part.list, weight_cons, weight_append, weight_commaTokens, Token.weight, weight_nil]
  simp only [Function.comp_def]
  omega

private theorem setOff_of_not_begins {e : Expr} (h : e.beginsWithNatural = false)
    (us : List Token) :
    setOff us e = 0 := by simp [setOff, h]

private theorem setOff_le_one (us : List Token) (e : Expr) : setOff us e ≤ 1 := by
  unfold setOff
  split <;> simp

/-- What begins with a number binds tightest, so it needs no parentheses. -/
theorem Expr.parenDepth_of_begins {e : Expr} (h : e.beginsWithNatural) (level : Nat) :
    level ≤ 7 → parenDepth e.precedence level = 0 := by
  intro hlevel
  have hprecedence : e.precedence = 7 := by
    cases e with
    | literal value =>
      cases value with
      | integer n =>
        have hn : ¬ n.toInt < 0 := by simpa [beginsWithNatural] using h
        rw [precedence, if_neg hn]
      | _ => cases h
    | field | callOn => rfl
    | _ => cases h
  rw [parenDepth, if_neg (by omega)]

private theorem parenDepth_le_one (own least : Nat) : parenDepth own least ≤ 1 := by
  unfold parenDepth
  split <;> simp

private theorem Spells.startsWithInteger_append {level depth : Nat} {us : List Token} {e : Expr}
    (h : Spells level depth us e) (vs : List Token) :
    startsWithInteger (us ++ vs) = startsWithInteger us := by
  obtain ⟨t, tail, rfl, -⟩ := h.exists_head
  cases t <;> rfl

/-- Tokens with no fewer parentheses and signs than the canonical text in a place that asks for a
level, and with one more for each minus sign that strays there. -/
def Outweighs (level : Nat) (us : List Token) (e : Expr) : Prop :=
  weight e.tokens + e.strayMinuses + parenDepth e.precedence level + setOff us e ≤ weight us

/-! ## The weight of the productions

One lemma for each way to spell an expression: if the parts outweigh their canonical texts, so does
the whole. -/

namespace Outweighs

variable {us vs : List Token} {e target value left right : Expr} {depth level : Nat}

private theorem without_setOff (h : Outweighs level us e) :
    weight e.tokens + e.strayMinuses ≤ weight us :=
  Nat.le_of_add_right_le (Nat.le_of_add_right_le h)

private theorem parts {parts : List Part}
    (h : ∀ part ∈ parts, Outweighs 1 part.tokens part.expr) :
    weight (Expr.listTokens (parts.map Part.expr)) + Expr.strayMinusesIn (parts.map Part.expr) ≤
      weight (Part.list parts) :=
  Part.weight_le fun part hpart => (h part hpart).without_setOff

/-- Tokens that are printed as they were read weigh the same. -/
theorem of_tokens (htokens : e.tokens = us) (hstray : e.strayMinuses = 0)
    (hlevel : level ≤ e.precedence) (hset : setOff us e = 0) : Outweighs level us e := by
  rw [Outweighs, htokens, hstray, hset, parenDepth, if_neg (Nat.not_lt.2 hlevel)]
  exact Nat.le_refl _

private theorem natural {n : Nat} (hn : n < 2 ^ 63) :
    Outweighs 7 [.integer n] (.integer (Int64.ofNat n)) := by
  have hvalue : (Int64.ofNat n).toInt = n := Int64.toInt_ofNat_of_lt hn
  refine of_tokens ?_ rfl ?_ (by simp [setOff, startsWithInteger])
  · rw [Expr.tokens_integer, hvalue, if_neg (by omega), Int.natAbs_natCast]
  · rw [Expr.integer, Expr.precedence, hvalue, if_neg (by omega)]

/-- A sign in front of zero is read but not printed. -/
theorem negative {n : Nat} (hn : n ≤ 2 ^ 63) :
    Outweighs 6 [.symbol .minus, .integer n] (.integer (Int64.ofInt (-n))) := by
  have hvalue : (Int64.ofInt (-n)).toInt = -n := by
    refine Int64.toInt_ofInt_of_le ?_ ?_ <;> omega
  by_cases hzero : n = 0
  · have hneg : ¬ (Int64.ofInt (-n)).toInt < 0 := by omega
    have htokens : weight (Expr.integer (Int64.ofInt (-n))).tokens = 0 := by
      rw [Expr.tokens_integer, if_neg hneg]
      rfl
    have hprecedence : (Expr.integer (Int64.ofInt (-n))).precedence = 7 := by
      rw [Expr.integer, Expr.precedence, if_neg hneg]
    have hset := setOff_le_one [.symbol .minus, .integer n] (Expr.integer (Int64.ofInt (-n)))
    rw [Outweighs, htokens, hprecedence]
    simpa [Expr.integer, Expr.strayMinuses, parenDepth, Token.weight] using hset
  · have hneg : (Int64.ofInt (-n)).toInt < 0 := by omega
    refine of_tokens ?_ rfl ?_ (setOff_of_not_begins ?_ _)
    · rw [Expr.tokens_integer, if_pos hneg, hvalue, Int.natAbs_neg, Int.natAbs_natCast]
    · rw [Expr.integer, Expr.precedence, if_pos hneg]
    · rw [Expr.integer, Expr.beginsWithNatural, decide_eq_false (Int.not_le.2 hneg)]

private theorem call (n : Name) {parts : List Part}
    (h : ∀ part ∈ parts, Outweighs 1 part.tokens part.expr) :
    Outweighs 7 (n.token :: Part.list parts) (.call n (parts.map Part.expr)) := by
  rw [Outweighs, setOff_of_not_begins rfl, Expr.tokens_call, Expr.strayMinuses]
  simpa [parenDepth, Expr.precedence, Nat.add_assoc] using Outweighs.parts h

private theorem create (type : ClassType) {parts : List Part}
    (h : ∀ part ∈ parts, Outweighs 1 part.tokens part.expr) :
    Outweighs 7 (.word "new" :: (type.tokens ++ Part.list parts))
      (.create type (parts.map Part.expr)) := by
  rw [Outweighs, setOff_of_not_begins rfl, Expr.tokens_create, Expr.strayMinuses]
  simpa [parenDepth, Expr.precedence, Nat.add_assoc] using Outweighs.parts h

/-- The canonical text spells a class literal by the name alone. -/
theorem nameClass {q : QualifiedName} (hname : weight q.tokens = 0) :
    Outweighs 7 (us ++ [.symbol .dot, .word "class"]) (.classLiteral (.ofClass (.plain q))) := by
  rw [Outweighs, setOff_of_not_begins rfl, Expr.tokens_classLiteral, Expr.tokens_erasure_plain,
    Expr.strayMinuses, weight_append, hname]
  simp [parenDepth, Expr.precedence, Token.weight]

/-- A selection begins like its target, so a sign strays in front of both or of neither. -/
theorem field (hspells : Spells 7 depth us target) (h : Outweighs 7 us target) (n : Name) :
    Outweighs 7 (us ++ [.symbol .dot, n.token]) (.field target n) := by
  have hset : setOff (us ++ [.symbol .dot, n.token]) (.field target n) = setOff us target := by
    rw [setOff, hspells.startsWithInteger_append]
    rfl
  have hdepth : parenDepth (Expr.field target n).precedence 7 = 0 := rfl
  unfold Outweighs at h
  rw [Outweighs, hset, hdepth, Expr.tokens_field, weight_append, Expr.weight_tokensAt,
    Expr.strayMinuses]
  simp only [weight_append, weight_cons, Token.weight, Name.token, weight_nil]
  omega

private theorem callOn (hspells : Spells 7 depth us target) (htarget : Outweighs 7 us target)
    (n : Name)
    {parts : List Part} (h : ∀ part ∈ parts, Outweighs 1 part.tokens part.expr) :
    Outweighs 7 (us ++ .symbol .dot :: n.token :: Part.list parts)
      (.callOn target n (parts.map Part.expr)) := by
  have hparts := Outweighs.parts h
  have hset : setOff (us ++ .symbol .dot :: n.token :: Part.list parts)
      (.callOn target n (parts.map Part.expr)) = setOff us target := by
    rw [setOff, hspells.startsWithInteger_append]
    rfl
  have hdepth : parenDepth (Expr.callOn target n (parts.map Part.expr)).precedence 7 = 0 := rfl
  unfold Outweighs at htarget
  rw [Outweighs, hset, hdepth, Expr.tokens_callOn, weight_append, Expr.weight_tokensAt,
    Expr.strayMinuses]
  simp only [weight_append, weight_cons, Token.weight, Name.token]
  omega

/-- Parentheses that were read make up either for printed ones or for a sign set off by them. -/
theorem paren (h : Outweighs 1 us e) :
    Outweighs 7 (.symbol .leftParen :: (us ++ [.symbol .rightParen])) e := by
  have hset := setOff_le_one (.symbol .leftParen :: (us ++ [.symbol .rightParen])) e
  have hset' : setOff (.symbol .leftParen :: (us ++ [.symbol .rightParen])) e = 0 ∨
      parenDepth e.precedence 7 = 0 := by
    cases hbegins : e.beginsWithNatural with
    | false => exact .inl (setOff_of_not_begins hbegins _)
    | true => exact .inr (Expr.parenDepth_of_begins hbegins 7 le_rfl)
  have hdepth := parenDepth_le_one e.precedence 7
  unfold Outweighs at h ⊢
  simp only [weight_append, weight_cons, Token.weight, weight_nil]
  omega

private theorem not (h : Outweighs 6 us e) : Outweighs 6 (.symbol .bang :: us) (.unary .not e) := by
  have hdepth : parenDepth (Expr.unary .not e).precedence 6 = 0 := rfl
  unfold Outweighs at h
  rw [Outweighs, setOff_of_not_begins rfl, hdepth, Expr.tokens_not, weight_cons,
    Expr.weight_tokensAt, Expr.strayMinuses, weight_cons]
  simp only [Token.weight]
  omega

/-- A minus sign that would stray in the canonical text was set off from the integer behind it. -/
theorem neg (hinteger : ∀ n, us.head? ≠ some (.integer n)) (h : Outweighs 6 us e) :
    Outweighs 6 (.symbol .minus :: us) (.unary .neg e) := by
  have hdepth : parenDepth (Expr.unary .neg e).precedence 6 = 0 := rfl
  have hset : setOff us e = if e.beginsWithNatural then 1 else 0 := by
    have hstarts : startsWithInteger us = false := by
      rcases us with _ | ⟨_ | n | _ | _, tail⟩
      case cons.integer => exact absurd rfl (hinteger n)
      all_goals rfl
    simp [setOff, hstarts]
  unfold Outweighs at h
  rw [Outweighs, setOff_of_not_begins rfl, hdepth, Expr.tokens_neg, weight_cons, Expr.strayMinuses,
    weight_cons]
  by_cases hnatural : e.isNatural
  · -- An integer alone gets parentheses, which stand for the sign that was set off.
    have hbegins : e.beginsWithNatural := by
      cases e with
      | literal value => cases value <;> exact hnatural
      | _ => cases hnatural
    rw [if_pos hbegins] at hset
    simp only [hnatural, if_true, weight_cons, weight_append, Token.weight, weight_nil,
      Bool.not_true, Bool.and_false, Bool.false_eq_true, if_false]
    omega
  · rw [Bool.not_eq_true] at hnatural
    rw [hnatural, if_neg Bool.false_ne_true, Expr.weight_tokensAt, Bool.not_false, Bool.and_true]
    omega

private theorem binary {op : BinaryOp} (hleft : Outweighs op.precedence us left)
    (hright : Outweighs (op.precedence + 1) vs right) :
    Outweighs op.precedence (us ++ .symbol op.symbol :: vs) (.binary op left right) := by
  have hself : parenDepth op.precedence op.precedence = 0 := by simp [parenDepth]
  unfold Outweighs at hleft hright
  rw [Outweighs, setOff_of_not_begins rfl, Expr.tokens_binary, weight_append, weight_cons,
    Expr.weight_tokensAt, Expr.weight_tokensAt, Expr.strayMinuses, weight_append, weight_cons,
    Expr.precedence]
  omega

private theorem assign (htarget : Outweighs 2 us target) (hassignable : target.isAssignable)
    (hvalue : Outweighs 1 vs value) :
    Outweighs 1 (us ++ .symbol .assign :: vs) (.assign target value) := by
  have hdepth : parenDepth target.precedence 7 = 0 := by
    cases target with
    | name | field => rfl
    | _ => cases hassignable
  have hself : parenDepth 1 1 = 0 := rfl
  unfold Outweighs at htarget hvalue
  rw [Outweighs, setOff_of_not_begins rfl, Expr.tokens_assign, weight_append, weight_cons,
    Expr.weight_tokensAt, hdepth, Expr.strayMinuses, weight_append, weight_cons, Expr.precedence]
  omega

private theorem loosen (h : Outweighs (level + 1) us e) : Outweighs level us e := by
  have hdepth : parenDepth e.precedence level ≤ parenDepth e.precedence (level + 1) := by
    unfold parenDepth
    split <;> split <;> omega
  unfold Outweighs at h ⊢
  omega

end Outweighs

/-- No spelling has fewer parentheses and signs than the canonical text, and it has one more for
each minus sign that strays in that text. -/
theorem Spells.weight_le {level depth : Nat} {us : List Token} {e : Expr}
    (h : Spells level depth us e) :
    weight e.tokens + e.strayMinuses + parenDepth e.precedence level + setOff us e ≤ weight us := by
  change Outweighs level us e
  induction h with
  | text | boolean | null | self | name => exact .of_tokens rfl rfl le_rfl rfl
  | natural hn => exact .natural hn
  | negative hn => exact .negative hn
  | call n parts _ ih => exact .call n ih
  | create type parts _ ih => exact .create type ih
  | keywordClass type htype =>
    refine .of_tokens ?_ rfl le_rfl rfl
    rw [Expr.tokens_classLiteral, Ty.erasure_of_isKeyword htype]
  | @nameClass _ _ _ q => exact .nameClass q.weight_tokens
  | field hspells n ih => exact ih.field hspells n
  | callOn hspells n parts _ iht ih => exact iht.callOn hspells n ih
  | paren _ ih => exact ih.paren
  | not _ ih => exact ih.not
  | neg _ hinteger ih => exact .neg hinteger ih
  | binary op _ _ ihl ihr => exact ihl.binary ihr
  | assign _ hassignable _ iht ihv => exact iht.assign hassignable ihv
  | loosen _ _ ih => exact ih.loosen

end Stubwright.Source
