import Stubwright.Proofs.Source.Spelling

/-!
# Every spelling is read

On the tokens of a spelling the parser comes to the expression that is spelled, or finds that it
nests too deep, wherever the token after the spelling cannot take hold of the expression.

## Main definitions

* `Token.grip`, `GripsBelow` — at which level a token takes hold of what stands in front of it
* `parserAt`, `goOn` — the parser of a level, and what it does after an operand
* `Parser.IsRead` — tokens that the parser of a level reads as an expression

## Main results

* `Spells.reaches` — a parser reads the spellings of its level
* `expr_reaches` — an expression is read from any of its spellings
-/

namespace Stubwright.Source

open Source.Parser

/-! ## What may follow an expression -/

/-- The level at which a token takes hold of the expression in front of it. An opening parenthesis
makes a name a call, and most tokens take hold of nothing. -/
def Token.grip : Token → Nat
  | .symbol .leftParen => 8
  | .symbol .dot => 7
  | .symbol .plus | .symbol .minus => 5
  | .symbol .equal | .symbol .notEqual => 4
  | .symbol .andAnd => 3
  | .symbol .orOr => 2
  | .symbol .assign => 1
  | _ => 0

/-- What stands in front takes hold below a level only. -/
def GripsBelow (level : Nat) (ts : List Token) : Prop := ∀ t ∈ ts.head?, t.grip < level

private theorem GripsBelow.mono {least level : Nat} {ts : List Token} (h : GripsBelow least ts)
    (hle : least ≤ level) : GripsBelow level ts := fun t ht => (h t ht).trans_le hle

/-- Tokens grip below a level when the first of them does. -/
theorem gripsBelow_cons {level : Nat} {t : Token} (h : t.grip < level) (ts : List Token) :
    GripsBelow level (t :: ts) := by
  intro s hs
  obtain rfl : t = s := by simpa using hs
  exact h

private theorem GripsBelow.head_ne {level : Nat} {ts : List Token} (h : GripsBelow level ts)
    {t : Token}
    (ht : level ≤ t.grip) : ts.head? ≠ some t := fun hhead =>
  absurd (h t (by simp [hhead])) (Nat.not_lt.2 ht)

private theorem BinaryOp.grip_symbol (op : BinaryOp) :
    (Token.symbol op.symbol).grip = op.precedence := by
  cases op <;> rfl

/-! ## What an expression begins with -/

/-- A word that an expression may begin with. -/
def IsExprWord (text : String) : Prop :=
  text ∈ ["true", "false", "null", "this", "new", "void"] ∨ IsTypeWord text

instance (text : String) : Decidable (IsExprWord text) := inferInstanceAs (Decidable (_ ∨ _))

/-- Whether an expression of a level may begin with a token. -/
def Token.Begins (level : Nat) : Token → Prop
  | .word text => IsExprWord text
  | .integer _ | .quoted _ => True
  | .symbol s => s = .leftParen ∨ (level ≤ 6 ∧ (s = .bang ∨ s = .minus))

private theorem Token.Begins.mono {level least : Nat} {t : Token} (h : t.Begins level)
    (hle : least ≤ level) : t.Begins least := by
  cases t with
  | symbol s => exact h.imp id fun hs => ⟨hle.trans hs.1, hs.2⟩
  | _ => exact h

private theorem Name.begins_token (n : Name) (level : Nat) : n.token.Begins level :=
  Or.inr (Or.inl n.isName)

/-- A name is no keyword. -/
theorem Name.head_ne (n : Name) {text : String} (htext : ¬ IsName text) (ts : List Token) :
    (n.token :: ts).head? ≠ some (.word text) := by
  intro hhead
  obtain rfl : n.text = text := by simpa [Name.token] using hhead
  exact htext n.isName

/-- What spells an expression begins with a token that may begin one. -/
theorem Spells.exists_head {level depth : Nat} {us : List Token} {e : Expr}
    (h : Spells level depth us e) : ∃ t tail, us = t :: tail ∧ t.Begins level := by
  induction h with
  | text | natural => exact ⟨_, _, rfl, trivial⟩
  | boolean value => exact ⟨_, _, rfl, Or.inl (by cases value <;> decide)⟩
  | null | self => exact ⟨_, _, rfl, Or.inl (by decide)⟩
  | name n => exact ⟨_, _, rfl, n.begins_token 7⟩
  | call n => exact ⟨_, _, rfl, n.begins_token 7⟩
  | create => exact ⟨_, _, rfl, Or.inl (by decide)⟩
  | keywordClass type htype =>
    -- The keyword `void` names no type, so its tokens are not told by those of types.
    by_cases hvoid : type = .void
    · subst hvoid
      exact ⟨_, _, rfl, Or.inl (by decide)⟩
    · obtain ⟨text, tail, htokens, hword⟩ := Ty.exists_tokens hvoid
      exact ⟨.word text, _, by rw [htokens, List.cons_append], Or.inr hword⟩
  | nameClass _ _ ih | field _ _ ih | callOn _ _ _ _ ih =>
    obtain ⟨t, tail, rfl, ht⟩ := ih
    exact ⟨t, _, rfl, ht⟩
  | paren => exact ⟨_, _, rfl, Or.inl rfl⟩
  | negative | neg => exact ⟨_, _, rfl, Or.inr ⟨le_rfl, Or.inr rfl⟩⟩
  | not => exact ⟨_, _, rfl, Or.inr ⟨le_rfl, Or.inl rfl⟩⟩
  | binary _ _ _ ih =>
    obtain ⟨t, tail, rfl, ht⟩ := ih
    exact ⟨t, _, rfl, ht⟩
  | assign _ _ _ ih =>
    obtain ⟨t, tail, rfl, ht⟩ := ih
    exact ⟨t, _, rfl, ht.mono (by decide)⟩
  | loosen _ _ ih =>
    obtain ⟨t, tail, rfl, ht⟩ := ih
    exact ⟨t, _, rfl, ht.mono (Nat.le_succ _)⟩

/-- No expression begins with a symbol other than those in front of operands. -/
theorem Spells.head_ne_symbol {level depth : Nat} {us : List Token} {e : Expr}
    (h : Spells level depth us e) {s : Symbol} (hs : s ∉ [Symbol.leftParen, .bang, .minus])
    (rest : List Token) : (us ++ rest).head? ≠ some (.symbol s) := by
  obtain ⟨t, tail, rfl, ht⟩ := h.exists_head
  rintro heq
  obtain rfl : t = .symbol s := by simpa using heq
  rcases ht with rfl | ⟨-, rfl | rfl⟩ <;> simp at hs

/-- No expression begins with a word that is reserved for other purposes. -/
theorem Spells.head_ne_word {level depth : Nat} {us : List Token} {e : Expr}
    (h : Spells level depth us e) {text : String} (htext : ¬ IsExprWord text)
    (rest : List Token) : (us ++ rest).head? ≠ some (.word text) := by
  obtain ⟨t, tail, rfl, ht⟩ := h.exists_head
  rintro heq
  obtain rfl : t = .word text := by simpa using heq
  exact htext ht

/-! ## The parser of each level -/

/-- The operators of a level. -/
def operatorsAt : Nat → List BinaryOp
  | 2 => [.or]
  | 3 => [.and]
  | 4 => [.equal, .notEqual]
  | 5 => [.add, .sub]
  | _ => []

namespace Parser

/-- The parser of a level. -/
def parserAt (inner : Inner) : Nat → Parser Expr
  | 1 => exprWith inner
  | 2 => disjunction inner
  | 3 => conjunction inner
  | 4 => equality inner
  | 5 => additive inner
  | 6 => unary inner
  | _ => postfixed inner

/-- What the parser of a level does after an operand. -/
def goOn (inner : Inner) (level : Nat) (e : Expr) : Parser Expr :=
  match level with
  | 1 | 6 => pure e
  | 7 => extend (selection? inner) e
  | level => extend (chainStep (operatorsAt level) (parserAt inner (level + 1))) e

/-- What may follow a spelling at a level so that its parser goes on behind it. -/
def mayFollow (level : Nat) (ts : List Token) : Prop :=
  GripsBelow (if level = 1 then 1 else level + 1) ts

variable {inner : Inner} {bound level : Nat}

private theorem parserAt_chain (hlow : 2 ≤ level) (hhigh : level ≤ 5) :
    parserAt inner level = parserAt inner (level + 1) >>= goOn inner level := by
  obtain rfl | rfl | rfl | rfl : level = 2 ∨ level = 3 ∨ level = 4 ∨ level = 5 := by omega
  all_goals rfl

private theorem goOn_chain (hlow : 2 ≤ level) (hhigh : level ≤ 5) (e : Expr) :
    goOn inner level e = extend (chainStep (operatorsAt level) (parserAt inner (level + 1))) e := by
  obtain rfl | rfl | rfl | rfl : level = 2 ∨ level = 3 ∨ level = 4 ∨ level = 5 := by omega
  all_goals rfl

private theorem parserAt_takes (hinner : inner.Reads bound) (hlow : 1 ≤ level) (hhigh : level ≤ 7) :
    Takes (parserAt inner level) (SpellsWithin level bound) := by
  have hpostfixed := postfixed_takes hinner
  have hunary := unary_takes hinner
  have hadditive : Takes (additive inner) (SpellsWithin 5 bound) :=
    leftChain_takes (by decide) (by decide) hunary
  have hequality : Takes (equality inner) (SpellsWithin 4 bound) :=
    leftChain_takes (by decide) (by decide) hadditive
  have hconjunction : Takes (conjunction inner) (SpellsWithin 3 bound) :=
    leftChain_takes (by decide) (by decide) hequality
  obtain rfl | rfl | rfl | rfl | rfl | rfl | rfl : level = 1 ∨ level = 2 ∨ level = 3 ∨ level = 4 ∨
      level = 5 ∨ level = 6 ∨ level = 7 := by omega
  · exact exprWith_takes hinner
  · exact disjunction_takes hinner
  · exact hconjunction
  · exact hequality
  · exact hadditive
  · exact hunary
  · exact hpostfixed

/-! ## Where a parser stops -/

private theorem selection?_end {target : Expr} {ts : List Token} (h : GripsBelow 7 ts) :
    selection? inner target ts = .ok (none, ts) := by
  refine bind_eq_ok.2 ⟨_, _, remaining_eq_ok.2 ⟨rfl, rfl⟩, ?_⟩
  exact bind_eq_ok.2 ⟨false, ts, symbol?_eq_ok.2 (.inr ⟨rfl, rfl, h.head_ne le_rfl⟩), rfl⟩

private theorem chainStep_end {operators : List BinaryOp} {operand : Parser Expr} {left : Expr}
    {ts : List Token} (h : ∀ op ∈ operators, ts.head? ≠ some (.symbol op.symbol)) :
    chainStep operators operand left ts = .ok (none, ts) := by
  have hfind : operators.find? (fun op => decide (ts.head? = some (.symbol op.symbol))) = none := by
    simpa using h
  refine bind_eq_ok.2 ⟨_, _, peek_eq_ok.2 ⟨rfl, rfl⟩, ?_⟩
  rw [hfind]
  rfl

private theorem operatorsAt_precedence {op : BinaryOp} (h : op ∈ operatorsAt level) :
    op.precedence = level := by
  unfold operatorsAt at h
  split at h <;> simp at h
  · subst h; rfl
  · subst h; rfl
  · rcases h with rfl | rfl <;> rfl
  · rcases h with rfl | rfl <;> rfl

/-- A parser is done where nothing takes hold at its level or above. -/
theorem goOn_end (hinner : inner.Reads bound) (hlow : 1 ≤ level) (hhigh : level ≤ 7) {e : Expr}
    {ts : List Token} (h : GripsBelow level ts) : goOn inner level e ts = .ok (e, ts) := by
  by_cases hchain : 2 ≤ level ∧ level ≤ 5
  · rw [goOn_chain hchain.1 hchain.2,
      extend_eq (chainStep_advances (parserAt_takes hinner (by omega) (by omega))),
      chainStep_end fun op hop => h.head_ne (by rw [op.grip_symbol, operatorsAt_precedence hop])]
  · obtain rfl | rfl | rfl : level = 1 ∨ level = 6 ∨ level = 7 := by omega
    · rfl
    · rfl
    · rw [goOn, extend_eq (selection?_advances hinner), selection?_end h]

/-- On these tokens the parser of a level comes to an expression and goes on behind it, unless they
nest too deep for the bound. -/
def IsRead (level depth : Nat) (us : List Token) (e : Expr) : Prop :=
  ∀ bound rest, mayFollow level rest →
    Reaches (depth ≤ bound) (parserAt (innerAt bound) level (us ++ rest))
      (goOn (innerAt bound) level e rest)

/-! ## The parts of a spelling -/

private theorem wordExpr_name (n : Name) : wordExpr inner n.text = nameOrCall inner := by
  have hne : ∀ text, ¬ IsName text → n.text ≠ text := by
    rintro text htext rfl
    exact htext n.isName
  have hboolean : ¬ (n.text = "true" ∨ n.text = "false") :=
    fun h => h.elim (hne _ (by decide)) (hne _ (by decide))
  obtain ⟨hkeyword, hvoid⟩ := ofKeyword?_name n
  rw [wordExpr, if_neg hboolean, if_neg (hne "null" (by decide)), if_neg (hne "this" (by decide)),
    if_neg (hne "new" (by decide)), if_neg (by simp [hkeyword, hvoid])]

/-- One level deeper, a parser has one level less. -/
theorem innerExpr_reaches {depth : Nat} {ts : List Token}
    {next : Except ParseFailure (Expr × List Token)}
    (h : ∀ bound, Reaches (depth ≤ bound) (parserAt (innerAt bound) 1 ts) next) (bound : Nat) :
    Reaches (depth + 1 ≤ bound) ((innerAt bound).expr ts) next := by
  cases bound with
  | zero => exact ⟨fun hfits => absurd hfits (Nat.not_succ_le_zero _), fun _ => ⟨_, rfl⟩⟩
  | succ bound => exact (h bound).congr Nat.succ_le_succ_iff

private theorem innerUnary_reaches {depth : Nat} {ts : List Token}
    {next : Except ParseFailure (Expr × List Token)}
    (h : ∀ bound, Reaches (depth ≤ bound) (parserAt (innerAt bound) 6 ts) next) (bound : Nat) :
    Reaches (depth + 1 ≤ bound) ((innerAt bound).unary ts) next := by
  cases bound with
  | zero => exact ⟨fun hfits => absurd hfits (Nat.not_succ_le_zero _), fun _ => ⟨_, rfl⟩⟩
  | succ bound => exact (h bound).congr Nat.succ_le_succ_iff

/-- Arguments are read when each of them is, within a bound for the deepest. -/
theorem arguments_reaches {parts : List Part}
    (hparts : ∀ part ∈ parts, Spells 1 part.depth part.tokens part.expr)
    (h : ∀ part ∈ parts, IsRead 1 part.depth part.tokens part.expr)
    (bound : Nat) (rest : List Token) :
    Reaches (Part.nesting parts ≤ bound) (arguments (innerAt bound) (Part.list parts ++ rest))
      (.ok (parts.map Part.expr, rest)) := by
  have hopen : expect .leftParen "'('" (Part.list parts ++ rest) =
      .ok ((), commaTokens Part.tokens parts ++ .symbol .rightParen :: rest) :=
    expect_eq_ok.2 (by simp [Part.list])
  refine .step hopen (.congr ?_ Part.nesting_le)
  refine upTo_reaches (mayFollow 1) (reads_innerAt bound).expr ?_ ?_ ?_ (by decide) ?_
  · exact fun part hpart rest hrest =>
      innerExpr_reaches (fun bound => h part hpart bound rest hrest) bound
  · exact fun rest => gripsBelow_cons (by decide) rest
  · exact gripsBelow_cons (by decide) rest
  · exact fun part hpart rest => (hparts part hpart).head_ne_symbol (by decide) rest

private theorem postfixed_reaches {fits : Prop} {ts rest : List Token} {e : Expr}
    (h : Reaches fits (primary inner ts) (.ok (e, rest))) :
    Reaches fits (postfixed inner ts) (goOn inner 7 e rest) := h.finish rfl

private theorem selection_reaches {fits : Prop} {target e : Expr} {ts rest : List Token}
    (h : Reaches fits (selection? (innerAt bound) target ts) (.ok (some e, rest))) :
    Reaches fits (goOn (innerAt bound) 7 target ts) (goOn (innerAt bound) 7 e rest) :=
  extend_reaches (selection?_advances (reads_innerAt bound)) h

/-- Where nothing takes hold, a parser answers what it read. -/
theorem closed_of_goOn (hlow : 1 ≤ level) (hhigh : level ≤ 7) {fits : Prop} {e : Expr}
    {ts rest : List Token} (hrest : GripsBelow level rest)
    (h : Reaches fits (parserAt (innerAt bound) level ts) (goOn (innerAt bound) level e rest)) :
    Reaches fits (parserAt (innerAt bound) level ts) (.ok (e, rest)) := by
  rwa [goOn_end (reads_innerAt bound) hlow hhigh hrest] at h

private theorem primary_word {fits : Prop} {text : String} {ts rest : List Token} {e : Expr}
    (h : Reaches fits (wordExpr inner text (.word text :: ts)) (.ok (e, rest))) :
    Reaches fits (primary inner (.word text :: ts)) (.ok (e, rest)) :=
  .step (peek_eq_ok.2 ⟨rfl, rfl⟩) h

private theorem wordExpr_keyword {text : String}
    (h : (PrimitiveType.ofKeyword? text).isSome ∨ text = "void") :
    wordExpr inner text = keywordClassLiteral inner := by
  have hall : ∀ t ∈ ["true", "false", "null", "this", "new"],
      (PrimitiveType.ofKeyword? t).isSome = false ∧ t ≠ "void" := by decide
  have hne : ∀ t ∈ ["true", "false", "null", "this", "new"], text ≠ t := by
    rintro t ht rfl
    obtain ⟨hkeyword, hvoid⟩ := hall text ht
    simp [hkeyword, hvoid] at h
  have hboolean : ¬ (text = "true" ∨ text = "false") :=
    fun h => h.elim (hne "true" (by decide)) (hne "false" (by decide))
  rw [wordExpr, if_neg hboolean, if_neg (hne "null" (by decide)), if_neg (hne "this" (by decide)),
    if_neg (hne "new" (by decide)), if_pos h]

/-- Inside of an expression, types are read within what is left of the limit. -/
theorem readsTypes_innerAt (bound : Nat) : ReadsTypes (innerAt bound).refType bound := by
  rw [innerAt_refType]
  exact readsTypes_refTypeAt bound

private theorem chainStep_symbol (op : BinaryOp) {operand : Parser Expr} {fits : Prop} (left : Expr)
    {right : Expr} {ts rest : List Token} (h : Reaches fits (operand ts) (.ok (right, rest))) :
    Reaches fits (chainStep (operatorsAt op.precedence) operand left (.symbol op.symbol :: ts))
      (.ok (some (.binary op left right), rest)) := by
  have hfind : (operatorsAt op.precedence).find? (fun o =>
      decide (some (Token.symbol op.symbol) = some (.symbol o.symbol))) = some op := by
    cases op <;> decide
  refine .step (peek_eq_ok.2 ⟨rfl, rfl⟩) ?_
  rw [List.head?_cons, hfind]
  exact .step (skip_cons _ _) (h.finish rfl)

/-! ## The productions

One lemma for each way to spell an expression: if the parts are read, so is the whole. -/

namespace IsRead

variable {depth : Nat} {us : List Token} {e target : Expr}

/-- A primary is read alike whatever follows it. -/
theorem of_primary (h : ∀ bound rest, Reaches (depth ≤ bound) (primary (innerAt bound) (us ++ rest))
    (.ok (e, rest))) : IsRead 7 depth us e :=
  fun bound rest _ => postfixed_reaches (h bound rest)

private theorem natural {n : Nat} (hn : n < 2 ^ 63) :
    IsRead 7 0 [.integer n] (.integer (Int64.ofNat n)) :=
  of_primary fun _ _ => .of_eq (Nat.zero_le _) (integerLiteral_eq_ok.2 ⟨hn, rfl, rfl⟩)

private theorem boolean (value : Bool) :
    IsRead 7 0 [.word (if value then "true" else "false")] (.literal (.boolean value)) := by
  cases value with
  | true => exact of_primary fun _ _ => .of_eq (Nat.zero_le _) rfl
  | false => exact of_primary fun _ _ => .of_eq (Nat.zero_le _) rfl

/-- A name is no call where no parenthesis follows it. -/
theorem name (n : Name) : IsRead 7 0 [n.token] (.name n) := by
  intro bound rest hrest
  have hopen : atSymbol .leftParen rest = .ok (false, rest) :=
    atSymbol_eq_ok.2 ⟨by simp [hrest.head_ne (t := .symbol .leftParen) le_rfl], rfl⟩
  have hword : wordExpr (innerAt bound) n.text (n.token :: rest) = .ok (.name n, rest) := by
    rw [wordExpr_name]
    exact bind_eq_ok.2 ⟨n, rest, name_eq_ok.2 rfl, bind_eq_ok.2 ⟨false, rest, hopen, rfl⟩⟩
  exact postfixed_reaches (.of_eq (Nat.zero_le _) hword)

private theorem call (n : Name) {parts : List Part}
    (hparts : ∀ part ∈ parts, Spells 1 part.depth part.tokens part.expr)
    (h : ∀ part ∈ parts, IsRead 1 part.depth part.tokens part.expr) :
    IsRead 7 (Part.nesting parts) (n.token :: Part.list parts) (.call n (parts.map Part.expr)) := by
  apply of_primary
  intro bound rest
  have hargs := arguments_reaches hparts h bound rest
  refine primary_word ?_
  rw [wordExpr_name]
  refine .step (name_eq_ok.2 rfl) (.step (atSymbol_eq_ok.2 ⟨rfl, rfl⟩) ?_)
  exact hargs.finish rfl

private theorem create (type : ClassType) {parts : List Part}
    (hparts : ∀ part ∈ parts, Spells 1 part.depth part.tokens part.expr)
    (h : ∀ part ∈ parts, IsRead 1 part.depth part.tokens part.expr) :
    IsRead 7 (max type.toRef.nesting (Part.nesting parts))
      (.word "new" :: (type.tokens ++ Part.list parts)) (.create type (parts.map Part.expr)) := by
  apply of_primary
  intro bound rest
  have hargs := arguments_reaches hparts h bound rest
  have hends : EndsName (Part.list parts ++ rest) := endsName_of_head (by simp [Part.list])
  have htype := classType_reaches (readsTypes_innerAt bound) type hends (by simp [Part.list])
  rw [List.cons_append, List.append_assoc]
  refine primary_word (.congr ?_ Nat.max_le)
  rw [wordExpr, if_neg (by decide), if_neg (by decide), if_neg (by decide), if_pos rfl]
  exact .step (skip_cons _ _) (.bind htype (hargs.finish rfl))

private theorem keywordClass {type : Ty} (htype : type.isKeyword) :
    IsRead 7 0 (type.tokens ++ [.symbol .dot, .word "class"]) (.classLiteral type) := by
  apply of_primary
  intro bound rest
  obtain ⟨text, tail, htokens, htext⟩ := Ty.exists_keyword_tokens htype
  have hbracket : (.symbol .dot :: .word "class" :: rest).head? ≠
      some (Token.symbol .leftBracket) := by simp
  have hread := returnType_reaches (readsTypes_innerAt bound) type hbracket (by simp [htype])
  rw [Ty.nesting_of_isKeyword htype] at hread
  -- The first word of the type decides on the branch, and the whole type is read in it.
  rw [List.append_assoc, htokens, List.cons_append]
  refine primary_word ?_
  rw [wordExpr_keyword htext, ← List.cons_append, ← htokens]
  exact hread.finish rfl

/-- The class literal of a name is read as a selection on the expression that the name first is. -/
theorem nameClass {n : QualifiedName} (htarget : IsRead 7 depth us target)
    (hname : target.qualifiedName? = some n) :
    IsRead 7 depth (us ++ [.symbol .dot, .word "class"]) (.classLiteral (.ofClass (.plain n))) := by
  intro bound rest _
  have htarget' := htarget bound (.symbol .dot :: .word "class" :: rest)
    (gripsBelow_cons (by decide) _)
  rw [List.append_assoc]
  refine (htarget'.trans (selection_reaches (.of_eq trivial ?_))).congr (and_true _).symm.to_iff
  refine bind_eq_ok.2 ⟨_, _, remaining_eq_ok.2 ⟨rfl, rfl⟩, ?_⟩
  refine bind_eq_ok.2 ⟨true, _, symbol?_eq_ok.2 (.inl ⟨rfl, rfl⟩), ?_⟩
  refine bind_eq_ok.2 ⟨true, _, word?_eq_ok.2 (.inl ⟨rfl, rfl⟩), ?_⟩
  rw [if_pos rfl, hname]
  rfl

private theorem field (htarget : IsRead 7 depth us target) (n : Name) :
    IsRead 7 depth (us ++ [.symbol .dot, n.token]) (.field target n) := by
  intro bound rest hrest
  have hopen : atSymbol .leftParen rest = .ok (false, rest) :=
    atSymbol_eq_ok.2 ⟨by simp [hrest.head_ne (t := .symbol .leftParen) le_rfl], rfl⟩
  have htarget' := htarget bound (.symbol .dot :: n.token :: rest) (gripsBelow_cons (by decide) _)
  rw [List.append_assoc]
  refine (htarget'.trans (selection_reaches (.of_eq trivial ?_))).congr (and_true _).symm.to_iff
  refine bind_eq_ok.2 ⟨_, _, remaining_eq_ok.2 ⟨rfl, rfl⟩, ?_⟩
  refine bind_eq_ok.2 ⟨true, _, symbol?_eq_ok.2 (.inl ⟨rfl, rfl⟩), ?_⟩
  refine bind_eq_ok.2 ⟨false, _, word?_eq_ok.2 (.inr ⟨rfl, rfl, n.head_ne (by decide) rest⟩), ?_⟩
  exact bind_eq_ok.2 ⟨n, rest, name_eq_ok.2 rfl, bind_eq_ok.2 ⟨false, rest, hopen, rfl⟩⟩

private theorem callOn (htarget : IsRead 7 depth us target) (n : Name) {parts : List Part}
    (hparts : ∀ part ∈ parts, Spells 1 part.depth part.tokens part.expr)
    (h : ∀ part ∈ parts, IsRead 1 part.depth part.tokens part.expr) :
    IsRead 7 (max depth (Part.nesting parts)) (us ++ .symbol .dot :: n.token :: Part.list parts)
      (.callOn target n (parts.map Part.expr)) := by
  intro bound rest _
  have hargs := arguments_reaches hparts h bound rest
  have htarget' := htarget bound (.symbol .dot :: n.token :: (Part.list parts ++ rest))
    (gripsBelow_cons (by decide) _)
  rw [List.append_assoc]
  refine (htarget'.trans (selection_reaches ?_)).congr Nat.max_le
  refine .step (remaining_eq_ok.2 ⟨rfl, rfl⟩) ?_
  refine .step (symbol?_eq_ok.2 (.inl ⟨rfl, rfl⟩)) ?_
  refine .step (word?_eq_ok.2 (.inr ⟨rfl, rfl, n.head_ne (by decide) _⟩)) ?_
  refine .step (name_eq_ok.2 rfl) (.step (atSymbol_eq_ok.2 ⟨rfl, rfl⟩) ?_)
  exact hargs.finish rfl

private theorem paren (h : IsRead 1 depth us e) :
    IsRead 7 (depth + 1) (.symbol .leftParen :: (us ++ [.symbol .rightParen])) e := by
  apply of_primary
  intro bound rest
  have hinside := innerExpr_reaches (fun bound => h bound (.symbol .rightParen :: rest)
    (gripsBelow_cons (by decide) _)) bound
  rw [List.cons_append, List.append_assoc]
  refine .step (peek_eq_ok.2 ⟨rfl, rfl⟩) (.step (skip_cons _ _) ?_)
  exact hinside.finish (bind_eq_ok.2 ⟨(), rest, expect_eq_ok.2 rfl, rfl⟩)

private theorem negative {n : Nat} (hn : n ≤ 2 ^ 63) :
    IsRead 6 0 [.symbol .minus, .integer n] (.integer (Int64.ofInt (-n))) := by
  intro bound rest _
  refine .step (symbol?_eq_ok.2 (.inr ⟨rfl, rfl, by simp⟩)) ?_
  refine .step (symbol?_eq_ok.2 (.inl ⟨rfl, rfl⟩)) (.step (peek_eq_ok.2 ⟨rfl, rfl⟩) ?_)
  exact .of_eq (Nat.zero_le _) (negativeLiteral_eq_ok.2 ⟨hn, rfl, rfl⟩)

private theorem not (h : IsRead 6 depth us e) :
    IsRead 6 (depth + 1) (.symbol .bang :: us) (.unary .not e) := by
  intro bound rest hrest
  have hoperand := innerUnary_reaches (fun bound => h bound rest hrest) bound
  exact .step (symbol?_eq_ok.2 (.inl ⟨rfl, rfl⟩)) (hoperand.finish rfl)

/-- A minus sign in front of anything but an integer is an operator. -/
theorem neg (hspells : Spells 6 depth us e) (hinteger : ∀ n, us.head? ≠ some (.integer n))
    (h : IsRead 6 depth us e) : IsRead 6 (depth + 1) (.symbol .minus :: us) (.unary .neg e) := by
  intro bound rest hrest
  have hoperand := innerUnary_reaches (fun bound => h bound rest hrest) bound
  refine .step (symbol?_eq_ok.2 (.inr ⟨rfl, rfl, by simp⟩)) ?_
  refine .step (symbol?_eq_ok.2 (.inl ⟨rfl, rfl⟩)) (.step (peek_eq_ok.2 ⟨rfl, rfl⟩) ?_)
  obtain ⟨t, tail, rfl, -⟩ := hspells.exists_head
  cases t with
  | integer n => exact absurd rfl (hinteger n)
  | _ => exact hoperand.finish rfl

/-- Behind its left operand the parser of the level of an operator goes on with the operator. -/
theorem binary {op : BinaryOp} {dl dr : Nat} {vs : List Token} {left right : Expr}
    (hleft : IsRead op.precedence dl us left) (hright : IsRead (op.precedence + 1) dr vs right) :
    IsRead op.precedence (max dl dr) (us ++ .symbol op.symbol :: vs) (.binary op left right) := by
  intro bound rest hrest
  have hlevels : 2 ≤ op.precedence ∧ op.precedence ≤ 5 := by cases op <;> decide
  have hfollow : GripsBelow (op.precedence + 1) rest := by
    rwa [mayFollow, if_neg (by omega)] at hrest
  have hleft' := hleft bound (.symbol op.symbol :: (vs ++ rest)) (by
    rw [mayFollow, if_neg (by omega)]
    exact gripsBelow_cons (by rw [op.grip_symbol]; omega) _)
  have hright' := closed_of_goOn (by omega) (by omega) hfollow (hright bound rest (by
    rw [mayFollow, if_neg (by omega)]
    exact hfollow.mono (by omega)))
  have hstep := extend_reaches (chainStep_advances (parserAt_takes (reads_innerAt bound)
    (by omega) (by omega))) (chainStep_symbol op left hright')
  rw [goOn_chain hlevels.1 hlevels.2] at hleft' ⊢
  rw [List.append_assoc]
  exact (hleft'.trans hstep).congr Nat.max_le

private theorem assign {dt dv : Nat} {vs : List Token} {value : Expr}
    (htarget : IsRead 2 dt us target)
    (hassignable : target.isAssignable) (hvalue : IsRead 1 dv vs value) :
    IsRead 1 (max dt (dv + 1)) (us ++ .symbol .assign :: vs) (.assign target value) := by
  intro bound rest hrest
  have htarget' := closed_of_goOn (by decide) (by decide) (gripsBelow_cons (by decide) _)
    (htarget bound (.symbol .assign :: (vs ++ rest)) (gripsBelow_cons (by decide) _))
  have hvalue' := innerExpr_reaches (fun bound => hvalue bound rest hrest) bound
  rw [List.append_assoc]
  refine .step (remaining_eq_ok.2 ⟨rfl, rfl⟩) (.congr (.bind htarget' ?_) Nat.max_le)
  refine .step (symbol?_eq_ok.2 (.inl ⟨rfl, rfl⟩)) ?_
  rw [if_pos rfl, if_pos hassignable]
  exact hvalue'.finish rfl

/-- A spelling that binds tighter than its level begins with neither sign nor exclamation mark. -/
theorem unary_of_postfixed (hspells : Spells 7 depth us e) {fits : Prop} {rest : List Token}
    {bound : Nat} (h : Reaches fits (postfixed (innerAt bound) (us ++ rest)) (.ok (e, rest))) :
    Reaches fits (unary (innerAt bound) (us ++ rest)) (.ok (e, rest)) := by
  obtain ⟨t, tail, rfl, ht⟩ := hspells.exists_head
  have hno : ∀ s ∈ [Symbol.bang, .minus], symbol? s (t :: tail ++ rest) =
      .ok (false, t :: tail ++ rest) := by
    intro s hs
    refine symbol?_eq_ok.2 (.inr ⟨rfl, rfl, ?_⟩)
    rintro heq
    obtain rfl : t = .symbol s := by simpa using heq
    rcases ht with rfl | ⟨hle, -⟩
    · simp at hs
    · omega
  exact .step (hno .bang (by simp)) (.step (hno .minus (by simp)) h)

/-- The parser of a level first reads an operand of the next one. -/
theorem loosen {level : Nat} (hlevel : 1 ≤ level) (hspells : Spells (level + 1) depth us e)
    (h : IsRead (level + 1) depth us e) : IsRead level depth us e := by
  intro bound rest hrest
  have hhigh : level + 1 ≤ 7 := hspells.level_le.2
  have hfollow : GripsBelow (level + 1) rest := by
    refine hrest.mono ?_
    split <;> omega
  have hoperand := closed_of_goOn (by omega) hhigh hfollow (h bound rest (by
    rw [mayFollow, if_neg (by omega)]
    exact hfollow.mono (by omega)))
  by_cases hone : level = 1
  · subst hone
    have hassign : rest.head? ≠ some (.symbol .assign) :=
      @GripsBelow.head_ne 1 rest hrest _ le_rfl
    refine .step (remaining_eq_ok.2 ⟨rfl, rfl⟩) (hoperand.finish ?_)
    exact bind_eq_ok.2 ⟨false, rest, symbol?_eq_ok.2 (.inr ⟨rfl, rfl, hassign⟩), rfl⟩
  · by_cases hchain : level ≤ 5
    · rw [parserAt_chain (by omega) hchain]
      exact hoperand.finish rfl
    · obtain rfl : level = 6 := by omega
      exact unary_of_postfixed hspells hoperand

end IsRead

end Parser

/-- A parser reads the spellings of its level, and goes on behind them. -/
theorem Spells.reaches {level depth : Nat} {us : List Token} {e : Expr}
    (h : Spells level depth us e) : IsRead level depth us e := by
  induction h with
  | text | null | self => exact .of_primary fun _ _ => .of_eq (Nat.zero_le _) rfl
  | natural hn => exact .natural hn
  | boolean value => exact .boolean value
  | name n => exact .name n
  | call n parts hparts ih => exact .call n hparts ih
  | create type parts hparts ih => exact .create type hparts ih
  | keywordClass type htype => exact .keywordClass htype
  | nameClass _ hname ih => exact ih.nameClass hname
  | field _ n ih => exact ih.field n
  | callOn _ n parts hparts iht ih => exact iht.callOn n hparts ih
  | paren _ ih => exact ih.paren
  | negative hn => exact .negative hn
  | not _ ih => exact ih.not
  | neg h hinteger ih => exact .neg h hinteger ih
  | binary op _ _ ihl ihr => exact ihl.binary ihr
  | assign _ hassignable _ iht ihv => exact iht.assign hassignable ihv
  | loosen hlevel h ih => exact .loosen hlevel h ih

/-- An expression is read from any of its spellings that nests within the limit. -/
theorem expr_reaches {depth : Nat} {us : List Token} {e : Expr} (h : Spells 1 depth us e)
    {rest : List Token} (hrest : GripsBelow 1 rest) :
    Reaches (depth ≤ nestingLimit) (expr (us ++ rest)) (.ok (e, rest)) :=
  h.reaches nestingLimit rest hrest

end Stubwright.Source
