import Mathlib.Data.List.Chain
import Stubwright.Proofs.Source.DeclSpelling

/-!
# Statements are read back

Only what stands behind a type tells the declaration of a variable from an expression. In a spelled
expression no word stands right behind the end of a type, so that an expression is never taken for
a declaration.

## Main definitions

* `Apart` — tokens in which no word stands right behind the end of a type
* `SpellsStmt` — the tokens that spell a statement

## Main results

* `Spells.apart` — spelled expressions keep words apart
* `atLocal_spelling` — an expression does not begin a declaration
* `SpellsStmt.reaches` — a statement is read from the tokens that spell it
* `stmt_reaches`, `block_reaches` — statements are read from their tokens
-/

namespace Stubwright.Source

open Source.Parser

/-! ## Words behind types -/

/-- Whether a type may end with a token. -/
def Token.endsType : Token → Bool
  | .word text => text ≠ "new" ∧ text ≠ "extends" ∧ text ≠ "super"
  | .symbol s => s = .greater ∨ s = .rightBracket
  | _ => false

/-- Tokens in which no word stands right behind the end of a type. -/
def Apart (ts : List Token) : Prop :=
  ts.IsChain fun t s => t.endsType → ∀ text, s ≠ .word text

namespace Apart

variable {ts us : List Token}

private theorem singleton (t : Token) : Apart [t] := List.isChain_singleton t

/-- A token that ends no type may have anything behind it. -/
theorem cons {t : Token} (h : Apart ts) (ht : t.endsType = false) : Apart (t :: ts) :=
  List.isChain_cons.2 ⟨fun s _ hends => absurd hends (by simp [ht]), h⟩

/-- A symbol may stand behind anything. -/
theorem append_symbol {s : Symbol} (h : Apart ts) (h' : Apart (.symbol s :: us)) :
    Apart (ts ++ .symbol s :: us) := by
  refine List.isChain_append.2 ⟨h, h', fun t _ t' ht' _ text => ?_⟩
  obtain rfl : .symbol s = t' := by simpa using ht'
  exact Token.noConfusion

variable {ι : Type} {tokens : ι → List Token} {is : List ι}

private theorem append_more (hts : Apart ts) (h : ∀ i ∈ is, Apart (tokens i)) :
    Apart (ts ++ is.flatMap fun j => .symbol .comma :: tokens j) := by
  induction is generalizing ts with
  | nil => simpa using hts
  | cons i is ih =>
    have hitem := hts.append_symbol ((h i (by simp)).cons (t := .symbol .comma) rfl)
    simpa using ih hitem fun j hj => h j (by simp [hj])

private theorem commaTokens (h : ∀ i ∈ is, Apart (tokens i)) : Apart (commaTokens tokens is) := by
  cases is with
  | nil => exact List.isChain_nil
  | cons i is => exact (h i (by simp)).append_more fun j hj => h j (by simp [hj])

end Apart

/-! ## The tokens of types -/

/-- Whether a token may stand in a type. -/
def Token.inType : Token → Bool
  | .word _ => true
  | .symbol s => s ∈ [Symbol.dot, .comma, .less, .greater, .question, .leftBracket, .rightBracket]
  | _ => false

/-- Tokens that a type may have: they may all stand in types, and they keep words apart. -/
structure IsTypeText (ts : List Token) : Prop where
  apart : Apart ts
  inType : ∀ t ∈ ts, t.inType

private theorem Name.endsType_token (n : Name) : n.token.endsType := by
  have hne : ∀ text, ¬ IsName text → n.text ≠ text := by
    rintro text htext rfl
    exact htext n.isName
  simp [Name.token, Token.endsType, hne "new" (by decide), hne "extends" (by decide),
    hne "super" (by decide)]

private theorem PrimitiveType.endsType_keyword (p : PrimitiveType) :
    (Token.word p.keyword).endsType := by
  cases p <;> decide

namespace IsTypeText

variable {s : Symbol} {t : Token} {ts us : List Token}

private theorem word (text : String) :
    IsTypeText [.word text] := ⟨.singleton _, by simp [Token.inType]⟩

private theorem cons (h : IsTypeText ts) (ht : t.endsType = false) (hin : t.inType) :
    IsTypeText (t :: ts) :=
  ⟨h.apart.cons ht, List.forall_mem_cons.2 ⟨hin, h.inType⟩⟩

private theorem append_symbol (h : IsTypeText ts) (h' : IsTypeText (.symbol s :: us)) :
    IsTypeText (ts ++ .symbol s :: us) :=
  ⟨h.apart.append_symbol h'.apart, List.forall_mem_append.2 ⟨h.inType, h'.inType⟩⟩

private theorem brackets : IsTypeText [.symbol .leftBracket, .symbol .rightBracket] :=
  ⟨(Apart.singleton _).cons rfl, by decide⟩

private theorem commaTokens {args : List TypeArg} (h : ∀ arg ∈ args, IsTypeText arg.tokens) :
    IsTypeText (commaTokens TypeArg.tokens args) := by
  refine ⟨.commaTokens fun arg harg => (h arg harg).apart, fun t ht => ?_⟩
  cases args with
  | nil => simp at ht
  | cons arg args =>
    rw [commaTokens_cons, List.mem_append, List.mem_flatMap] at ht
    obtain ht | ⟨other, hother, ht⟩ := ht
    · exact (h arg (by simp)).inType t ht
    · obtain rfl | ht := List.mem_cons.1 ht
      · rfl
      · exact (h other (by simp [hother])).inType t ht

end IsTypeText

private theorem QualifiedName.isTypeText (q : QualifiedName) : IsTypeText q.tokens := by
  obtain ⟨first, names, rfl⟩ := q.exists_ofSegments
  rw [QualifiedName.tokens_ofSegments]
  induction names generalizing first with
  | nil => exact .word _
  | cons n names ih => exact (IsTypeText.word first.text).append_symbol ((ih n).cons rfl rfl)

mutual

private theorem RefType.isTypeText : (type : RefType) → IsTypeText type.tokens
  | .named name args => by
    have hargs := IsTypeText.commaTokens (TypeArg.isTypeText_of_mem args)
    rw [RefType.tokens_named]
    cases args with
    | nil => exact name.isTypeText
    | cons arg args =>
      have hclose : IsTypeText [.symbol .greater] := ⟨.singleton _, by decide⟩
      exact name.isTypeText.append_symbol ((hargs.append_symbol hclose).cons rfl rfl)
  | .primitiveArray element => by
    rw [RefType.tokens_primitiveArray]
    exact (IsTypeText.word element.keyword).append_symbol .brackets
  | .array element => by
    rw [RefType.tokens_array]
    exact element.isTypeText.append_symbol .brackets

theorem TypeArg.isTypeText : (arg : TypeArg) → IsTypeText arg.tokens
  | .exactly type => by
    rw [TypeArg.tokens_exactly]
    exact type.isTypeText
  | .any => ⟨.singleton _, by decide⟩
  | .subtypesOf bound => by
    rw [TypeArg.tokens_subtypesOf]
    exact (bound.isTypeText.cons (by decide) rfl).cons rfl rfl
  | .supertypesOf bound => by
    rw [TypeArg.tokens_supertypesOf]
    exact (bound.isTypeText.cons (by decide) rfl).cons rfl rfl

theorem TypeArg.isTypeText_of_mem :
    (args : List TypeArg) → ∀ arg ∈ args, IsTypeText arg.tokens
  | [] => by simp
  | first :: rest => by
    have hfirst := first.isTypeText
    have hrest := TypeArg.isTypeText_of_mem rest
    simpa using ⟨hfirst, hrest⟩

end

private theorem QualifiedName.exists_last (name : QualifiedName) :
    ∃ ts t, name.tokens = ts ++ [t] ∧ t.endsType := by
  obtain ⟨first, names, rfl⟩ := name.exists_ofSegments
  rw [QualifiedName.tokens_ofSegments]
  obtain rfl | ⟨names, n, rfl⟩ := names.eq_nil_or_concat
  · exact ⟨[], first.token, rfl, first.endsType_token⟩
  · exact ⟨first.token :: (names.flatMap (fun n => [.symbol .dot, n.token]) ++ [.symbol .dot]),
      n.token, by simp, n.endsType_token⟩

private theorem RefType.exists_last :
    (type : RefType) → ∃ ts t, type.tokens = ts ++ [t] ∧ t.endsType
  | .named name args => by
    obtain ⟨ts, t, htokens, ht⟩ := name.exists_last
    rw [RefType.tokens_named]
    cases args with
    | nil => exact ⟨ts, t, htokens, ht⟩
    | cons arg args =>
      exact ⟨name.tokens ++ .symbol .less :: commaTokens TypeArg.tokens (arg :: args),
        .symbol .greater, by simp, rfl⟩
  | .primitiveArray element =>
    ⟨[.word element.keyword, .symbol .leftBracket], .symbol .rightBracket, by simp, rfl⟩
  | .array element => ⟨element.tokens ++ [.symbol .leftBracket], .symbol .rightBracket, by simp, rfl⟩

/-- A type ends with a token that ends types. -/
theorem Ty.exists_last {type : Ty} (h : type ≠ .void) :
    ∃ ts t, type.tokens = ts ++ [t] ∧ t.endsType := by
  cases type with
  | void => exact absurd rfl h
  | primitive p => exact ⟨[], _, Ty.tokens_primitive p, p.endsType_keyword⟩
  | reference type => simpa using type.exists_last

/-- The tokens of a type may all stand in types and keep words apart. -/
theorem Ty.isTypeText (type : Ty) : IsTypeText type.tokens := by
  cases type with
  | void => exact .word _
  | primitive p => exact .word _
  | reference type => simpa using type.isTypeText

/-- Behind a type, a word does not stand apart. -/
theorem Ty.not_apart {type : Ty} (h : type ≠ .void) (text : String) (ts : List Token) :
    ¬ Apart (type.tokens ++ .word text :: ts) := by
  obtain ⟨us, t, htokens, ht⟩ := Ty.exists_last h
  rw [htokens, List.append_assoc]
  intro hapart
  have hchain := (List.isChain_append.1 hapart).2.1
  exact (List.isChain_cons_cons.1 hchain).1 ht text rfl

/-! ## Spelled expressions -/

private theorem Part.apart_list {parts : List Part} (h : ∀ part ∈ parts, Apart part.tokens) :
    Apart (Part.list parts) := by
  have hcommas := (Apart.commaTokens h).append_symbol (s := .rightParen) (.singleton _)
  exact hcommas.cons rfl

/-- Spelled expressions keep words apart. -/
theorem Spells.apart {level depth : Nat} {us : List Token} {e : Expr}
    (h : Spells level depth us e) : Apart us := by
  induction h with
  | text | natural | boolean | null | self | name => exact .singleton _
  | call n parts _ ih => exact (Apart.singleton n.token).append_symbol (Part.apart_list ih)
  | create type parts _ ih =>
    have htype : Apart type.tokens := (RefType.isTypeText type.toRef).apart
    exact (htype.append_symbol (Part.apart_list ih)).cons (by decide)
  | keywordClass type => exact type.isTypeText.apart.append_symbol ((Apart.singleton _).cons rfl)
  | nameClass _ _ ih | field _ _ ih => exact ih.append_symbol ((Apart.singleton _).cons rfl)
  | callOn _ n parts _ iht ih =>
    have hcall := (Apart.singleton n.token).append_symbol (Part.apart_list ih)
    exact iht.append_symbol (hcall.cons rfl)
  | paren _ ih => exact (ih.append_symbol (.singleton _)).cons rfl
  | negative => exact (Apart.singleton _).cons rfl
  | not _ ih | neg _ _ ih => exact ih.cons rfl
  | binary op _ _ ihl ihr => exact ihl.append_symbol (ihr.cons (by cases op <;> rfl))
  | assign _ _ _ iht ihv => exact iht.append_symbol (ihv.cons rfl)
  | loosen _ _ ih => exact ih

namespace Parser

/-! ## Local variables and expressions -/

/-- The types of a declaration are read within the limit. -/
theorem readsTypes_firstInner : ReadsTypes firstInner.refType nestingLimit :=
  readsTypes_innerAt nestingLimit

/-- A type in front of a name is read. -/
theorem outerType_name {type : Ty} (h : type.IsVariable) (n : Name) (rest : List Token) :
    outerType (type.tokens ++ n.token :: rest) = .ok (type, n.token :: rest) := by
  refine (type_reaches readsTypes_firstInner h.1 ?_ fun _ => ⟨endsName_of_head ?_, ?_⟩).1 h.2
  · simp [Name.token]
  · simp [Name.token]
  · simp [Name.token]

/-- An expression in front of a semicolon does not begin the declaration of a variable. -/
theorem atLocal_spelling {level depth : Nat} {us : List Token} {e : Expr}
    (h : Spells level depth us e) (rest : List Token) :
    atLocal (us ++ .symbol .semicolon :: rest) = .ok (false, us ++ .symbol .semicolon :: rest) := by
  -- A type with a word behind it would end inside the expression or go on behind it.
  have hno : ∀ (type : Ty) text tail, outerType (us ++ .symbol .semicolon :: rest) ≠
      .ok (type, .word text :: tail) := by
    intro type text tail hread
    obtain ⟨_, hus, rfl, hvariable⟩ := outerType_takes _ _ _ hread
    obtain ⟨vs, hvs, hrest⟩ | ⟨vs, hvs, hrest⟩ := List.append_eq_append_iff.1 hus
    · cases vs with
      | nil => simp at hrest
      | cons v vs =>
        obtain ⟨rfl, -⟩ : v = .symbol .semicolon ∧ _ := by simpa [eq_comm] using hrest
        exact absurd (type.isTypeText.inType (.symbol .semicolon) (by simp [hvs])) (by decide)
    · cases vs with
      | nil => simp at hrest
      | cons v vs =>
        obtain ⟨rfl, -⟩ : v = .word text ∧ _ := by simpa [eq_comm] using hrest
        refine Ty.not_apart hvariable.1 text vs ?_
        rw [← hvs]
        exact h.apart
  unfold atLocal
  split
  · rename_i heq
    exact absurd heq (hno _ _ _)
  · rename_i heq
    exact absurd heq (hno _ _ _)
  · rfl

end Parser

/-! ## Expressions as they are printed -/

/-- An expression whose printed tokens spell it. -/
structure Expr.IsSpelled (e : Expr) : Prop where
  readable : e.isReadable
  strayMinuses : e.strayMinuses = 0

/-- Expressions that are printed within the limit of nesting. -/
def Expr.AllFit (es : List Expr) : Prop := ∀ e ∈ es, e.nesting ≤ nestingLimit

namespace Expr

@[simp] theorem allFit_nil : AllFit [] := by simp [AllFit]

@[simp] theorem allFit_cons (e : Expr) (es : List Expr) :
    AllFit (e :: es) ↔ e.nesting ≤ nestingLimit ∧ AllFit es := List.forall_mem_cons

@[simp] theorem allFit_append (es fs : List Expr) : AllFit (es ++ fs) ↔ AllFit es ∧ AllFit fs :=
  List.forall_mem_append

@[simp] theorem allFit_flatMap {α : Type} (f : α → List Expr) (xs : List α) :
    AllFit (xs.flatMap f) ↔ ∀ x ∈ xs, AllFit (f x) := by
  induction xs with
  | nil => simp
  | cons x xs ih => simp [ih]

theorem IsSpelled.spells {e : Expr} (h : e.IsSpelled) : Spells 1 e.nesting e.tokens e :=
  (e.spells_tokens h.readable h.strayMinuses).loosen_to le_rfl e.one_le_precedence

end Expr

namespace Parser

private theorem initValue_none (rest : List Token) :
    initValue (.symbol .semicolon :: rest) = .ok (none, .symbol .semicolon :: rest) :=
  bind_eq_ok.2 ⟨false, _, symbol?_eq_ok.2 (.inr ⟨rfl, rfl, by simp⟩), rfl⟩

section Spelled

variable {depth : Nat} {us : List Token} {e : Expr}

private theorem initValue_some (h : Spells 1 depth us e) (rest : List Token) :
    Reaches (depth ≤ nestingLimit)
      (initValue (.symbol .assign :: (us ++ .symbol .semicolon :: rest)))
      (.ok (some e, .symbol .semicolon :: rest)) := by
  have hvalue := expr_reaches h (gripsBelow_cons (t := .symbol .semicolon) (by decide) rest)
  exact .step (symbol?_eq_ok.2 (.inl ⟨rfl, rfl⟩)) (hvalue.map some)

/-- An expression is read up to the semicolon that ends the statement. -/
theorem exprStmt_reaches {what : String} {make : Expr → Stmt} (h : Spells 1 depth us e)
    (rest : List Token) :
    Reaches (depth ≤ nestingLimit)
      ((do let value ← expr; expect .semicolon what; return make value : Parser Stmt)
        (us ++ .symbol .semicolon :: rest)) (.ok (make e, rest)) := by
  have hvalue := expr_reaches h (gripsBelow_cons (t := .symbol .semicolon) (by decide) rest)
  exact hvalue.finish (bind_eq_ok.2 ⟨(), rest, expect_eq_ok.2 rfl, rfl⟩)

end Spelled

/-- The initial value of a variable is read up to the semicolon behind it. -/
theorem initValue_reaches (init : Option Expr) (h : ∀ e ∈ init.toList, e.IsSpelled)
    (rest : List Token) :
    Reaches (Expr.AllFit init.toList) (initValue (initTokens init ++ .symbol .semicolon :: rest))
      (.ok (init, .symbol .semicolon :: rest)) := by
  cases init with
  | none => exact .of_eq (by simp) (initValue_none rest)
  | some value => exact (initValue_some (h value (by simp)).spells rest).congr (by simp)

/-- A type, a name and an equals sign or a semicolon begin the declaration of a variable. -/
theorem atLocal_declare {type : Ty} (h : type.IsVariable) (n : Name) {next : Symbol}
    (hnext : next = .assign ∨ next = .semicolon) (rest : List Token) :
    atLocal (type.tokens ++ n.token :: .symbol next :: rest) =
      .ok (true, type.tokens ++ n.token :: .symbol next :: rest) := by
  unfold atLocal
  rw [outerType_name h n]
  rcases hnext with rfl | rfl <;> rfl

private theorem localVariable_reaches {type : Ty} (htype : type.IsVariable) (n : Name)
    {init : Option Expr} {fits : Prop} {ts rest : List Token}
    (hinit : Reaches fits (initValue ts) (.ok (init, .symbol .semicolon :: rest))) :
    Reaches fits (localVariable (type.tokens ++ n.token :: ts)) (.ok (.declare type n init, rest)) := by
  refine .step (outerType_name htype n _) (.step (name_eq_ok.2 rfl) ?_)
  exact hinit.finish (bind_eq_ok.2 ⟨(), rest, expect_eq_ok.2 rfl, rfl⟩)

/-- Tokens that do not begin with the keyword of a statement. -/
theorem stmt_other {ts : List Token} (hreturn : ts.head? ≠ some (.word "return"))
    (hthrow : ts.head? ≠ some (.word "throw")) {isLocal : Bool}
    (hlocal : atLocal ts = .ok (isLocal, ts)) {fits : Prop}
    {next : Except ParseFailure (Stmt × List Token)}
    (h : Reaches fits ((if isLocal then localVariable else do
      let value ← expr
      expect .semicolon "';' after expression statement"
      return .eval value) ts) next) : Reaches fits (stmt ts) next := by
  refine .step (word?_eq_ok.2 (.inr ⟨rfl, rfl, hreturn⟩)) ?_
  refine .step (word?_eq_ok.2 (.inr ⟨rfl, rfl, hthrow⟩)) ?_
  refine .step hlocal ?_
  cases isLocal <;> exact h

end Parser

/-! ## Spelled statements -/

/-- Tokens that spell a statement, with the depth of the expression in it. -/
inductive SpellsStmt : Nat → List Token → Stmt → Prop where
  | eval {depth : Nat} {us : List Token} {e : Expr} (h : Spells 1 depth us e) :
      SpellsStmt depth (us ++ [.symbol .semicolon]) (.eval e)
  | returnsNothing : SpellsStmt 0 [.word "return", .symbol .semicolon] (.returns none)
  | returns {depth : Nat} {us : List Token} {e : Expr} (h : Spells 1 depth us e) :
      SpellsStmt depth (.word "return" :: (us ++ [.symbol .semicolon])) (.returns (some e))
  | throws {depth : Nat} {us : List Token} {e : Expr} (h : Spells 1 depth us e) :
      SpellsStmt depth (.word "throw" :: (us ++ [.symbol .semicolon])) (.throws e)
  | declare {type : Ty} (htype : type.IsVariable) (n : Name) :
      SpellsStmt 0 (type.tokens ++ [n.token, .symbol .semicolon]) (.declare type n none)
  | define {type : Ty} (htype : type.IsVariable) (n : Name) {depth : Nat} {us : List Token}
      {e : Expr} (h : Spells 1 depth us e) :
      SpellsStmt depth (type.tokens ++ n.token :: .symbol .assign :: (us ++ [.symbol .semicolon]))
        (.declare type n (some e))

namespace SpellsStmt

variable {depth : Nat} {us : List Token} {s : Stmt}

/-- The first word of a type is not the keyword of a statement. -/
theorem head_type_ne {type : Ty} (h : type.IsVariable) {text : String} (htext : ¬ IsTypeWord text)
    (ts : List Token) : (type.tokens ++ ts).head? ≠ some (.word text) := by
  obtain ⟨first, tail, htokens, hword⟩ := Ty.exists_tokens h.1
  rintro hhead
  obtain rfl : first = text := by simpa [htokens] using hhead
  exact htext hword

/-- A statement is read from the tokens that spell it, whatever follows. -/
theorem reaches (h : SpellsStmt depth us s) (rest : List Token) :
    Reaches (depth ≤ nestingLimit) (stmt (us ++ rest)) (.ok (s, rest)) := by
  cases h with
  | eval h =>
    rw [List.append_assoc]
    exact stmt_other (h.head_ne_word (by decide) _) (h.head_ne_word (by decide) _)
      (atLocal_spelling h rest) (exprStmt_reaches h rest)
  | returnsNothing =>
    refine .step (word?_eq_ok.2 (.inl ⟨rfl, rfl⟩)) ?_
    exact .step (symbol?_eq_ok.2 (.inl ⟨rfl, rfl⟩)) (.of_eq (Nat.zero_le _) rfl)
  | returns h =>
    have hopen := h.head_ne_symbol (s := .semicolon) (by decide) (.symbol .semicolon :: rest)
    rw [List.cons_append, List.append_assoc]
    refine .step (word?_eq_ok.2 (.inl ⟨rfl, rfl⟩)) ?_
    exact .step (symbol?_eq_ok.2 (.inr ⟨rfl, rfl, hopen⟩)) (exprStmt_reaches h rest)
  | throws h =>
    rw [List.cons_append, List.append_assoc]
    refine .step (word?_eq_ok.2 (.inr ⟨rfl, rfl, by simp⟩)) ?_
    exact .step (word?_eq_ok.2 (.inl ⟨rfl, rfl⟩)) (exprStmt_reaches h rest)
  | declare htype n =>
    rw [List.append_assoc]
    exact stmt_other (head_type_ne htype (by decide) _) (head_type_ne htype (by decide) _)
      (atLocal_declare htype n (.inr rfl) rest)
      (localVariable_reaches htype n (.of_eq (Nat.zero_le _) (initValue_none rest)))
  | define htype n h =>
    rw [List.append_assoc, List.cons_append, List.cons_append, List.append_assoc]
    exact stmt_other (head_type_ne htype (by decide) _) (head_type_ne htype (by decide) _)
      (atLocal_declare htype n (.inl rfl) _)
      (localVariable_reaches htype n (initValue_some h rest))

/-- A spelled statement does not begin with a brace. -/
theorem exists_head (h : SpellsStmt depth us s) :
    ∃ t tail, us = t :: tail ∧ t ≠ .symbol .rightBrace := by
  cases h with
  | eval h =>
    obtain ⟨t, tail, htokens, -⟩ := h.exists_head
    have hne := h.head_ne_symbol (s := .rightBrace) (by decide) []
    exact ⟨t, tail ++ [.symbol .semicolon], by simp [htokens], by simpa [htokens] using hne⟩
  | returnsNothing | returns | throws => exact ⟨_, _, rfl, by simp⟩
  | declare htype n | define htype n h =>
    obtain ⟨text, tail, htokens, -⟩ := Ty.exists_tokens htype.1
    exact ⟨.word text, _, by rw [htokens, List.cons_append], by simp⟩

end SpellsStmt

/-- A statement is spelled by its canonical tokens. -/
theorem Stmt.exists_spells {stmt : Stmt} (hwritable : stmt.IsWritable)
    (h : ∀ e ∈ stmt.exprs, e.IsSpelled) :
    ∃ depth, SpellsStmt depth stmt.tokens stmt ∧
      (depth ≤ nestingLimit ↔ Expr.AllFit stmt.exprs) := by
  have hspells : ∀ e ∈ stmt.exprs, Spells 1 e.nesting e.tokens e := fun e he => (h e he).spells
  cases stmt with
  | eval value => exact ⟨_, .eval (hspells value (by simp [exprs])), by simp [exprs]⟩
  | returns value =>
    cases value with
    | none => exact ⟨0, .returnsNothing, by simp [exprs]⟩
    | some value => exact ⟨_, .returns (hspells value (by simp [exprs])), by simp [exprs]⟩
  | throws value => exact ⟨_, .throws (hspells value (by simp [exprs])), by simp [exprs]⟩
  | declare type n init =>
    cases init with
    | none => exact ⟨0, .declare hwritable n, by simp [exprs]⟩
    | some value => exact ⟨_, .define hwritable n (hspells value (by simp [exprs])), by simp [exprs]⟩

namespace Parser

/-- A statement is read from its tokens, whatever follows. -/
theorem stmt_reaches {stmt : Stmt} (hwritable : stmt.IsWritable)
    (h : ∀ e ∈ stmt.exprs, e.IsSpelled) (rest : List Token) :
    Reaches (Expr.AllFit stmt.exprs) (Parser.stmt (stmt.tokens ++ rest)) (.ok (stmt, rest)) := by
  obtain ⟨depth, hspells, hfits⟩ := Stmt.exists_spells hwritable h
  exact (hspells.reaches rest).congr hfits.symm

/-! ## Blocks -/

/-- What stands between braces is read item by item, when no item begins with a closing brace. -/
theorem untilBrace_reaches {α : Type} {what : String} {item : Parser α}
    {R : List Token → α → Prop} {tokens : α → List Token} {fits : α → Prop}
    (htakes : Takes item R) (hne : ∀ a, ¬ R [] a) {as : List α}
    (hitem : ∀ a ∈ as, ∀ rest, Reaches (fits a) (item (tokens a ++ rest)) (.ok (a, rest)))
    (hstart : ∀ a ∈ as, ∃ t tail, tokens a = t :: tail ∧ t ≠ .symbol .rightBrace)
    (rest : List Token) :
    Reaches (∀ a ∈ as, fits a)
      (untilBrace what item (as.flatMap tokens ++ .symbol .rightBrace :: rest)) (.ok (as, rest)) := by
  have hmany : Reaches (∀ a ∈ as, fits a)
      (many (braceItem what item) (as.flatMap tokens ++ .symbol .rightBrace :: rest))
      (.ok (as.map id, rest)) := by
    refine many_reaches (fun _ => True) (braceItem_advances htakes hne) ?_
      (by simp) trivial ?_
    · intro a ha rest _
      obtain ⟨t, tail, htokens, ht⟩ := hstart a ha
      have hread := (hitem a ha rest).map some
      rw [htokens] at hread ⊢
      refine .step (symbol?_eq_ok.2 (.inr ⟨rfl, rfl, by simpa using ht⟩)) ?_
      exact .step (peek_eq_ok.2 ⟨rfl, rfl⟩) hread
    · exact bind_eq_ok.2 ⟨true, rest, symbol?_eq_ok.2 (.inl ⟨rfl, rfl⟩), rfl⟩
  rwa [List.map_id] at hmany

private theorem stmt_exists_head {stmt : Stmt} (hwritable : stmt.IsWritable)
    (h : ∀ e ∈ stmt.exprs, e.IsSpelled) :
    ∃ t tail, stmt.tokens = t :: tail ∧ t ≠ .symbol .rightBrace := by
  obtain ⟨depth, hspells, -⟩ := Stmt.exists_spells hwritable h
  exact hspells.exists_head

/-- A block is read from its tokens, whatever follows. -/
theorem block_reaches {body : List Stmt} (hwritable : ∀ stmt ∈ body, stmt.IsWritable)
    (h : ∀ e ∈ body.flatMap Stmt.exprs, e.IsSpelled) (rest : List Token) :
    Reaches (Expr.AllFit (body.flatMap Stmt.exprs)) (block (blockTokens body ++ rest))
      (.ok (body, rest)) := by
  have hstmt : ∀ stmt ∈ body, ∀ e ∈ stmt.exprs, e.IsSpelled :=
    fun stmt hstmt e he => h e (List.mem_flatMap.2 ⟨stmt, hstmt, he⟩)
  have hopen : expect .leftBrace "'\x7b' to open block" (blockTokens body ++ rest) =
      .ok ((), body.flatMap Stmt.tokens ++ .symbol .rightBrace :: rest) :=
    expect_eq_ok.2 (by simp [blockTokens])
  refine .step hopen (.congr ?_ (Expr.allFit_flatMap _ _))
  exact untilBrace_reaches stmt_takes stmt_not_nil
    (fun stmt hmem rest => stmt_reaches (hwritable stmt hmem) (hstmt stmt hmem) rest)
    (fun stmt hmem => stmt_exists_head (hwritable stmt hmem) (hstmt stmt hmem)) rest

end Parser

end Stubwright.Source
