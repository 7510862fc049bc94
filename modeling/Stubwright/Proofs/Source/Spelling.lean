import Stubwright.Proofs.Source.Types
import Stubwright.Source.Parser.Expr

/-!
# The spellings of expressions

An expression has many spellings: any part of it may stand in parentheses. `Spells` is the grammar
that the parser follows, with one rule for each form at the level where it stands, and it counts how
deep a spelling nests. Whatever the parser reads is spelled by these rules.

## Main definitions

* `Spells` — the tokens that spell an expression at a level of precedence
* `Inner.Reads` — parsers that stay within a number of levels

## Main results

* `reads_innerAt` — a budget of levels bounds the nesting of what is read
* `expr_takes` — what is read for an expression is one of its spellings
-/

namespace Stubwright.Source

open Source.Parser

/-! ## The rules -/

/-- An argument of a call: how deep its spelling nests, the tokens, and the expression. -/
structure Part where
  depth : Nat
  tokens : List Token
  expr : Expr

namespace Part

/-- How deep arguments make the call around them nest. -/
def nesting : List Part → Nat
  | [] => 0
  | part :: rest => max (part.depth + 1) (nesting rest)

/-- The tokens of arguments in parentheses. -/
def list (parts : List Part) : List Token :=
  .symbol .leftParen :: (commaTokens tokens parts ++ [.symbol .rightParen])

/-- Parts nest one level deeper than the deepest of them. -/
theorem nesting_le {parts : List Part} {bound : Nat} :
    nesting parts ≤ bound ↔ ∀ part ∈ parts, part.depth + 1 ≤ bound := by
  induction parts with
  | nil => simp [nesting]
  | cons part rest ih => simp only [nesting, Nat.max_le, ih, List.forall_mem_cons]

end Part

/-- `Spells level depth tokens e`: the tokens spell `e` where an expression of this level of
precedence is asked for, and nest `depth` levels deep. Level 1 admits every expression, and level 7
those without operators in front or between. -/
inductive Spells : Nat → Nat → List Token → Expr → Prop
  | text (value : String) : Spells 7 0 [.quoted value] (.text value)
  | natural {n : Nat} (hn : n < 2 ^ 63) : Spells 7 0 [.integer n] (.integer (Int64.ofNat n))
  | boolean (value : Bool) :
    Spells 7 0 [.word (if value then "true" else "false")] (.literal (.boolean value))
  | null : Spells 7 0 [.word "null"] .null
  | self : Spells 7 0 [.word "this"] .self
  | name (n : Name) : Spells 7 0 [n.token] (.name n)
  | call (n : Name) (parts : List Part)
    (hparts : ∀ part ∈ parts, Spells 1 part.depth part.tokens part.expr) :
    Spells 7 (Part.nesting parts) (n.token :: Part.list parts) (.call n (parts.map Part.expr))
  | create (type : ClassType) (parts : List Part)
    (hparts : ∀ part ∈ parts, Spells 1 part.depth part.tokens part.expr) :
    Spells 7 (max type.toRef.nesting (Part.nesting parts))
      (.word "new" :: (type.tokens ++ Part.list parts)) (.create type (parts.map Part.expr))
  | keywordClass (type : Ty) (htype : type.isKeyword) :
    Spells 7 0 (type.tokens ++ [.symbol .dot, .word "class"]) (.classLiteral type)
  | nameClass {depth : Nat} {us : List Token} {target : Expr} {n : QualifiedName}
    (htarget : Spells 7 depth us target) (hname : target.qualifiedName? = some n) :
    Spells 7 depth (us ++ [.symbol .dot, .word "class"]) (.classLiteral (.ofClass (.plain n)))
  | field {depth : Nat} {us : List Token} {target : Expr} (htarget : Spells 7 depth us target)
    (n : Name) : Spells 7 depth (us ++ [.symbol .dot, n.token]) (.field target n)
  | callOn {depth : Nat} {us : List Token} {target : Expr} (htarget : Spells 7 depth us target)
    (n : Name) (parts : List Part)
    (hparts : ∀ part ∈ parts, Spells 1 part.depth part.tokens part.expr) :
    Spells 7 (max depth (Part.nesting parts)) (us ++ .symbol .dot :: n.token :: Part.list parts)
      (.callOn target n (parts.map Part.expr))
  | paren {depth : Nat} {us : List Token} {e : Expr} (h : Spells 1 depth us e) :
    Spells 7 (depth + 1) (.symbol .leftParen :: (us ++ [.symbol .rightParen])) e
  | negative {n : Nat} (hn : n ≤ 2 ^ 63) :
    Spells 6 0 [.symbol .minus, .integer n] (.integer (Int64.ofInt (-n)))
  | not {depth : Nat} {us : List Token} {e : Expr} (h : Spells 6 depth us e) :
    Spells 6 (depth + 1) (.symbol .bang :: us) (.unary .not e)
  | neg {depth : Nat} {us : List Token} {e : Expr} (h : Spells 6 depth us e)
    (hinteger : ∀ n, us.head? ≠ some (.integer n)) :
    Spells 6 (depth + 1) (.symbol .minus :: us) (.unary .neg e)
  | binary (op : BinaryOp) {dl dr : Nat} {us vs : List Token} {left right : Expr}
    (hleft : Spells op.precedence dl us left)
    (hright : Spells (op.precedence + 1) dr vs right) :
    Spells op.precedence (max dl dr) (us ++ .symbol op.symbol :: vs) (.binary op left right)
  | assign {dt dv : Nat} {us vs : List Token} {target value : Expr} (htarget : Spells 2 dt us target)
    (hassignable : target.isAssignable) (hvalue : Spells 1 dv vs value) :
    Spells 1 (max dt (dv + 1)) (us ++ .symbol .assign :: vs) (.assign target value)
  | loosen {level depth : Nat} {us : List Token} {e : Expr} (hlevel : 1 ≤ level)
    (h : Spells (level + 1) depth us e) : Spells level depth us e

namespace Spells

variable {level depth : Nat} {us : List Token} {e : Expr}

/-- There are seven levels, from assignments to operands. -/
theorem level_le (h : Spells level depth us e) : 1 ≤ level ∧ level ≤ 7 := by
  induction h with
  | binary op => cases op <;> simp [BinaryOp.precedence]
  | loosen hlevel _ ih => omega
  | _ => omega

/-- A spelling at a tight level also stands where a looser one is asked for. -/
theorem loosen_to (h : Spells level depth us e) {least : Nat} (hone : 1 ≤ least)
    (hle : least ≤ level) : Spells least depth us e := by
  induction hle with
  | refl => exact h
  | step hle ih => exact ih (.loosen (hone.trans hle) h)

end Spells

/-- Tokens that spell an expression at a level and nest at most `bound` levels deep. -/
def SpellsWithin (level bound : Nat) (us : List Token) (e : Expr) : Prop :=
  ∃ depth, depth ≤ bound ∧ Spells level depth us e

private theorem SpellsWithin.loosen {level bound : Nat} {us : List Token} {e : Expr}
    (hlevel : 1 ≤ level)
    (h : SpellsWithin (level + 1) bound us e) : SpellsWithin level bound us e := by
  obtain ⟨depth, hdepth, h⟩ := h
  exact ⟨depth, hdepth, .loosen hlevel h⟩

/-! ## What is read for an expression -/

/-- Parsers that read what nests less than `bound` levels deep. -/
structure Inner.Reads (inner : Inner) (bound : Nat) : Prop where
  expr : Takes inner.expr fun us e => ∃ depth, depth + 1 ≤ bound ∧ Spells 1 depth us e
  unary : Takes inner.unary fun us e => ∃ depth, depth + 1 ≤ bound ∧ Spells 6 depth us e
  refType : Takes inner.refType fun us type => us = type.tokens ∧ type.nesting + 1 ≤ bound

namespace Parser

variable {inner : Inner} {bound : Nat}

/-- Arguments are read from parts, of which each spells one. -/
theorem arguments_takes (hinner : inner.Reads bound) :
    Takes (arguments inner) fun us args => ∃ parts : List Part,
      (∀ part ∈ parts, part.depth + 1 ≤ bound ∧ Spells 1 part.depth part.tokens part.expr) ∧
        us = Part.list parts ∧ args = parts.map Part.expr := by
  intro ts args rest h
  obtain ⟨_, ts', hopen, hthen⟩ := bind_eq_ok.1 h
  obtain rfl := expect_eq_ok.1 hopen
  have hitem : Takes inner.expr fun us e => ∃ part : Part,
      (part.depth + 1 ≤ bound ∧ Spells 1 part.depth part.tokens part.expr) ∧
        us = part.tokens ∧ e = part.expr :=
    hinner.expr.imp fun us e ⟨depth, hdepth, he⟩ => ⟨⟨depth, us, e⟩, ⟨hdepth, he⟩, rfl, rfl⟩
  obtain ⟨_, rfl, parts, hparts, rfl, rfl⟩ := upTo_takes hitem _ _ _ hthen
  exact ⟨Part.list parts, by simp [Part.list], parts, hparts, rfl, rfl⟩

private theorem creation_takes (hinner : inner.Reads bound) :
    Takes (creation inner) fun us e => SpellsWithin 7 bound (.word "new" :: us) e := by
  intro ts e rest h
  obtain ⟨type, ts', htype, hthen⟩ := bind_eq_ok.1 h
  obtain ⟨_, rfl, rfl, hnesting⟩ := classType_takes hinner.refType _ _ _ htype
  obtain ⟨args, ts'', hargs, hlast⟩ := bind_eq_ok.1 hthen
  obtain ⟨_, rfl, parts, hparts, rfl, rfl⟩ := arguments_takes hinner _ _ _ hargs
  obtain ⟨rfl, rfl⟩ := pure_eq_ok.1 hlast
  refine ⟨type.tokens ++ Part.list parts, by simp, _, ?_,
    .create type parts fun p hp => (hparts p hp).2⟩
  exact Nat.max_le.2 ⟨hnesting, Part.nesting_le.2 fun p hp => (hparts p hp).1⟩

private theorem nameOrCall_takes (hinner : inner.Reads bound) :
    Takes (nameOrCall inner) (SpellsWithin 7 bound) := by
  intro ts e rest h
  obtain ⟨n, ts', hname, hthen⟩ := bind_eq_ok.1 h
  obtain rfl := name_eq_ok.1 hname
  obtain ⟨opened, ts'', hopened, hlast⟩ := bind_eq_ok.1 hthen
  obtain ⟨-, rfl⟩ := atSymbol_eq_ok.1 hopened
  cases opened with
  | true =>
    obtain ⟨args, ts₃, hargs, hdone⟩ := bind_eq_ok.1 hlast
    obtain ⟨_, rfl, parts, hparts, rfl, rfl⟩ := arguments_takes hinner _ _ _ hargs
    obtain ⟨rfl, rfl⟩ := pure_eq_ok.1 hdone
    refine ⟨n.token :: Part.list parts, by simp, _, ?_, .call n parts fun p hp => (hparts p hp).2⟩
    exact Part.nesting_le.2 fun p hp => (hparts p hp).1
  | false =>
    obtain ⟨rfl, rfl⟩ := pure_eq_ok.1 hlast
    exact ⟨[n.token], rfl, 0, Nat.zero_le _, .name n⟩

/-- The next token is read for a value that is known already. -/
theorem skip_return_eq_ok {a e : Expr} {ts rest : List Token} :
    (do skip; return a : Parser Expr) ts = .ok (e, rest) ↔ e = a ∧ rest = ts.drop 1 := by
  simp only [bind_eq_ok, skip_eq_ok, pure_eq_ok]
  constructor
  · rintro ⟨_, _, rfl, rfl, rfl⟩
    exact ⟨rfl, rfl⟩
  · rintro ⟨rfl, rfl⟩
    exact ⟨(), _, rfl, rfl, rfl⟩

/-- A type that begins with a keyword is read only where a keyword stands. -/
theorem isKeyword_of_tokens {type : Ty} {text : String} {tail rest : List Token}
    (htokens : type.tokens ++ rest = .word text :: tail) (htext : ¬ IsName text) :
    type.isKeyword = true := by
  cases hkeyword : type.isKeyword with
  | true => rfl
  | false =>
    obtain ⟨first, tail', hfirst⟩ := Ty.exists_name_tokens hkeyword
    obtain ⟨rfl, -⟩ : first.text = text ∧ _ := by simpa [hfirst, Name.token] using htokens
    exact absurd first.isName htext

private theorem keywordClassLiteral_takes (hinner : inner.Reads bound) {text : String}
    {ts rest : List Token} {e : Expr} (htext : ¬ IsName text)
    (h : keywordClassLiteral inner (.word text :: ts) = .ok (e, rest)) :
    ∃ us, .word text :: ts = us ++ rest ∧ SpellsWithin 7 bound us e := by
  obtain ⟨type, ts', htype, hthen⟩ := bind_eq_ok.1 h
  obtain ⟨_, hts, rfl, -⟩ := returnType_takes hinner.refType _ _ _ htype
  obtain ⟨next, ts₂, hnext, hsecond⟩ := bind_eq_ok.1 hthen
  obtain ⟨rfl, rfl⟩ := peek_eq_ok.1 hnext
  obtain ⟨second, ts₃, hpeek, hlast⟩ := bind_eq_ok.1 hsecond
  obtain ⟨rfl, rfl⟩ := peekSecond_eq_ok.1 hpeek
  by_cases hclass : ts₃.head? = some (.symbol .dot) ∧ ts₃[1]? = some (.word "class")
  · rcases ts₃ with _ | ⟨first, _ | ⟨second, tail⟩⟩ <;> simp at hclass
    obtain ⟨rfl, rfl⟩ := hclass
    obtain ⟨_, _, hfirst, hdone⟩ := bind_eq_ok.1 hlast
    obtain rfl := skip_eq_ok.1 hfirst
    obtain ⟨rfl, rfl⟩ := skip_return_eq_ok.1 hdone
    refine ⟨type.tokens ++ [.symbol .dot, .word "class"], by simp [hts], 0, Nat.zero_le _, ?_⟩
    exact .keywordClass type (isKeyword_of_tokens hts.symm htext)
  -- Generalized, the two tokens can be split on; only `.class` is read.
  · generalize ts₃.head? = first at hlast hclass
    generalize ts₃[1]? = second at hlast hclass
    split at hlast
    · exact absurd ⟨rfl, rfl⟩ hclass
    · exact absurd hlast unexpected_ne_ok

private theorem not_isName_of_keyword {text : String}
    (h : (PrimitiveType.ofKeyword? text).isSome ∨ text = "void") : ¬ IsName text := by
  rintro hname
  have hn := ofKeyword?_name ⟨text, hname⟩
  simp [hn.1, hn.2] at h

private theorem wordExpr_takes (hinner : inner.Reads bound) {text : String} {ts rest : List Token}
    {e : Expr} (h : wordExpr inner text (.word text :: ts) = .ok (e, rest)) :
    ∃ us, .word text :: ts = us ++ rest ∧ SpellsWithin 7 bound us e := by
  have hsingle : Spells 7 0 [.word text] e → rest = ts →
      ∃ us, .word text :: ts = us ++ rest ∧ SpellsWithin 7 bound us e := by
    rintro he rfl
    exact ⟨[.word text], rfl, 0, Nat.zero_le _, he⟩
  -- The cases stand in the order of the parser: each keyword is tried before names are.
  unfold wordExpr at h
  by_cases hboolean : text = "true" ∨ text = "false"
  · rw [if_pos hboolean] at h
    obtain ⟨rfl, hrest⟩ := skip_return_eq_ok.1 h
    refine hsingle ?_ hrest
    rcases hboolean with rfl | rfl
    · exact .boolean true
    · exact .boolean false
  rw [if_neg hboolean] at h
  by_cases hnull : text = "null"
  · rw [if_pos hnull] at h
    obtain ⟨rfl, hrest⟩ := skip_return_eq_ok.1 h
    subst hnull
    exact hsingle .null hrest
  rw [if_neg hnull] at h
  by_cases hself : text = "this"
  · rw [if_pos hself] at h
    obtain ⟨rfl, hrest⟩ := skip_return_eq_ok.1 h
    subst hself
    exact hsingle .self hrest
  rw [if_neg hself] at h
  by_cases hnew : text = "new"
  · rw [if_pos hnew] at h
    obtain ⟨_, ts', hts, hcreate⟩ := bind_eq_ok.1 h
    obtain rfl : ts' = ts := by simpa [skip_eq_ok] using hts
    obtain ⟨us, rfl, he⟩ := creation_takes hinner _ _ _ hcreate
    subst hnew
    exact ⟨.word "new" :: us, rfl, he⟩
  rw [if_neg hnew] at h
  by_cases hkeyword : (PrimitiveType.ofKeyword? text).isSome ∨ text = "void"
  · rw [if_pos hkeyword] at h
    exact keywordClassLiteral_takes hinner (not_isName_of_keyword hkeyword) h
  · rw [if_neg hkeyword] at h
    exact nameOrCall_takes hinner _ _ _ h

/-- An integer is read when it is a `long`. -/
theorem integerLiteral_eq_ok {n : Nat} {ts rest : List Token} {e : Expr} :
    integerLiteral n ts = .ok (e, rest) ↔
      n < 2 ^ 63 ∧ e = .integer (Int64.ofNat n) ∧ rest = ts.drop 1 := by
  rw [integerLiteral, show 2 ^ 63 = 0x8000000000000000 from rfl]
  by_cases hn : n < 0x8000000000000000
  · rw [if_pos hn, skip_return_eq_ok]
    exact (and_iff_right hn).symm
  · rw [if_neg hn]
    exact ⟨fun h => absurd h fail_ne_ok, fun h => absurd h.1 hn⟩

/-- Behind a minus sign, an integer may be as large as the least `long`. -/
theorem negativeLiteral_eq_ok {n : Nat} {ts rest : List Token} {e : Expr} :
    negativeLiteral n ts = .ok (e, rest) ↔
      n ≤ 2 ^ 63 ∧ e = .integer (Int64.ofInt (-n)) ∧ rest = ts.drop 1 := by
  rw [negativeLiteral, show 2 ^ 63 = 0x8000000000000000 from rfl]
  by_cases hn : n ≤ 0x8000000000000000
  · rw [if_pos hn, skip_return_eq_ok]
    exact (and_iff_right hn).symm
  · rw [if_neg hn]
    exact ⟨fun h => absurd h fail_ne_ok, fun h => absurd h.1 hn⟩

private theorem primary_takes (hinner : inner.Reads bound) :
    Takes (primary inner) (SpellsWithin 7 bound) := by
  intro ts e rest h
  obtain ⟨next, ts', hpeek, hthen⟩ := bind_eq_ok.1 h
  obtain ⟨rfl, rfl⟩ := peek_eq_ok.1 hpeek
  cases ts' with
  | nil => exact absurd hthen unexpected_ne_ok
  | cons t ts =>
    cases t with
    | integer n =>
      obtain ⟨hn, rfl, rfl⟩ := integerLiteral_eq_ok.1 hthen
      exact ⟨[.integer n], rfl, 0, Nat.zero_le _, .natural hn⟩
    | quoted value =>
      obtain ⟨rfl, rfl⟩ := skip_return_eq_ok.1 hthen
      exact ⟨[.quoted value], rfl, 0, Nat.zero_le _, .text value⟩
    | word text => exact wordExpr_takes hinner hthen
    | symbol s =>
      by_cases hs : s = .leftParen
      · subst hs
        simp only [List.head?_cons, bind_eq_ok, skip_eq_ok, pure_eq_ok, expect_eq_ok] at hthen
        obtain ⟨_, _, rfl, value, _, hvalue, _, _, rfl, rfl, rfl⟩ := hthen
        obtain ⟨us, hus, depth, hdepth, he⟩ := hinner.expr _ _ _ hvalue
        refine ⟨.symbol .leftParen :: (us ++ [.symbol .rightParen]), ?_, _, hdepth, .paren he⟩
        simpa using hus
      · cases s <;> first | exact absurd rfl hs | exact absurd hthen unexpected_ne_ok

/-- What a dot and the tokens after it make of the expression in front. -/
inductive Selects (bound : Nat) (target : Expr) : List Token → Expr → Prop
  | nameClass {n : QualifiedName} (hname : target.qualifiedName? = some n) :
    Selects bound target [.symbol .dot, .word "class"] (.classLiteral (.ofClass (.plain n)))
  | field (n : Name) : Selects bound target [.symbol .dot, n.token] (.field target n)
  | callOn (n : Name) (parts : List Part)
    (hparts : ∀ part ∈ parts,
      part.depth + 1 ≤ bound ∧ Spells 1 part.depth part.tokens part.expr) :
    Selects bound target (.symbol .dot :: n.token :: Part.list parts)
      (.callOn target n (parts.map Part.expr))

private theorem Selects.spells {target e : Expr} {us vs : List Token}
    (h : Selects bound target vs e)
    (htarget : SpellsWithin 7 bound us target) : SpellsWithin 7 bound (us ++ vs) e := by
  obtain ⟨depth, hdepth, htarget⟩ := htarget
  cases h with
  | nameClass hname => exact ⟨depth, hdepth, .nameClass htarget hname⟩
  | field n => exact ⟨depth, hdepth, .field htarget n⟩
  | callOn n parts hparts =>
    have hnesting : Part.nesting parts ≤ bound := Part.nesting_le.2 fun p hp => (hparts p hp).1
    exact ⟨max depth (Part.nesting parts), Nat.max_le.2 ⟨hdepth, hnesting⟩,
      .callOn htarget n parts fun p hp => (hparts p hp).2⟩

private theorem selection?_takes (hinner : inner.Reads bound) (target : Expr) :
    Takes (selection? inner target) (OrNothing (Selects bound target)) := by
  intro ts found rest h
  obtain ⟨before, ts', hbefore, hthen⟩ := bind_eq_ok.1 h
  obtain ⟨-, rfl⟩ := remaining_eq_ok.1 hbefore
  obtain ⟨dot, ts₂, hdot, hselect⟩ := bind_eq_ok.1 hthen
  obtain ⟨rfl, rfl⟩ | ⟨rfl, rfl, -⟩ := symbol?_eq_ok.1 hdot
  · obtain ⟨isClass, ts₃, hclass, hrest⟩ := bind_eq_ok.1 hselect
    obtain ⟨rfl, rfl⟩ | ⟨rfl, rfl, -⟩ := word?_eq_ok.1 hclass
    · cases hname : target.qualifiedName? with
      | none =>
        rw [if_pos rfl, hname] at hrest
        exact absurd hrest failAt_ne_ok
      | some n =>
        rw [if_pos rfl, hname] at hrest
        obtain ⟨rfl, rfl⟩ := pure_eq_ok.1 hrest
        exact ⟨[.symbol .dot, .word "class"], rfl, .nameClass hname⟩
    · obtain ⟨n, ts₄, hn, hcall⟩ := bind_eq_ok.1 hrest
      obtain rfl := name_eq_ok.1 hn
      obtain ⟨opened, ts₅, hopened, hlast⟩ := bind_eq_ok.1 hcall
      obtain ⟨-, rfl⟩ := atSymbol_eq_ok.1 hopened
      cases opened with
      | true =>
        obtain ⟨args, ts₆, hargs, hdone⟩ := bind_eq_ok.1 hlast
        obtain ⟨_, rfl, parts, hparts, rfl, rfl⟩ := arguments_takes hinner _ _ _ hargs
        obtain ⟨rfl, rfl⟩ := pure_eq_ok.1 hdone
        exact ⟨.symbol .dot :: n.token :: Part.list parts, by simp, .callOn n parts hparts⟩
      | false =>
        obtain ⟨rfl, rfl⟩ := pure_eq_ok.1 hlast
        exact ⟨[.symbol .dot, n.token], rfl, .field n⟩
  · obtain ⟨rfl, rfl⟩ := pure_eq_ok.1 hselect
    exact ⟨[], rfl, rfl⟩

theorem selection?_advances (hinner : inner.Reads bound) (target : Expr) :
    Advances (selection? inner target) :=
  (selection?_takes hinner target).advances fun _ h => by cases h

/-- An operand is read with its selections, and spelled at the tightest level. -/
theorem postfixed_takes (hinner : inner.Reads bound) :
    Takes (postfixed inner) (SpellsWithin 7 bound) := by
  intro ts e rest h
  obtain ⟨target, ts', htarget, hextend⟩ := bind_eq_ok.1 h
  obtain ⟨us, rfl, hus⟩ := primary_takes hinner _ _ _ htarget
  have hstep : ∀ us target, SpellsWithin 7 bound us target →
      Takes (selection? inner target) (OrNothing fun vs e => SpellsWithin 7 bound (us ++ vs) e) := by
    intro us target htarget
    refine (selection?_takes hinner target).imp fun vs found hfound => ?_
    cases found with
    | none => exact hfound
    | some e => exact Selects.spells hfound htarget
  obtain ⟨vs, rfl, hvs⟩ := extend_takes hstep hus _ _ _ hextend
  exact ⟨us ++ vs, by simp, hvs⟩

/-- A sign is read with its operand, and spelled one level below. -/
theorem unary_takes (hinner : inner.Reads bound) :
    Takes (unary inner) (SpellsWithin 6 bound) := by
  intro ts e rest h
  obtain ⟨bang, ts', hbang, hthen⟩ := bind_eq_ok.1 h
  obtain ⟨rfl, rfl⟩ | ⟨rfl, rfl, -⟩ := symbol?_eq_ok.1 hbang
  · obtain ⟨operand, ts₂, hoperand, hlast⟩ := bind_eq_ok.1 hthen
    obtain ⟨us, rfl, depth, hdepth, he⟩ := hinner.unary _ _ _ hoperand
    obtain ⟨rfl, rfl⟩ := pure_eq_ok.1 hlast
    exact ⟨.symbol .bang :: us, rfl, _, hdepth, .not he⟩
  · obtain ⟨minus, ts₂, hminus, hrest⟩ := bind_eq_ok.1 hthen
    obtain ⟨rfl, rfl⟩ | ⟨rfl, rfl, -⟩ := symbol?_eq_ok.1 hminus
    · obtain ⟨next, ts₃, hpeek, hlast⟩ := bind_eq_ok.1 hrest
      obtain ⟨rfl, rfl⟩ := peek_eq_ok.1 hpeek
      by_cases hinteger : ∃ n tail, ts₃ = .integer n :: tail
      · obtain ⟨n, tail, rfl⟩ := hinteger
        obtain ⟨hn, rfl, rfl⟩ := negativeLiteral_eq_ok.1 hlast
        exact ⟨[.symbol .minus, .integer n], rfl, 0, Nat.zero_le _, .negative hn⟩
      · have hrun : (do return Expr.unary .neg (← inner.unary) : Parser Expr) ts₃ =
            .ok (e, rest) := by
          rcases ts₃ with _ | ⟨t, tail⟩
          · exact hlast
          · cases t with
            | integer n => exact absurd ⟨n, tail, rfl⟩ hinteger
            | _ => exact hlast
        obtain ⟨operand, ts₄, hoperand, hdone⟩ := bind_eq_ok.1 hrun
        obtain ⟨us, rfl, depth, hdepth, he⟩ := hinner.unary _ _ _ hoperand
        obtain ⟨rfl, rfl⟩ := pure_eq_ok.1 hdone
        -- The spelling of the operand does not begin with an integer, for that was ruled out above.
        refine ⟨.symbol .minus :: us, rfl, _, hdepth, .neg he fun n hn => ?_⟩
        cases us with
        | nil => cases hn
        | cons t us =>
          obtain rfl : t = .integer n := by simpa using hn
          exact hinteger ⟨n, us ++ rest, rfl⟩
    · obtain ⟨us, rfl, hus⟩ := postfixed_takes hinner _ _ _ hrest
      exact ⟨us, rfl, hus.loosen (by decide)⟩

/-- An operator after its left operand, and the right operand: the step of a chain. -/
def chainStep (operators : List BinaryOp) (operand : Parser Expr) (left : Expr) :
    Parser (Option Expr) := do
  let next ← peek
  match operators.find? fun op => next = some (.symbol op.symbol) with
  | some op =>
    skip
    return some (.binary op left (← operand))
  | none => pure none

private theorem chainStep_takes {operators : List BinaryOp} {operand : Parser Expr}
    {R : List Token → Expr → Prop} (hoperand : Takes operand R) (left : Expr) :
    Takes (chainStep operators operand left) (OrNothing fun us e => ∃ op ∈ operators, ∃ vs right,
      us = .symbol op.symbol :: vs ∧ R vs right ∧ e = .binary op left right) := by
  intro ts found rest h
  obtain ⟨next, ts', hpeek, hthen⟩ := bind_eq_ok.1 h
  obtain ⟨rfl, rfl⟩ := peek_eq_ok.1 hpeek
  cases hfind : operators.find? fun op => decide (ts'.head? = some (.symbol op.symbol)) with
  | none =>
    rw [hfind] at hthen
    obtain ⟨rfl, rfl⟩ := pure_eq_ok.1 hthen
    exact ⟨[], rfl, rfl⟩
  | some op =>
    rw [hfind] at hthen
    have hop : ts'.head? = some (.symbol op.symbol) := by simpa using List.find?_some hfind
    cases ts' with
    | nil => cases hop
    | cons t ts =>
      obtain rfl : t = .symbol op.symbol := by simpa using hop
      obtain ⟨_, _, hskip, hright⟩ := bind_eq_ok.1 hthen
      obtain rfl := skip_eq_ok.1 hskip
      obtain ⟨right, ts₂, hoperand', hlast⟩ := bind_eq_ok.1 hright
      obtain ⟨vs, hvs, hR⟩ := hoperand _ _ _ hoperand'
      obtain ⟨rfl, rfl⟩ := pure_eq_ok.1 hlast
      refine ⟨.symbol op.symbol :: vs, ?_, op, List.mem_of_find?_eq_some hfind, vs, right, rfl, hR,
        rfl⟩
      simpa using hvs

theorem chainStep_advances {operators : List BinaryOp} {operand : Parser Expr}
    {R : List Token → Expr → Prop} (hoperand : Takes operand R) (left : Expr) :
    Advances (chainStep operators operand left) :=
  (chainStep_takes hoperand left).advances fun _ => by simp

/-- A chain of operators is spelled at their level, with the operands one level above. -/
theorem leftChain_takes {operators : List BinaryOp} {operand : Parser Expr} {level : Nat}
    (hlevel : 1 ≤ level) (hoperators : ∀ op ∈ operators, op.precedence = level)
    (hoperand : Takes operand (SpellsWithin (level + 1) bound)) :
    Takes (leftChain operators operand) (SpellsWithin level bound) := by
  intro ts e rest h
  obtain ⟨first, ts', hfirst, hextend⟩ := bind_eq_ok.1 h
  obtain ⟨us, rfl, hus⟩ := hoperand _ _ _ hfirst
  have hstep : ∀ us left, SpellsWithin level bound us left →
      Takes (chainStep operators operand left)
        (OrNothing fun vs e => SpellsWithin level bound (us ++ vs) e) := by
    rintro us left ⟨dl, hdl, hleft⟩
    refine (chainStep_takes hoperand left).imp fun vs found hfound => ?_
    cases found with
    | none => exact hfound
    | some e =>
      obtain ⟨op, hop, ws, right, rfl, ⟨dr, hdr, hright⟩, rfl⟩ := hfound
      obtain rfl := hoperators op hop
      exact ⟨max dl dr, Nat.max_le.2 ⟨hdl, hdr⟩, .binary op hleft hright⟩
  obtain ⟨vs, rfl, hvs⟩ := extend_takes hstep (hus.loosen hlevel) _ _ _ hextend
  exact ⟨us ++ vs, by simp, hvs⟩

/-- All operators together are spelled above assignments. -/
theorem disjunction_takes (hinner : inner.Reads bound) :
    Takes (disjunction inner) (SpellsWithin 2 bound) := by
  have hadditive : Takes (additive inner) (SpellsWithin 5 bound) :=
    leftChain_takes (by decide) (by decide) (unary_takes hinner)
  have hequality : Takes (equality inner) (SpellsWithin 4 bound) :=
    leftChain_takes (by decide) (by decide) hadditive
  have hconjunction : Takes (conjunction inner) (SpellsWithin 3 bound) :=
    leftChain_takes (by decide) (by decide) hequality
  exact leftChain_takes (by decide) (by decide) hconjunction

/-- An expression is read from tokens that spell it. -/
theorem exprWith_takes (hinner : inner.Reads bound) :
    Takes (exprWith inner) (SpellsWithin 1 bound) := by
  intro ts e rest h
  obtain ⟨before, ts', hbefore, hthen⟩ := bind_eq_ok.1 h
  obtain ⟨-, rfl⟩ := remaining_eq_ok.1 hbefore
  obtain ⟨target, ts₂, htarget, hrest⟩ := bind_eq_ok.1 hthen
  obtain ⟨us, rfl, hus⟩ := disjunction_takes hinner _ _ _ htarget
  obtain ⟨assign, ts₃, hassign, hlast⟩ := bind_eq_ok.1 hrest
  obtain ⟨rfl, rfl⟩ | ⟨rfl, rfl, -⟩ := symbol?_eq_ok.1 hassign
  · cases hassignable : target.isAssignable with
    | false =>
      rw [if_pos rfl, hassignable, if_neg Bool.false_ne_true] at hlast
      exact absurd hlast failAt_ne_ok
    | true =>
      rw [if_pos rfl, hassignable, if_pos rfl] at hlast
      obtain ⟨value, ts₄, hvalue, hdone⟩ := bind_eq_ok.1 hlast
      obtain ⟨vs, rfl, dv, hdv, hv⟩ := hinner.expr _ _ _ hvalue
      obtain ⟨rfl, rfl⟩ := pure_eq_ok.1 hdone
      obtain ⟨dt, hdt, ht⟩ := hus
      exact ⟨us ++ .symbol .assign :: vs, by simp, max dt (dv + 1), Nat.max_le.2 ⟨hdt, hdv⟩,
        .assign ht hassignable hv⟩
  · obtain ⟨rfl, rfl⟩ := pure_eq_ok.1 hlast
    exact ⟨us, rfl, hus.loosen le_rfl⟩

/-- The types inside of an expression are read with the same budget. -/
theorem innerAt_refType (budget : Nat) : (innerAt budget).refType = refTypeAt budget := by
  cases budget <;> rfl

/-- A budget of levels bounds the nesting of what is read. -/
theorem reads_innerAt (budget : Nat) : (innerAt budget).Reads budget := by
  induction budget with
  | zero =>
    exact ⟨fun ts e rest h => absurd h fail_ne_ok, fun ts e rest h => absurd h fail_ne_ok,
      refTypeAt_takes 0⟩
  | succ budget ih =>
    refine ⟨?_, ?_, refTypeAt_takes (budget + 1)⟩
    · exact (exprWith_takes ih).imp fun us e ⟨d, hd, he⟩ => ⟨d, Nat.succ_le_succ hd, he⟩
    · exact (unary_takes ih).imp fun us e ⟨d, hd, he⟩ => ⟨d, Nat.succ_le_succ hd, he⟩

/-- What is read for an expression is one of its spellings, within the limit of nesting. -/
theorem expr_takes : Takes expr (SpellsWithin 1 nestingLimit) :=
  exprWith_takes (reads_innerAt nestingLimit)

end Parser

end Stubwright.Source
