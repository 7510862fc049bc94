import Stubwright.Proofs.Source.Printing
import Stubwright.Source.Parser.Type

/-!
# Reading names and types

Names and types have one spelling only: what a parser reads for one are the tokens of its canonical
text, and on those tokens it succeeds as long as the type arguments do not nest too deep.

## Main results

* `name_eq_ok`, `qualifiedName_takes`, `qualifiedName_eq_ok` — names
* `type_takes`, `type_reaches` — types with the limit of their nesting
-/

namespace Stubwright.Source

namespace Parser

/-! ## Names -/

/-- No further segment of a name stands in front. -/
def EndsName (ts : List Token) : Prop := ∀ text rest, ts ≠ .symbol .dot :: .word text :: rest

/-- A name ends where no dot follows. -/
theorem endsName_of_head {ts : List Token} (h : ts.head? ≠ some (.symbol .dot)) : EndsName ts := by
  rintro text rest rfl
  exact h rfl

/-- A simple name is read from its own token. -/
theorem name_eq_ok {n : Name} {ts rest : List Token} :
    name ts = .ok (n, rest) ↔ ts = n.token :: rest := by
  unfold name
  simp only [bind_eq_ok, peek_eq_ok]
  constructor
  · rintro ⟨next, ts', ⟨rfl, rfl⟩, h⟩
    cases ts' with
    | nil => simp [unexpected_ne_ok] at h
    | cons t ts =>
      cases t with
      | word text =>
        by_cases hname : IsName text
        · simp only [List.head?_cons, hname, dif_pos, bind_eq_ok, skip_eq_ok, pure_eq_ok] at h
          obtain ⟨_, _, rfl, rfl, rfl⟩ := h
          rfl
        · simp only [List.head?_cons, hname, dif_neg, not_false_eq_true] at h
          split at h
          · exact absurd h fail_ne_ok
          · exact absurd h unexpected_ne_ok
      | _ => simp [unexpected_ne_ok] at h
  · rintro rfl
    refine ⟨_, _, ⟨rfl, rfl⟩, ?_⟩
    have hname : IsName n.text := n.isName
    simp only [Name.token, List.head?_cons, hname, dif_pos, bind_eq_ok, skip_eq_ok, pure_eq_ok]
    exact ⟨(), rest, rfl, trivial, rfl⟩

private theorem dotName?_eq_ok {found : Option Name} {ts rest : List Token} :
    dotName? ts = .ok (found, rest) ↔
      (∃ n, found = some n ∧ ts = .symbol .dot :: n.token :: rest) ∨
        (found = none ∧ rest = ts ∧ EndsName ts) := by
  by_cases hdot : ∃ text tail, ts = .symbol .dot :: .word text :: tail
  · obtain ⟨text, tail, rfl⟩ := hdot
    have hrun : dotName? (.symbol .dot :: .word text :: tail) =
        (some <$> name) (.word text :: tail) := rfl
    have hnot : ¬ EndsName (.symbol .dot :: .word text :: tail) := fun h => h text tail rfl
    rw [hrun, map_eq_ok]
    simp only [name_eq_ok, hnot, and_false, or_false, List.cons.injEq, true_and]
    exact exists_congr fun n => and_comm
  · have hends : EndsName ts := fun text tail h => hdot ⟨text, tail, h⟩
    have hrun : dotName? ts = .ok (none, ts) := by
      unfold dotName?
      simp only [bind_apply, peek, peekSecond]
      -- The two tokens looked at are generalized so that the match on them can be split.
      generalize hfirst : ts.head? = first
      generalize hsecond : ts[1]? = second
      split
      · rename_i text
        rcases ts with _ | ⟨first, _ | ⟨second, tail⟩⟩ <;> simp at hfirst hsecond
        exact absurd (by rw [hfirst, hsecond]) (hends text tail)
      · rfl
    have hno : ∀ n : Name, ts ≠ .symbol .dot :: n.token :: rest := fun n => hends n.text rest
    simp only [hrun, hends, hno, and_false, exists_false, false_or, and_true, Except.ok.injEq,
      Prod.mk.injEq]
    exact and_congr eq_comm eq_comm

private theorem dotName?_advances : Advances dotName? := by
  intro ts n rest h
  obtain ⟨_, _, rfl⟩ | ⟨h, -⟩ := dotName?_eq_ok.1 h
  · simp only [List.length_cons]
    omega
  · cases h

/-- A qualified name is read from its tokens only. -/
theorem qualifiedName_takes : Takes qualifiedName fun us name => us = name.tokens := by
  intro ts q rest h
  obtain ⟨first, ts', hfirst, hthen⟩ := bind_eq_ok.1 h
  obtain rfl := name_eq_ok.1 hfirst
  obtain ⟨more, ts'', hmore, hlast⟩ := bind_eq_ok.1 hthen
  obtain ⟨rfl, rfl⟩ := pure_eq_ok.1 hlast
  have hdot : Takes dotName? (OrNothing fun us n =>
      ∃ m : Name, True ∧ us = [.symbol .dot, m.token] ∧ n = id m) := by
    intro ts found rest h
    obtain ⟨n, rfl, rfl⟩ | ⟨rfl, rfl, -⟩ := dotName?_eq_ok.1 h
    · exact ⟨[.symbol .dot, n.token], rfl, n, trivial, rfl, rfl⟩
    · exact ⟨[], rfl, rfl⟩
  obtain ⟨_, rfl, names, -, rfl, rfl⟩ := many_takes hdot _ _ _ hmore
  exact ⟨first.token :: names.flatMap fun n => [.symbol .dot, n.token], rfl, by simp⟩

/-- The tokens of a qualified name are read as the name where it ends. -/
theorem qualifiedName_tokens (q : QualifiedName) {rest : List Token} (hrest : EndsName rest) :
    qualifiedName (q.tokens ++ rest) = .ok (q, rest) := by
  obtain ⟨first, names, rfl⟩ := q.exists_ofSegments
  have hmore : many dotName? (names.flatMap (fun n => [.symbol .dot, n.token]) ++ rest) =
      .ok (names.map id, rest) := by
    refine (many_reaches (fun _ => True) dotName?_advances ?_ (by simp) trivial ?_).1
      fun _ _ => trivial
    · exact fun n _ rest _ => .of_eq trivial (dotName?_eq_ok.2 (.inl ⟨n, rfl, rfl⟩))
    · exact dotName?_eq_ok.2 (.inr ⟨rfl, rfl, hrest⟩)
  rw [QualifiedName.tokens_ofSegments, List.cons_append]
  exact bind_eq_ok.2 ⟨first, _, name_eq_ok.2 rfl, bind_eq_ok.2 ⟨_, _, hmore, by simp [pure_eq_ok]⟩⟩

end Parser

/-! ## The shape of types -/

/-- Whether a reference type begins with a keyword: an array of primitives does. -/
def RefType.isKeyword : RefType → Bool
  | .named .. => false
  | .primitiveArray _ => true
  | .array element => element.isKeyword

/-- Whether a type begins with a keyword. -/
def Ty.isKeyword : Ty → Bool
  | .void | .primitive _ => true
  | .reference type => type.isKeyword

/-- Arguments nest within a bound when each of them does. -/
theorem TypeArg.nestingList_le {args : List TypeArg} {bound : Nat} :
    TypeArg.nestingList args ≤ bound ↔ ∀ arg ∈ args, arg.nesting ≤ bound := by
  induction args with
  | nil => simp [TypeArg.nestingList]
  | cons arg rest ih => simp only [TypeArg.nestingList, Nat.max_le, ih, List.forall_mem_cons]

/-- A class type begins with the first segment of its name. -/
theorem RefType.exists_tokens_named (first : Name) (more : List Name) (args : List TypeArg) :
    ∃ tail, (RefType.named (.ofSegments first more) args).tokens = first.token :: tail := by
  rw [RefType.tokens_named]
  cases args with
  | nil => exact ⟨_, QualifiedName.tokens_ofSegments first more⟩
  | cons arg args => exact ⟨_, by rw [QualifiedName.tokens_ofSegments]; rfl⟩

/-- A word that a type other than `void` may begin with. -/
def IsTypeWord (text : String) : Prop := IsName text ∨ ∃ p ∈ PrimitiveType.all, p.keyword = text

instance (text : String) : Decidable (IsTypeWord text) := inferInstanceAs (Decidable (_ ∨ _))

/-- A reference type begins with a name or a keyword. -/
theorem RefType.exists_tokens :
    (type : RefType) → ∃ text tail, type.tokens = .word text :: tail ∧ IsTypeWord text
  | .named name args => by
    obtain ⟨first, more, rfl⟩ := name.exists_ofSegments
    obtain ⟨tail, h⟩ := RefType.exists_tokens_named first more args
    exact ⟨first.text, tail, h, .inl first.isName⟩
  | .primitiveArray element =>
    ⟨_, _, RefType.tokens_primitiveArray element, .inr ⟨element, element.mem_all, rfl⟩⟩
  | .array element => by
    obtain ⟨text, tail, h, hword⟩ := element.exists_tokens
    exact ⟨text, tail ++ [.symbol .leftBracket, .symbol .rightBracket], by simp [h], hword⟩

private theorem RefType.exists_name_tokens :
    (type : RefType) → type.isKeyword = false →
      ∃ (n : Name) (tail : _), type.tokens = n.token :: tail
  | .named name args, _ => by
    obtain ⟨first, more, rfl⟩ := name.exists_ofSegments
    obtain ⟨tail, h⟩ := RefType.exists_tokens_named first more args
    exact ⟨first, tail, h⟩
  | .primitiveArray _, h => by cases h
  | .array element, h => by
    obtain ⟨n, tail, htokens⟩ := element.exists_name_tokens h
    exact ⟨n, tail ++ [.symbol .leftBracket, .symbol .rightBracket], by simp [htokens]⟩

/-- A type without a keyword begins with a name. -/
theorem Ty.exists_name_tokens {type : Ty} (h : type.isKeyword = false) :
    ∃ (n : Name) (tail : _), type.tokens = n.token :: tail := by
  cases type with
  | void => cases h
  | primitive _ => cases h
  | reference type => simpa using type.exists_name_tokens h

private theorem RefType.exists_keyword_tokens : (type : RefType) → type.isKeyword = true →
    ∃ (p : PrimitiveType) (tail : _), type.tokens = .word p.keyword :: tail
  | .named .., h => by cases h
  | .primitiveArray element, _ => ⟨element, _, RefType.tokens_primitiveArray element⟩
  | .array element, h => by
    obtain ⟨p, tail, htokens⟩ := element.exists_keyword_tokens h
    exact ⟨p, tail ++ [.symbol .leftBracket, .symbol .rightBracket], by simp [htokens]⟩

/-- A type with a keyword begins with it. -/
theorem Ty.exists_keyword_tokens {type : Ty} (h : type.isKeyword = true) :
    ∃ text tail, type.tokens = .word text :: tail ∧
      ((PrimitiveType.ofKeyword? text).isSome ∨ text = "void") := by
  cases type with
  | void => exact ⟨_, _, Ty.tokens_void, .inr rfl⟩
  | primitive p => exact ⟨_, _, Ty.tokens_primitive p, .inl (by simp [p.ofKeyword?_keyword])⟩
  | reference type =>
    obtain ⟨p, tail, htokens⟩ := type.exists_keyword_tokens h
    exact ⟨p.keyword, tail, by simp [htokens], .inl (by simp [p.ofKeyword?_keyword])⟩

private theorem RefType.nesting_of_isKeyword :
    (type : RefType) → type.isKeyword = true → type.nesting = 0
  | .named .., h => by cases h
  | .primitiveArray _, _ => rfl
  | .array element, h => by
    rw [RefType.nesting]
    exact element.nesting_of_isKeyword h

/-- A type with a keyword has no type arguments. -/
theorem Ty.nesting_of_isKeyword {type : Ty} (h : type.isKeyword = true) : type.nesting = 0 := by
  cases type with
  | void => rfl
  | primitive _ => rfl
  | reference type => exact type.nesting_of_isKeyword h

/-- Every type but `void` begins with the name of a class or with a keyword. -/
theorem Ty.exists_tokens {type : Ty} (h : type ≠ .void) :
    ∃ text tail, type.tokens = .word text :: tail ∧ IsTypeWord text := by
  cases type with
  | void => exact absurd rfl h
  | primitive p => exact ⟨_, _, Ty.tokens_primitive p, .inr ⟨p, p.mem_all, rfl⟩⟩
  | reference type => simpa using type.exists_tokens

private theorem TypeArg.exists_tokens (arg : TypeArg) :
    ∃ t tail, arg.tokens = t :: tail ∧ t ≠ .symbol .greater := by
  cases arg with
  | exactly type =>
    obtain ⟨text, tail, h, -⟩ := type.exists_tokens
    exact ⟨.word text, tail, by simp [h], by simp⟩
  | any => exact ⟨_, _, TypeArg.tokens_any, by simp⟩
  | subtypesOf bound => exact ⟨_, _, TypeArg.tokens_subtypesOf bound, by simp⟩
  | supertypesOf bound => exact ⟨_, _, TypeArg.tokens_supertypesOf bound, by simp⟩

namespace Ty

@[simp] theorem array_ne_void (type : Ty) : type.array ≠ .void := by
  cases type <;> simp [array]

/-- An array is written with brackets behind its element. -/
theorem tokens_array {type : Ty} (h : type ≠ .void) :
    type.array.tokens = type.tokens ++ [.symbol .leftBracket, .symbol .rightBracket] := by
  cases type with
  | void => exact absurd rfl h
  | primitive type => simp [array]
  | reference type => simp [array]

private theorem nesting_array {type : Ty} (h : type ≠ .void) :
    type.array.nesting = type.nesting := by
  cases type with
  | void => exact absurd rfl h
  | primitive type => rfl
  | reference type => rfl

end Ty

namespace Parser

variable {inner : Parser RefType} {bound : Nat}

/-! ## What is read for a type -/

private theorem typeArg_takes
    (hinner : Takes inner fun us type => us = type.tokens ∧ type.nesting + 1 ≤ bound) :
    Takes (typeArg inner) fun us arg => us = arg.tokens ∧ arg.nesting ≤ bound := by
  intro ts arg rest h
  obtain ⟨question, ts', hquestion, hthen⟩ := bind_eq_ok.1 h
  obtain ⟨rfl, rfl⟩ | ⟨rfl, rfl, -⟩ := symbol?_eq_ok.1 hquestion
  · obtain ⟨extends_, ts'', hextends, hbound⟩ := bind_eq_ok.1 hthen
    obtain ⟨rfl, rfl⟩ | ⟨rfl, rfl, -⟩ := word?_eq_ok.1 hextends
    · obtain ⟨type, htype, rfl⟩ := map_eq_ok.1 hbound
      obtain ⟨_, rfl, rfl, hnesting⟩ := hinner _ _ _ htype
      exact ⟨_, by simp, TypeArg.tokens_subtypesOf type |>.symm, hnesting⟩
    · obtain ⟨super_, ts₃, hsuper, hlast⟩ := bind_eq_ok.1 hbound
      obtain ⟨rfl, rfl⟩ | ⟨rfl, rfl, -⟩ := word?_eq_ok.1 hsuper
      · obtain ⟨type, htype, rfl⟩ := map_eq_ok.1 hlast
        obtain ⟨_, rfl, rfl, hnesting⟩ := hinner _ _ _ htype
        exact ⟨_, by simp, TypeArg.tokens_supertypesOf type |>.symm, hnesting⟩
      · obtain ⟨rfl, rfl⟩ := pure_eq_ok.1 hlast
        exact ⟨[.symbol .question], rfl, by simp, Nat.zero_le _⟩
  · obtain ⟨type, htype, rfl⟩ := map_eq_ok.1 hthen
    obtain ⟨_, rfl, rfl, hnesting⟩ := hinner _ _ _ htype
    exact ⟨_, rfl, TypeArg.tokens_exactly type |>.symm, hnesting⟩

/-- A class or interface type is read from its own tokens, within the bound. -/
theorem classType_takes
    (hinner : Takes inner fun us type => us = type.tokens ∧ type.nesting + 1 ≤ bound) :
    Takes (classType inner) fun us type => us = type.tokens ∧ type.toRef.nesting ≤ bound := by
  intro ts type rest h
  obtain ⟨name, ts', hname, hthen⟩ := bind_eq_ok.1 h
  obtain ⟨_, rfl, rfl⟩ := qualifiedName_takes _ _ _ hname
  obtain ⟨less, ts'', hless, hargs⟩ := bind_eq_ok.1 hthen
  obtain ⟨rfl, rfl⟩ | ⟨rfl, rfl, -⟩ := symbol?_eq_ok.1 hless
  · simp only [if_true, bind_eq_ok, atSymbol_eq_ok] at hargs
    obtain ⟨empty, ts₃, ⟨hempty, rfl⟩, hargs⟩ := hargs
    cases empty with
    | true =>
      simp only [if_true, bind_eq_ok] at hargs
      -- An empty list of arguments is refused, so the arguments that are read are never none.
      obtain ⟨_, _, hfail, -⟩ := hargs
      exact absurd hfail fail_ne_ok
    | false =>
      have hitem : Takes (typeArg inner) fun us arg =>
          ∃ i : TypeArg, i.nesting ≤ bound ∧ us = i.tokens ∧ arg = id i :=
        (typeArg_takes hinner).imp fun us arg h => ⟨arg, h.2, h.1, rfl⟩
      simp only [Bool.false_eq_true, if_false, bind_eq_ok, pure_eq_ok, expect_eq_ok] at hargs
      obtain ⟨args, ts₄, hcommas, _, ts₅, rfl, rfl, rfl⟩ := hargs
      obtain ⟨_, rfl, args, hne, hall, rfl, rfl⟩ := commaSeparated_takes hitem _ _ _ hcommas
      have htokens : ClassType.tokens ⟨name, args⟩ = name.tokens ++ .symbol .less ::
          (commaTokens TypeArg.tokens args ++ [.symbol .greater]) := by
        cases args with
        | nil => exact absurd rfl hne
        | cons arg args => exact RefType.tokens_named name (arg :: args)
      refine ⟨ClassType.tokens ⟨name, args⟩, by simp [htokens], by simp, ?_⟩
      simpa [ClassType.toRef, RefType.nesting] using TypeArg.nestingList_le.2 hall
  · obtain ⟨rfl, rfl⟩ := pure_eq_ok.1 hargs
    exact ⟨name.tokens, rfl, (RefType.tokens_named name []).symm, Nat.zero_le _⟩

private theorem arraySuffix?_takes (type : Ty) :
    Takes (arraySuffix? type) (OrNothing fun us extended =>
      us = [.symbol .leftBracket, .symbol .rightBracket] ∧ extended = type.array) := by
  intro ts found rest h
  obtain ⟨left, ts', hleft, hthen⟩ := bind_eq_ok.1 h
  obtain ⟨rfl, rfl⟩ | ⟨rfl, rfl, -⟩ := symbol?_eq_ok.1 hleft
  · obtain ⟨_, ts'', hright, hlast⟩ := bind_eq_ok.1 hthen
    obtain rfl := expect_eq_ok.1 hright
    obtain ⟨rfl, rfl⟩ := pure_eq_ok.1 hlast
    exact ⟨[.symbol .leftBracket, .symbol .rightBracket], rfl, rfl, rfl⟩
  · obtain ⟨rfl, rfl⟩ := pure_eq_ok.1 hthen
    exact ⟨[], rfl, rfl⟩

private theorem arraySuffix?_advances (type : Ty) : Advances (arraySuffix? type) :=
  (arraySuffix?_takes type).advances fun _ => by simp

private theorem ofKeyword?_eq_some {text : String} {p : PrimitiveType} :
    PrimitiveType.ofKeyword? text = some p ↔ text = p.keyword := by
  constructor
  · intro h
    simpa [eq_comm] using List.find?_some h
  · rintro rfl
    exact p.ofKeyword?_keyword

private theorem baseType_takes
    (hinner : Takes inner fun us type => us = type.tokens ∧ type.nesting + 1 ≤ bound) :
    Takes (baseType inner) fun us type =>
      us = type.tokens ∧ type.nesting ≤ bound ∧ type ≠ .void := by
  intro ts type rest h
  obtain ⟨next, ts', hpeek, hthen⟩ := bind_eq_ok.1 h
  obtain ⟨rfl, rfl⟩ := peek_eq_ok.1 hpeek
  rcases ts' with _ | ⟨_ | _ | _ | _, ts⟩
  case cons.word text =>
    cases hkeyword : PrimitiveType.ofKeyword? text with
    | some primitive =>
      obtain rfl := ofKeyword?_eq_some.1 hkeyword
      simp only [List.head?_cons, hkeyword, bind_eq_ok, skip_eq_ok, pure_eq_ok] at hthen
      obtain ⟨_, _, rfl, rfl, rfl⟩ := hthen
      exact ⟨[.word primitive.keyword], rfl, by simp, Nat.zero_le _, by simp⟩
    | none =>
      simp only [List.head?_cons, hkeyword] at hthen
      by_cases hvoid : text = "void"
      · rw [if_pos hvoid] at hthen
        exact absurd hthen fail_ne_ok
      · rw [if_neg hvoid] at hthen
        obtain ⟨type, htype, rfl⟩ := map_eq_ok.1 hthen
        obtain ⟨_, htokens, rfl, hnesting⟩ := classType_takes hinner _ _ _ htype
        exact ⟨type.tokens, htokens, (Ty.tokens_reference type.toRef).symm, hnesting, nofun⟩
  all_goals exact absurd hthen unexpected_ne_ok

/-- A type is read from its tokens only, and it does not nest deeper than its arguments may. -/
theorem type_takes
    (hinner : Takes inner fun us type => us = type.tokens ∧ type.nesting + 1 ≤ bound) :
    Takes (type inner) fun us type => us = type.tokens ∧ type.nesting ≤ bound ∧ type ≠ .void := by
  intro ts type rest h
  obtain ⟨base, ts', hbase, hextend⟩ := bind_eq_ok.1 h
  obtain ⟨us, rfl, hus⟩ := baseType_takes hinner _ _ _ hbase
  have hstep : ∀ us (type : Ty), (us = type.tokens ∧ type.nesting ≤ bound ∧ type ≠ .void) →
      Takes (arraySuffix? type) (OrNothing fun vs extended =>
        us ++ vs = extended.tokens ∧ extended.nesting ≤ bound ∧ extended ≠ .void) := by
    rintro _ type ⟨rfl, hnesting, hne⟩
    refine (arraySuffix?_takes type).imp fun vs found h => ?_
    cases found with
    | none => exact h
    | some extended =>
      obtain ⟨rfl, rfl⟩ := h
      exact ⟨(Ty.tokens_array hne).symm, by rwa [Ty.nesting_array hne], Ty.array_ne_void type⟩
  obtain ⟨vs, rfl, hvs⟩ := extend_takes hstep hus _ _ _ hextend
  exact ⟨us ++ vs, by simp, hvs⟩

private theorem refType_takes
    (hinner : Takes inner fun us type => us = type.tokens ∧ type.nesting + 1 ≤ bound) :
    Takes (refType inner) fun us type => us = type.tokens ∧ type.nesting ≤ bound := by
  intro ts type rest h
  obtain ⟨before, ts', hbefore, hthen⟩ := bind_eq_ok.1 h
  obtain ⟨rfl, rfl⟩ := remaining_eq_ok.1 hbefore
  obtain ⟨found, ts'', hfound, hlast⟩ := bind_eq_ok.1 hthen
  obtain ⟨us, rfl, rfl, hnesting, hne⟩ := type_takes hinner _ _ _ hfound
  cases found with
  | void => exact absurd rfl hne
  | primitive primitive => exact absurd hlast failAt_ne_ok
  | reference type =>
    obtain ⟨rfl, rfl⟩ := pure_eq_ok.1 hlast
    exact ⟨_, rfl, Ty.tokens_reference _, hnesting⟩

/-- With a budget of levels, a type argument uses up one more than it has levels itself. -/
theorem refTypeAt_takes (budget : Nat) :
    Takes (refTypeAt budget) fun us type => us = type.tokens ∧ type.nesting + 1 ≤ budget := by
  induction budget with
  | zero => exact fun ts type rest h => absurd h fail_ne_ok
  | succ budget ih =>
    exact (refType_takes ih).imp fun us type h => ⟨h.1, Nat.succ_le_succ h.2⟩

/-! ## Types are read back -/

/-- No brackets and no type arguments stand in front, and no further segment of a name. -/
structure EndsType (ts : List Token) : Prop where
  name : EndsName ts
  less : ts.head? ≠ some (.symbol .less)
  bracket : ts.head? ≠ some (.symbol .leftBracket)

/-- A type argument ends at a comma or at the closing bracket. -/
def EndsArg (ts : List Token) : Prop :=
  ts.head? = some (.symbol .comma) ∨ ts.head? = some (.symbol .greater)

private theorem EndsArg.endsType {ts : List Token} (h : EndsArg ts) : EndsType ts := by
  constructor
  · exact endsName_of_head (by rcases h with h | h <;> simp [h])
  · rcases h with h | h <;> simp [h]
  · rcases h with h | h <;> simp [h]

/-- A parser that reads the reference types one level below a bound on the nesting. -/
structure ReadsTypes (inner : Parser RefType) (bound : Nat) : Prop where
  takes : Takes inner fun us type => us = type.tokens ∧ type.nesting + 1 ≤ bound
  reaches : ∀ type rest, EndsType rest →
    Reaches (type.nesting + 1 ≤ bound) (inner (type.tokens ++ rest)) (.ok (type, rest))

private theorem typeArg_reaches (hinner : ReadsTypes inner bound)
    (arg : TypeArg) {rest : List Token} (hrest : EndsArg rest) :
    Reaches (arg.nesting ≤ bound) (typeArg inner (arg.tokens ++ rest)) (.ok (arg, rest)) := by
  cases arg with
  | exactly type =>
    obtain ⟨text, tail, htokens, -⟩ := type.exists_tokens
    have hno : symbol? .question (type.tokens ++ rest) = .ok (false, type.tokens ++ rest) :=
      symbol?_eq_ok.2 (.inr ⟨rfl, rfl, by simp [htokens]⟩)
    rw [TypeArg.tokens_exactly]
    exact .step hno ((hinner.reaches type rest hrest.endsType).map TypeArg.exactly)
  | any =>
    -- An argument ends at a comma or an angle bracket, so no bound follows the wildcard.
    have hextends : word? "extends" rest = .ok (false, rest) :=
      word?_eq_ok.2 (.inr ⟨rfl, rfl, by rcases hrest with h | h <;> simp [h]⟩)
    have hsuper : word? "super" rest = .ok (false, rest) :=
      word?_eq_ok.2 (.inr ⟨rfl, rfl, by rcases hrest with h | h <;> simp [h]⟩)
    rw [TypeArg.tokens_any]
    refine .step (symbol?_eq_ok.2 (.inl ⟨rfl, rfl⟩)) (.step hextends (.step hsuper ?_))
    exact .of_eq (Nat.zero_le _) rfl
  | subtypesOf type =>
    rw [TypeArg.tokens_subtypesOf]
    refine .step (symbol?_eq_ok.2 (.inl ⟨rfl, rfl⟩)) ?_
    refine .step (word?_eq_ok.2 (.inl ⟨rfl, rfl⟩)) ?_
    exact (hinner.reaches type rest hrest.endsType).map TypeArg.subtypesOf
  | supertypesOf type =>
    rw [TypeArg.tokens_supertypesOf]
    refine .step (symbol?_eq_ok.2 (.inl ⟨rfl, rfl⟩)) ?_
    refine .step (word?_eq_ok.2 (.inr ⟨rfl, rfl, by simp⟩)) ?_
    refine .step (word?_eq_ok.2 (.inl ⟨rfl, rfl⟩)) ?_
    exact (hinner.reaches type rest hrest.endsType).map TypeArg.supertypesOf

private theorem endsName_less (ts : List Token) : EndsName (.symbol .less :: ts) :=
  endsName_of_head (by simp)

/-- A class or interface type is read from its own tokens, if it ends there. -/
theorem classType_reaches (hinner : ReadsTypes inner bound) (type : ClassType)
    {rest : List Token} (hname : EndsName rest) (hless : rest.head? ≠ some (.symbol .less)) :
    Reaches (type.toRef.nesting ≤ bound) (classType inner (type.tokens ++ rest))
      (.ok (type, rest)) := by
  obtain ⟨name, args⟩ := type
  cases args with
  | nil =>
    have htokens : ClassType.tokens ⟨name, []⟩ = name.tokens := RefType.tokens_named name []
    rw [htokens]
    refine .step (qualifiedName_tokens name hname) ?_
    exact .step (symbol?_eq_ok.2 (.inr ⟨rfl, rfl, hless⟩)) (.of_eq (Nat.zero_le _) rfl)
  | cons arg args =>
    have htokens : ClassType.tokens ⟨name, arg :: args⟩ = name.tokens ++ .symbol .less ::
        (commaTokens TypeArg.tokens (arg :: args) ++ [.symbol .greater]) :=
      RefType.tokens_named name (arg :: args)
    have hargs : Reaches (∀ a ∈ arg :: args, a.nesting ≤ bound)
        (commaSeparated (typeArg inner)
          (commaTokens TypeArg.tokens (arg :: args) ++ .symbol .greater :: rest))
        (.ok ((arg :: args).map id, .symbol .greater :: rest)) :=
      commaSeparated_reaches EndsArg (typeArg_takes hinner.takes) (by simp)
        (fun a _ rest h => typeArg_reaches hinner a h) (fun _ => .inl rfl) (.inr rfl) (by simp)
    have hgreater : atSymbol .greater
        (commaTokens TypeArg.tokens (arg :: args) ++ .symbol .greater :: rest) =
        .ok (false, commaTokens TypeArg.tokens (arg :: args) ++ .symbol .greater :: rest) := by
      obtain ⟨t, tail, ht, hne⟩ := arg.exists_tokens
      refine atSymbol_eq_ok.2 ⟨?_, rfl⟩
      simp [ht, hne]
    rw [htokens, List.append_assoc, List.cons_append, List.append_assoc, List.singleton_append]
    refine .step (qualifiedName_tokens name (endsName_less _)) ?_
    refine .step (symbol?_eq_ok.2 (.inl ⟨rfl, rfl⟩)) (.step hgreater ?_)
    refine (hargs.finish ?_).congr ?_
    · exact bind_eq_ok.2 ⟨(), rest, expect_eq_ok.2 rfl, by simp [pure_eq_ok]⟩
    · exact TypeArg.nestingList_le

/-- Names are not keywords of types. -/
theorem ofKeyword?_name (n : Name) : PrimitiveType.ofKeyword? n.text = none ∧ n.text ≠ "void" := by
  have hreserved : Naming.isReserved n.text = false := n.isName.2
  constructor
  · cases hkeyword : PrimitiveType.ofKeyword? n.text with
    | none => rfl
    | some p =>
      have hp : Naming.isReserved p.keyword = true := by cases p <;> decide
      rw [ofKeyword?_eq_some.1 hkeyword, hp] at hreserved
      cases hreserved
  · intro hvoid
    rw [hvoid] at hreserved
    revert hreserved
    decide

private theorem arraySuffix?_brackets (type : Ty) (rest : List Token) :
    extend arraySuffix? type (.symbol .leftBracket :: .symbol .rightBracket :: rest) =
      extend arraySuffix? type.array rest := by
  have hstep : arraySuffix? type (.symbol .leftBracket :: .symbol .rightBracket :: rest) =
      .ok (some type.array, rest) := by
    refine bind_eq_ok.2 ⟨true, _, symbol?_eq_ok.2 (.inl ⟨rfl, rfl⟩), ?_⟩
    exact bind_eq_ok.2 ⟨(), rest, expect_eq_ok.2 rfl, rfl⟩
  rw [extend_eq arraySuffix?_advances, hstep]

private theorem arraySuffix?_end (type : Ty) {rest : List Token}
    (hrest : rest.head? ≠ some (.symbol .leftBracket)) :
    extend arraySuffix? type rest = .ok (type, rest) := by
  have hstep : arraySuffix? type rest = .ok (none, rest) :=
    bind_eq_ok.2 ⟨false, rest, symbol?_eq_ok.2 (.inr ⟨rfl, rfl, hrest⟩), rfl⟩
  rw [extend_eq arraySuffix?_advances, hstep]

private theorem baseType_named {inner : Parser RefType} (name : QualifiedName) (args : List TypeArg)
    (rest : List Token) :
    baseType inner ((RefType.named name args).tokens ++ rest) =
      (Ty.ofClass <$> classType inner) (ClassType.tokens ⟨name, args⟩ ++ rest) := by
  obtain ⟨first, more, rfl⟩ := name.exists_ofSegments
  obtain ⟨tail, htail⟩ := RefType.exists_tokens_named first more args
  obtain ⟨hkeyword, hvoid⟩ := ofKeyword?_name first
  have htokens : ClassType.tokens ⟨.ofSegments first more, args⟩ = first.token :: tail := htail
  rw [htail, htokens, baseType, bind_apply]
  simp only [peek, Name.token, List.cons_append, List.head?_cons, hkeyword, hvoid, if_false]

private theorem baseType_keyword {inner : Parser RefType} (p : PrimitiveType) (rest : List Token) :
    baseType inner (.word p.keyword :: rest) = .ok (.primitive p, rest) := by
  rw [baseType, bind_apply]
  simp only [peek, List.head?_cons, PrimitiveType.ofKeyword?_keyword, bind_apply, skip]
  rfl

/-- A reference type is read up to where more brackets may follow. -/
theorem type_reaches_reference (hinner : ReadsTypes inner bound) :
    (reference : RefType) → (rest : List Token) →
      (reference.isKeyword = false → EndsName rest ∧ rest.head? ≠ some (.symbol .less)) →
      Reaches (reference.nesting ≤ bound) (type inner (reference.tokens ++ rest))
        (extend arraySuffix? (.reference reference) rest)
  | .named name args, rest, hrest => by
    obtain ⟨hname, hless⟩ := hrest rfl
    have hclass := (classType_reaches hinner ⟨name, args⟩ hname hless).map Ty.ofClass
    rw [← baseType_named] at hclass
    exact hclass.finish rfl
  | .primitiveArray element, rest, _ => by
    rw [RefType.tokens_primitiveArray]
    refine .step (baseType_keyword element _) ?_
    exact .of_eq (Nat.zero_le _) (arraySuffix?_brackets _ rest)
  | .array element, rest, _ => by
    have helement := type_reaches_reference hinner element
      (.symbol .leftBracket :: .symbol .rightBracket :: rest)
      fun _ => ⟨endsName_of_head (by simp), by simp⟩
    rw [arraySuffix?_brackets] at helement
    rw [RefType.tokens_array, List.append_assoc]
    exact helement

/-- A type is read up to where more brackets may follow. -/
theorem type_reaches_extend (hinner : ReadsTypes inner bound) {found : Ty} (hvoid : found ≠ .void)
    {rest : List Token}
    (hrest : found.isKeyword = false → EndsName rest ∧ rest.head? ≠ some (.symbol .less)) :
    Reaches (found.nesting ≤ bound) (type inner (found.tokens ++ rest))
      (extend arraySuffix? found rest) := by
  cases found with
  | void => exact absurd rfl hvoid
  | primitive p => exact .step (baseType_keyword p rest) (.of_eq (Nat.zero_le _) rfl)
  | reference reference =>
    rw [Ty.tokens_reference]
    exact type_reaches_reference hinner reference rest hrest

/-- A type is read from its own tokens, if it ends there. -/
theorem type_reaches (hinner : ReadsTypes inner bound) {found : Ty} (hvoid : found ≠ .void)
    {rest : List Token} (hbracket : rest.head? ≠ some (.symbol .leftBracket))
    (hrest : found.isKeyword = false → EndsName rest ∧ rest.head? ≠ some (.symbol .less)) :
    Reaches (found.nesting ≤ bound) (type inner (found.tokens ++ rest)) (.ok (found, rest)) := by
  rw [← arraySuffix?_end found hbracket]
  exact type_reaches_extend hinner hvoid hrest

/-- A type is read at the end of the tokens. -/
theorem type_reaches_end (hinner : ReadsTypes inner bound) {found : Ty} (hvoid : found ≠ .void) :
    Reaches (found.nesting ≤ bound) (type inner found.tokens) (.ok (found, [])) := by
  have hreaches : Reaches (found.nesting ≤ bound) (type inner (found.tokens ++ []))
      (.ok (found, [])) :=
    type_reaches hinner hvoid (by simp) fun _ => ⟨endsName_of_head (by simp), by simp⟩
  rwa [List.append_nil] at hreaches

/-- The types at a level are read up to its budget. -/
theorem readsTypes_refTypeAt (budget : Nat) : ReadsTypes (refTypeAt budget) budget := by
  refine ⟨refTypeAt_takes budget, ?_⟩
  induction budget with
  | zero =>
    intro reference rest _
    exact ⟨fun h => absurd h (Nat.not_succ_le_zero _), fun _ => ⟨_, rfl⟩⟩
  | succ budget ih =>
    intro reference rest hrest
    have hne : Ty.reference reference ≠ .void := by simp
    have htype := type_reaches ⟨refTypeAt_takes budget, ih⟩ hne hrest.bracket
      fun _ => ⟨hrest.name, hrest.less⟩
    rw [Ty.tokens_reference] at htype
    exact (Reaches.step (remaining_eq_ok.2 ⟨rfl, rfl⟩) (htype.finish rfl)).congr Nat.succ_le_succ_iff

/-! ## Return types -/

/-- Where a method returns it, `void` is read as well. -/
theorem returnType_takes
    (hinner : Takes inner fun us type => us = type.tokens ∧ type.nesting + 1 ≤ bound) :
    Takes (returnType inner) fun us type => us = type.tokens ∧ type.nesting ≤ bound := by
  intro ts found rest h
  obtain ⟨void, ts', hvoid, hthen⟩ := bind_eq_ok.1 h
  obtain ⟨rfl, rfl⟩ | ⟨rfl, rfl, -⟩ := word?_eq_ok.1 hvoid
  · obtain ⟨rfl, rfl⟩ := pure_eq_ok.1 hthen
    exact ⟨[.word "void"], rfl, by simp, Nat.zero_le _⟩
  · obtain ⟨us, hus, htokens, hnesting, -⟩ := type_takes hinner _ _ _ hthen
    exact ⟨us, hus, htokens, hnesting⟩

theorem returnType_reaches (hinner : ReadsTypes inner bound) (found : Ty) {rest : List Token}
    (hbracket : rest.head? ≠ some (.symbol .leftBracket))
    (hrest : found.isKeyword = false → EndsName rest ∧ rest.head? ≠ some (.symbol .less)) :
    Reaches (found.nesting ≤ bound) (returnType inner (found.tokens ++ rest))
      (.ok (found, rest)) := by
  by_cases hvoid : found = .void
  · subst hvoid
    exact .step (word?_eq_ok.2 (.inl ⟨rfl, rfl⟩)) (.of_eq (Nat.zero_le _) rfl)
  · obtain ⟨text, tail, htokens, hword⟩ := Ty.exists_tokens hvoid
    have hne : text ≠ "void" := by
      rintro rfl
      exact absurd hword (by decide)
    refine .step (word?_eq_ok.2 (.inr ⟨rfl, rfl, by simp [htokens, hne]⟩)) ?_
    exact type_reaches hinner hvoid hbracket hrest

end Parser

end Stubwright.Source
