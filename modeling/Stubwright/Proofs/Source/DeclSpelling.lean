import Stubwright.Proofs.Source.CanonicalExpr
import Stubwright.Proofs.Source.Declarations
import Stubwright.Source.Parser.Decl

/-!
# What is read for a declaration

Whatever the parser reads for a declaration, the tree can be written: no variable is `void`, types
stay within the limit of nesting, and every expression has a spelling. The tokens that were read
have no fewer parentheses, signs and semicolons than the printed ones.

## Main definitions

* `CompilationUnit.exprs` — the expressions in a file
* `CompilationUnit.IsWritable` — files that the parser can answer, up to their expressions
* `TypeDecl.LosesSemicolon` — an enum that is printed without the semicolon before its members
* `Reads` — tokens that were read, compared with the printed ones

## Main results

* `compilationUnit_takes` — what is read for a file
-/

namespace Stubwright.Source

open Source.Parser

/-! ## Expressions in declarations -/

/-- The expression in an annotation. -/
def AnnotationUse.exprs (use : AnnotationUse) : List Expr := use.argument.toList

/-- The expressions in a parameter. -/
def Parameter.exprs (param : Parameter) : List Expr :=
  param.annotations.flatMap AnnotationUse.exprs

/-- The expressions in a statement. -/
def Stmt.exprs : Stmt → List Expr
  | .eval value | .throws value => [value]
  | .returns value => value.toList
  | .declare _ _ init => init.toList

/-- The expressions in a member. -/
def Member.exprs : Member → List Expr
  | .field decl => decl.annotations.flatMap AnnotationUse.exprs ++ decl.init.toList
  | .constructor decl => decl.annotations.flatMap AnnotationUse.exprs ++
      (decl.params.flatMap Parameter.exprs ++ decl.body.flatMap Stmt.exprs)
  | .method decl => decl.annotations.flatMap AnnotationUse.exprs ++
      (decl.params.flatMap Parameter.exprs ++ (decl.body.getD []).flatMap Stmt.exprs)

/-- The constructor call that an enum constant stands for. -/
def EnumConstant.toCall (constant : EnumConstant) : Expr := .call constant.name constant.args

/-- The expressions in a type declaration. -/
def TypeDecl.exprs (decl : TypeDecl) : List Expr :=
  decl.annotations.flatMap AnnotationUse.exprs ++
    (decl.constants.map EnumConstant.toCall ++ decl.members.flatMap Member.exprs)

/-- The expressions in a file. -/
def CompilationUnit.exprs (file : CompilationUnit) : List Expr := file.types.flatMap TypeDecl.exprs

/-! ## Declarations that can be written -/

/-- A type that a variable may have: it is not `void` and stays within the limit of nesting. -/
def Ty.IsVariable (type : Ty) : Prop := type ≠ .void ∧ type.nesting ≤ nestingLimit

/-- A parameter whose type a variable may have. -/
def Parameter.IsWritable (param : Parameter) : Prop := param.type.IsVariable

/-- A statement that declares variables only of types that a variable may have. -/
def Stmt.IsWritable : Stmt → Prop
  | .declare type _ _ => type.IsVariable
  | _ => True

/-- A member that can be written in the type named `owner`, for which its constructors are named. -/
def Member.IsWritable (owner : Name) : Member → Prop
  | .field decl => decl.type.IsVariable
  | .constructor decl => decl.name = owner ∧ (∀ param ∈ decl.params, param.IsWritable) ∧
      ∀ stmt ∈ decl.body, stmt.IsWritable
  | .method decl => decl.returnType.nesting ≤ nestingLimit ∧
      (∀ param ∈ decl.params, param.IsWritable) ∧ ∀ stmt ∈ decl.body.getD [], stmt.IsWritable

/-- A type declaration that can be written: only an enum has constants. -/
structure TypeDecl.IsWritable (decl : TypeDecl) : Prop where
  supers : ∀ type ∈ decl.supers, type.toRef.nesting ≤ nestingLimit
  interfaces : ∀ type ∈ decl.interfaces, type.toRef.nesting ≤ nestingLimit
  constants : decl.kind ≠ .enumType → decl.constants = []
  members : ∀ member ∈ decl.members, member.IsWritable decl.name

/-- An import that can be written: a static one names a member or all members of a type. -/
def Import.IsWritable (i : Import) : Prop := i.isStatic → i.isAsterisk ∨ i.name.isSimple = false

/-- A file that can be written, up to its expressions. -/
structure CompilationUnit.IsWritable (file : CompilationUnit) : Prop where
  imports : ∀ i ∈ file.imports, i.IsWritable
  types : ∀ decl ∈ file.types, decl.IsWritable

/-- An enum without constants that has members: it is printed without the semicolon that has to
stand before them. -/
def TypeDecl.LosesSemicolon (decl : TypeDecl) : Prop :=
  decl.kind = .enumType ∧ decl.constants = [] ∧ decl.members ≠ []

instance (decl : TypeDecl) : Decidable decl.LosesSemicolon :=
  inferInstanceAs (Decidable (_ ∧ _))

/-! ## Tokens that were read -/

namespace Expr

@[simp] theorem strayMinusesIn_nil : strayMinusesIn [] = 0 := rfl

@[simp] theorem strayMinusesIn_cons (e : Expr) (es : List Expr) :
    strayMinusesIn (e :: es) = e.strayMinuses + strayMinusesIn es := rfl

@[simp] theorem strayMinusesIn_append (es fs : List Expr) :
    strayMinusesIn (es ++ fs) = strayMinusesIn es + strayMinusesIn fs := by
  simp [strayMinusesIn_eq]

end Expr

/-- The tokens `us` were read for what is printed as `ts` and contains the expressions `es`: each
of these has a spelling, and what is printed weighs no more, with the stray minus signs counted. -/
structure Reads (us ts : List Token) (es : List Expr) : Prop where
  readable : ∀ e ∈ es, e.isReadable
  weight_le : weight ts + Expr.strayMinusesIn es ≤ weight us

namespace Reads

variable {us vs ts ss : List Token} {es fs : List Expr}

private theorem refl (us : List Token) : Reads us us [] := ⟨by simp, by simp⟩

private theorem append (h : Reads us ts es) (h' : Reads vs ss fs) :
    Reads (us ++ vs) (ts ++ ss) (es ++ fs) := by
  refine ⟨fun e he => (List.mem_append.1 he).elim (h.readable e) (h'.readable e), ?_⟩
  have hle := h.weight_le
  have hle' := h'.weight_le
  simp only [weight_append, Expr.strayMinusesIn_append]
  omega

private theorem prepend (h : Reads us ts es) (vs : List Token) : Reads (vs ++ us) (vs ++ ts) es :=
  (refl vs).append h

private theorem cons (h : Reads us ts es) (t : Token) :
    Reads (t :: us) (t :: ts) es := h.prepend [t]

private theorem after (h : Reads us ts es) (vs : List Token) : Reads (us ++ vs) (ts ++ vs) es := by
  simpa using h.append (refl vs)

variable {α : Type} {tokens : α → List Token} {exprs : α → List Expr}

/-- What is read one after another is compared one by one. -/
theorem flatMap {parts : List (List Token × α)}
    (h : ∀ p ∈ parts, Reads p.1 (tokens p.2) (exprs p.2)) :
    Reads (parts.flatMap Prod.fst) ((parts.map Prod.snd).flatMap tokens)
      ((parts.map Prod.snd).flatMap exprs) := by
  induction parts with
  | nil => exact refl []
  | cons p parts ih =>
    simp only [List.flatMap_cons, List.map_cons]
    exact (h p (by simp)).append (ih fun q hq => h q (by simp [hq]))

private theorem commas {parts : List (List Token × α)}
    (h : ∀ p ∈ parts, Reads p.1 (tokens p.2) (exprs p.2)) :
    Reads (commaTokens Prod.fst parts) (commaTokens tokens (parts.map Prod.snd))
      ((parts.map Prod.snd).flatMap exprs) := by
  have hflat := flatMap h
  refine ⟨hflat.readable, ?_⟩
  have hle := hflat.weight_le
  simp only [weight_flatMap] at hle
  simpa [weight_commaTokens] using hle

end Reads

namespace Parser

/-! ## Types, expressions and statements -/

private theorem firstInner_refType_takes :
    Takes firstInner.refType fun us type => us = type.tokens ∧ type.nesting + 1 ≤ nestingLimit := by
  rw [firstInner, innerAt_refType]
  exact refTypeAt_takes nestingLimit

/-- A type is read from its own tokens, if it is one of a variable. -/
theorem outerType_takes : Takes outerType fun us type => us = type.tokens ∧ type.IsVariable :=
  (type_takes firstInner_refType_takes).imp fun _ _ h => ⟨h.1, h.2.2, h.2.1⟩

/-- A class or interface type is read from its own tokens, within the limit. -/
theorem outerClassType_takes :
    Takes outerClassType fun us type => us = type.tokens ∧ type.toRef.nesting ≤ nestingLimit :=
  classType_takes firstInner_refType_takes

private theorem expr_reads : Takes expr fun us e => Reads us e.tokens [e] := by
  refine expr_takes.imp fun us e ⟨depth, _, he⟩ => ⟨?_, ?_⟩
  · simpa using he.isReadable
  · have hweight := he.weight_le
    simp only [Expr.strayMinusesIn_cons, Expr.strayMinusesIn_nil]
    omega

private theorem initValue_takes :
    Takes initValue fun us init => Reads us (initTokens init) init.toList := by
  intro ts init rest h
  obtain ⟨assign, ts', hassign, hthen⟩ := bind_eq_ok.1 h
  obtain ⟨rfl, rfl⟩ | ⟨rfl, rfl, -⟩ := symbol?_eq_ok.1 hassign
  · obtain ⟨value, hvalue, rfl⟩ := map_eq_ok.1 hthen
    obtain ⟨us, rfl, hus⟩ := expr_reads _ _ _ hvalue
    exact ⟨.symbol .assign :: us, rfl, hus.cons _⟩
  · obtain ⟨rfl, rfl⟩ := pure_eq_ok.1 hthen
    exact ⟨[], rfl, .refl []⟩

private theorem localVariable_takes :
    Takes localVariable fun us stmt => stmt.IsWritable ∧ Reads us stmt.tokens stmt.exprs := by
  intro ts stmt rest h
  obtain ⟨type, ts₁, htype, hthen⟩ := bind_eq_ok.1 h
  obtain ⟨_, rfl, rfl, hvariable⟩ := outerType_takes _ _ _ htype
  obtain ⟨n, ts₂, hname, hinit⟩ := bind_eq_ok.1 hthen
  obtain rfl := name_eq_ok.1 hname
  obtain ⟨init, ts₃, hvalue, hlast⟩ := bind_eq_ok.1 hinit
  obtain ⟨us, rfl, hus⟩ := initValue_takes _ _ _ hvalue
  obtain ⟨_, ts₄, hsemicolon, hdone⟩ := bind_eq_ok.1 hlast
  obtain rfl := expect_eq_ok.1 hsemicolon
  obtain ⟨rfl, rfl⟩ := pure_eq_ok.1 hdone
  refine ⟨type.tokens ++ n.token :: (us ++ [.symbol .semicolon]), by simp, hvariable, ?_⟩
  exact ((hus.after _).cons _).prepend _

private theorem atLocal_eq_ok {found : Bool} {ts rest : List Token}
    (h : atLocal ts = .ok (found, rest)) :
    rest = ts := by
  unfold atLocal at h
  split at h <;> simp at h <;> exact h.2.symm

private theorem exprStmt_takes {what : String} (make : Expr → Stmt) :
    Takes (do let value ← expr; expect .semicolon what; return make value : Parser Stmt)
      fun us stmt => ∃ value vs, stmt = make value ∧ us = vs ++ [.symbol .semicolon] ∧
        Reads vs value.tokens [value] := by
  intro ts stmt rest h
  obtain ⟨value, ts₁, hvalue, hthen⟩ := bind_eq_ok.1 h
  obtain ⟨us, rfl, hus⟩ := expr_reads _ _ _ hvalue
  obtain ⟨_, ts₂, hsemicolon, hdone⟩ := bind_eq_ok.1 hthen
  obtain rfl := expect_eq_ok.1 hsemicolon
  obtain ⟨rfl, rfl⟩ := pure_eq_ok.1 hdone
  exact ⟨us ++ [.symbol .semicolon], by simp, value, us, rfl, rfl, hus⟩

/-- A statement is read from tokens that spell it. -/
theorem stmt_takes :
    Takes stmt fun us stmt => stmt.IsWritable ∧ Reads us stmt.tokens stmt.exprs := by
  intro ts found rest h
  obtain ⟨isReturn, ts₁, hreturn, hthen⟩ := bind_eq_ok.1 h
  obtain ⟨rfl, rfl⟩ | ⟨rfl, rfl, -⟩ := word?_eq_ok.1 hreturn
  · obtain ⟨empty, ts₂, hempty, hvalue⟩ := bind_eq_ok.1 hthen
    obtain ⟨rfl, rfl⟩ | ⟨rfl, rfl, -⟩ := symbol?_eq_ok.1 hempty
    · obtain ⟨rfl, rfl⟩ := pure_eq_ok.1 hvalue
      exact ⟨[.word "return", .symbol .semicolon], rfl, trivial, .refl _⟩
    · obtain ⟨_, rfl, value, vs, rfl, rfl, hvs⟩ :=
        exprStmt_takes (fun value => .returns (some value)) _ _ _ hvalue
      exact ⟨.word "return" :: (vs ++ [.symbol .semicolon]), by simp, trivial, (hvs.after _).cons _⟩
  · obtain ⟨isThrow, ts₂, hthrow, hrest⟩ := bind_eq_ok.1 hthen
    obtain ⟨rfl, rfl⟩ | ⟨rfl, rfl, -⟩ := word?_eq_ok.1 hthrow
    · obtain ⟨_, rfl, value, vs, rfl, rfl, hvs⟩ := exprStmt_takes .throws _ _ _ hrest
      exact ⟨.word "throw" :: (vs ++ [.symbol .semicolon]), by simp, trivial, (hvs.after _).cons _⟩
    · obtain ⟨isLocal, ts₃, hlocal, hlast⟩ := bind_eq_ok.1 hrest
      obtain rfl := atLocal_eq_ok hlocal
      cases isLocal with
      | true => exact localVariable_takes _ _ _ hlast
      | false =>
        obtain ⟨_, rfl, value, vs, rfl, rfl, hvs⟩ := exprStmt_takes .eval _ _ _ hlast
        exact ⟨vs ++ [.symbol .semicolon], rfl, trivial, hvs.after _⟩

/-- What stands between braces: an item, or the closing brace in its place. -/
def braceItem {α : Type} (what : String) (item : Parser α) : Parser (Option α) := do
  if ← symbol? .rightBrace then pure none
  else if (← peek).isNone then unexpected what
  else some <$> item

private theorem braceItem_takes {α : Type} {what : String} {item : Parser α}
    {R : List Token → α → Prop}
    (hitem : Takes item R) :
    Takes (braceItem what item) fun us found => found.elim (us = [.symbol .rightBrace]) (R us) := by
  intro ts found rest h
  obtain ⟨closed, ts₁, hclosed, hthen⟩ := bind_eq_ok.1 h
  obtain ⟨rfl, rfl⟩ | ⟨rfl, rfl, -⟩ := symbol?_eq_ok.1 hclosed
  · obtain ⟨rfl, rfl⟩ := pure_eq_ok.1 hthen
    exact ⟨[.symbol .rightBrace], rfl, rfl⟩
  · obtain ⟨next, ts₂, hnext, hrest⟩ := bind_eq_ok.1 hthen
    obtain ⟨rfl, rfl⟩ := peek_eq_ok.1 hnext
    cases ts₂ with
    | nil => exact absurd hrest unexpected_ne_ok
    | cons t ts =>
      obtain ⟨a, ha, rfl⟩ := map_eq_ok.1 hrest
      exact hitem _ _ _ ha

/-- Items in front of a brace are read on, since none of them is read from nothing. -/
theorem braceItem_advances {α : Type} {what : String} {item : Parser α}
    {R : List Token → α → Prop} (hitem : Takes item R) (hne : ∀ a, ¬ R [] a) :
    Advances (braceItem what item) := by
  intro ts a rest h
  obtain ⟨us, rfl, hus⟩ := braceItem_takes hitem _ _ _ h
  cases us with
  | nil => exact absurd hus (hne a)
  | cons t us =>
    simp only [List.cons_append, List.length_cons, List.length_append]
    omega

private theorem untilBrace_takes {α : Type} {what : String} {item : Parser α}
    {R : List Token → α → Prop}
    (hitem : Takes item R) (hne : ∀ a, ¬ R [] a) :
    Takes (untilBrace what item) fun us as => ∃ parts : List (List Token × α),
      (∀ p ∈ parts, R p.1 p.2) ∧ us = parts.flatMap Prod.fst ++ [.symbol .rightBrace] ∧
        as = parts.map Prod.snd := by
  have hbrace : Takes (braceItem what item) fun us found =>
      found.elim (us = [.symbol .rightBrace]) fun a =>
        ∃ p : List Token × α, R p.1 p.2 ∧ us = p.1 ∧ a = p.2 := by
    refine (braceItem_takes hitem).imp fun us found h => ?_
    cases found with
    | none => exact h
    | some a => exact ⟨(us, a), h, rfl, rfl⟩
  refine (many_takes_until (braceItem_advances hitem hne) hbrace).imp ?_
  rintro us as ⟨parts, _, hparts, rfl, rfl, rfl⟩
  exact ⟨parts, hparts, rfl, rfl⟩

/-- No statement is read from nothing. -/
theorem stmt_not_nil (stmt : Stmt) : ¬ (stmt.IsWritable ∧ Reads [] stmt.tokens stmt.exprs) := by
  rintro ⟨-, hreads⟩
  have hweight := hreads.weight_le
  rcases stmt with value | _ | value | ⟨type, n, init⟩
  case returns value =>
    cases value <;> simp [Stmt.tokens, Token.weight] at hweight
  all_goals simp [Stmt.tokens, Token.weight] at hweight

private theorem block_takes :
    Takes block fun us body => (∀ stmt ∈ body, stmt.IsWritable) ∧
      Reads us (blockTokens body) (body.flatMap Stmt.exprs) := by
  intro ts body rest h
  obtain ⟨_, ts₁, hopen, hthen⟩ := bind_eq_ok.1 h
  obtain rfl := expect_eq_ok.1 hopen
  obtain ⟨_, rfl, parts, hparts, rfl, rfl⟩ := untilBrace_takes stmt_takes stmt_not_nil _ _ _ hthen
  refine ⟨.symbol .leftBrace :: (parts.flatMap Prod.fst ++ [.symbol .rightBrace]), by simp, ?_, ?_⟩
  · exact List.forall_mem_map.2 fun p hp => (hparts p hp).1
  · exact ((Reads.flatMap fun p hp => (hparts p hp).2).after _).cons _

/-! ## Annotations, modifiers and parameters -/

/-- The annotation that stands next. -/
def annotation? : Parser (Option AnnotationUse) := do
  if ← symbol? .atSign then
    let name ← qualifiedName
    if ← symbol? .leftParen then
      let argument ← expr
      expect .rightParen "')' to close annotation argument"
      return some ⟨name, some argument⟩
    else return some ⟨name, none⟩
  else pure none

private theorem annotation?_takes :
    Takes annotation? (OrNothing fun us use => us ≠ [] ∧ Reads us use.tokens use.exprs) := by
  intro ts found rest h
  obtain ⟨atSign, ts₁, hatSign, hthen⟩ := bind_eq_ok.1 h
  obtain ⟨rfl, rfl⟩ | ⟨rfl, rfl, -⟩ := symbol?_eq_ok.1 hatSign
  · obtain ⟨name, ts₂, hname, hrest⟩ := bind_eq_ok.1 hthen
    obtain ⟨_, rfl, rfl⟩ := qualifiedName_takes _ _ _ hname
    obtain ⟨opened, ts₃, hopened, hlast⟩ := bind_eq_ok.1 hrest
    obtain ⟨rfl, rfl⟩ | ⟨rfl, rfl, -⟩ := symbol?_eq_ok.1 hopened
    · obtain ⟨argument, ts₄, hargument, hclose⟩ := bind_eq_ok.1 hlast
      obtain ⟨us, rfl, hus⟩ := expr_reads _ _ _ hargument
      obtain ⟨_, ts₅, hright, hdone⟩ := bind_eq_ok.1 hclose
      obtain rfl := expect_eq_ok.1 hright
      obtain ⟨rfl, rfl⟩ := pure_eq_ok.1 hdone
      refine ⟨.symbol .atSign :: (name.tokens ++
        .symbol .leftParen :: (us ++ [.symbol .rightParen])), by simp, by simp, ?_⟩
      exact (((hus.after _).cons _).prepend _).cons _
    · obtain ⟨rfl, rfl⟩ := pure_eq_ok.1 hlast
      refine ⟨.symbol .atSign :: name.tokens, rfl, by simp, ?_⟩
      simpa [AnnotationUse.tokens, AnnotationUse.exprs] using
        Reads.refl (.symbol .atSign :: name.tokens)
  · obtain ⟨rfl, rfl⟩ := pure_eq_ok.1 hthen
    exact ⟨[], rfl, rfl⟩

theorem annotation?_advances : Advances annotation? := annotation?_takes.advances fun _ h => h.1 rfl

private theorem annotations_takes :
    Takes annotations fun us uses =>
      Reads us (uses.flatMap AnnotationUse.tokens) (uses.flatMap AnnotationUse.exprs) := by
  have hitem : Takes annotation? (OrNothing fun us use =>
      ∃ p : List Token × AnnotationUse, Reads p.1 p.2.tokens p.2.exprs ∧ us = p.1 ∧ use = p.2) := by
    refine annotation?_takes.imp fun us found h => ?_
    cases found with
    | none => exact h
    | some use => exact ⟨(us, use), h.2, rfl, rfl⟩
  refine (many_takes hitem).imp ?_
  rintro us uses ⟨parts, hparts, rfl, rfl⟩
  exact Reads.flatMap hparts

/-- The modifier that stands next. -/
def modifier? : Parser (Option Modifier) := do
  match ← peek with
  | some (.word text) =>
    match Modifier.ofKeyword? text with
    | some modifier =>
      skip
      return some modifier
    | none => pure none
  | _ => pure none

private theorem modifier?_eq_ok {found : Option Modifier} {ts rest : List Token}
    (h : modifier? ts = .ok (found, rest)) :
    (∃ modifier, found = some modifier ∧ ts = modifier.token :: rest) ∨
      (found = none ∧ rest = ts) := by
  obtain ⟨next, ts', hpeek, hthen⟩ := bind_eq_ok.1 h
  obtain ⟨rfl, rfl⟩ := peek_eq_ok.1 hpeek
  rcases ts' with _ | ⟨text | _ | _ | _, ts⟩
  case cons.word =>
    cases hkeyword : Modifier.ofKeyword? text with
    | none =>
      simp only [List.head?_cons, hkeyword] at hthen
      obtain ⟨rfl, rfl⟩ := pure_eq_ok.1 hthen
      exact .inr ⟨rfl, rfl⟩
    | some modifier =>
      have htext : modifier.keyword = text := by simpa using List.find?_some hkeyword
      simp only [List.head?_cons, hkeyword] at hthen
      obtain ⟨_, ts₂, hskip, hdone⟩ := bind_eq_ok.1 hthen
      obtain rfl := skip_eq_ok.1 hskip
      obtain ⟨rfl, rfl⟩ := pure_eq_ok.1 hdone
      exact .inl ⟨modifier, rfl, by rw [Modifier.token, htext]⟩
  all_goals
    obtain ⟨rfl, rfl⟩ := pure_eq_ok.1 hthen
    exact .inr ⟨rfl, rfl⟩

theorem modifier?_advances : Advances modifier? := by
  intro ts modifier rest h
  obtain ⟨_, _, rfl⟩ | ⟨h, -⟩ := modifier?_eq_ok h
  · simp
  · cases h

private theorem modifiers_takes :
    Takes modifiers fun us found => us = found.map Modifier.token := by
  have hitem : Takes modifier? (OrNothing fun us modifier =>
      ∃ m : Modifier, True ∧ us = [m.token] ∧ modifier = id m) := by
    intro ts found rest h
    obtain ⟨modifier, rfl, rfl⟩ | ⟨rfl, rfl⟩ := modifier?_eq_ok h
    · exact ⟨[modifier.token], rfl, modifier, trivial, rfl, rfl⟩
    · exact ⟨[], rfl, rfl⟩
  refine (many_takes hitem).imp ?_
  rintro us found ⟨is, -, rfl, rfl⟩
  rw [List.map_id, List.map_eq_flatMap]

/-- A parameter is read from tokens that spell it. -/
theorem parameter_takes :
    Takes parameter fun us param => param.IsWritable ∧ Reads us param.tokens param.exprs := by
  intro ts param rest h
  obtain ⟨uses, ts₁, huses, hthen⟩ := bind_eq_ok.1 h
  obtain ⟨us, rfl, hus⟩ := annotations_takes _ _ _ huses
  obtain ⟨isFinal, ts₂, hfinal, hrest⟩ := bind_eq_ok.1 hthen
  obtain ⟨type, ts₃, htype, hlast⟩ := bind_eq_ok.1 hrest
  obtain ⟨_, rfl, rfl, hvariable⟩ := outerType_takes _ _ _ htype
  obtain ⟨n, ts₄, hname, hdone⟩ := bind_eq_ok.1 hlast
  obtain rfl := name_eq_ok.1 hname
  obtain ⟨rfl, rfl⟩ := pure_eq_ok.1 hdone
  obtain ⟨rfl, rfl⟩ | ⟨rfl, rfl, -⟩ := word?_eq_ok.1 hfinal
  · refine ⟨us ++ .word "final" :: (type.tokens ++ [n.token]), by simp, hvariable, ?_⟩
    exact hus.after _
  · exact ⟨us ++ (type.tokens ++ [n.token]), by simp, hvariable, hus.after _⟩

private theorem parameterList_takes :
    Takes parameterList fun us params => (∀ param ∈ params, param.IsWritable) ∧
      Reads us (paramTokens params) (params.flatMap Parameter.exprs) := by
  intro ts params rest h
  obtain ⟨_, ts₁, hopen, hthen⟩ := bind_eq_ok.1 h
  obtain rfl := expect_eq_ok.1 hopen
  have hitem : Takes parameter fun us param => ∃ p : List Token × Parameter,
      (p.2.IsWritable ∧ Reads p.1 p.2.tokens p.2.exprs) ∧ us = p.1 ∧ param = p.2 :=
    parameter_takes.imp fun us param h => ⟨(us, param), h, rfl, rfl⟩
  obtain ⟨_, rfl, parts, hparts, rfl, rfl⟩ := upTo_takes hitem _ _ _ hthen
  refine ⟨.symbol .leftParen :: (commaTokens Prod.fst parts ++ [.symbol .rightParen]), by simp,
    ?_, ?_⟩
  · exact List.forall_mem_map.2 fun p hp => (hparts p hp).1
  · exact ((Reads.commas fun p hp => (hparts p hp).2).after _).cons _

private theorem typeParameters_takes :
    Takes typeParameters fun us names => us = typeParamTokens names := by
  intro ts names rest h
  obtain ⟨less, ts₁, hless, hthen⟩ := bind_eq_ok.1 h
  obtain ⟨rfl, rfl⟩ | ⟨rfl, rfl, -⟩ := symbol?_eq_ok.1 hless
  · obtain ⟨found, ts₂, hnames, hrest⟩ := bind_eq_ok.1 hthen
    have hitem : Takes name fun us n => ∃ m : Name, True ∧ us = [m.token] ∧ n = id m := by
      intro ts n rest h
      exact ⟨[n.token], name_eq_ok.1 h, n, trivial, rfl, rfl⟩
    obtain ⟨_, rfl, names, hne, -, rfl, rfl⟩ := commaSeparated_takes hitem _ _ _ hnames
    obtain ⟨_, ts₃, hgreater, hdone⟩ := bind_eq_ok.1 hrest
    obtain rfl := expect_eq_ok.1 hgreater
    obtain ⟨rfl, rfl⟩ := pure_eq_ok.1 hdone
    refine ⟨.symbol .less :: (commaTokens (fun n => [n.token]) names ++ [.symbol .greater]),
      by simp, ?_⟩
    cases names with
    | nil => exact absurd rfl hne
    | cons n names => simp [typeParamTokens]
  · obtain ⟨rfl, rfl⟩ := pure_eq_ok.1 hthen
    exact ⟨[], rfl, rfl⟩

/-! ## Members -/

private theorem methodBody_takes :
    Takes methodBody fun us body => (∀ stmt ∈ body.getD [], stmt.IsWritable) ∧
      Reads us (bodyTokens body) ((body.getD []).flatMap Stmt.exprs) := by
  intro ts body rest h
  obtain ⟨braced, ts₁, hbraced, hthen⟩ := bind_eq_ok.1 h
  obtain ⟨-, rfl⟩ := atSymbol_eq_ok.1 hbraced
  cases braced with
  | true =>
    obtain ⟨stmts, hstmts, rfl⟩ := map_eq_ok.1 hthen
    exact block_takes _ _ _ hstmts
  | false =>
    obtain ⟨_, ts₂, hsemicolon, hdone⟩ := bind_eq_ok.1 hthen
    obtain rfl := expect_eq_ok.1 hsemicolon
    obtain ⟨rfl, rfl⟩ := pure_eq_ok.1 hdone
    exact ⟨[.symbol .semicolon], rfl, by simp, .refl _⟩

section Members

variable {us : List Token} {uses : List AnnotationUse} {found : List Modifier}

private theorem lead_reads (hus : Reads us (uses.flatMap AnnotationUse.tokens)
    (uses.flatMap AnnotationUse.exprs)) :
    Reads (us ++ found.map Modifier.token) (leadTokens uses found)
      (uses.flatMap AnnotationUse.exprs) := hus.after _

private theorem constructorRest_takes {owner : Name} {ts rest : List Token} {member : Member}
    (hus : Reads us (uses.flatMap AnnotationUse.tokens) (uses.flatMap AnnotationUse.exprs))
    (howner : ts.head? = some owner.token)
    (h : constructorRest uses found ts = .ok (member, rest)) :
    ∃ vs, ts = vs ++ rest ∧ member.IsWritable owner ∧
      Reads (us ++ (found.map Modifier.token ++ vs)) member.tokens member.exprs := by
  obtain ⟨n, ts₁, hname, hthen⟩ := bind_eq_ok.1 h
  obtain rfl := name_eq_ok.1 hname
  obtain ⟨params, ts₂, hparams, hrest⟩ := bind_eq_ok.1 hthen
  obtain ⟨vs, rfl, hwritable, hvs⟩ := parameterList_takes _ _ _ hparams
  obtain ⟨body, ts₃, hbody, hdone⟩ := bind_eq_ok.1 hrest
  obtain ⟨ws, rfl, hstmts, hws⟩ := block_takes _ _ _ hbody
  obtain ⟨rfl, rfl⟩ := pure_eq_ok.1 hdone
  obtain rfl : n = owner := by
    obtain ⟨text, hn⟩ := n
    obtain ⟨text', ho⟩ := owner
    simpa [Name.token] using howner
  refine ⟨n.token :: (vs ++ ws), by simp, ⟨rfl, hwritable, hstmts⟩, ?_⟩
  rw [← List.append_assoc]
  exact (lead_reads hus).append ((hvs.append hws).cons _)

private theorem typedMember_takes {owner : Name} {names : List Name} {ts rest : List Token}
    {member : Member}
    (hus : Reads us (uses.flatMap AnnotationUse.tokens) (uses.flatMap AnnotationUse.exprs))
    (h : typedMember uses found names ts = .ok (member, rest)) :
    ∃ vs, ts = vs ++ rest ∧ member.IsWritable owner ∧
      Reads (us ++ (found.map Modifier.token ++ (typeParamTokens names ++ vs))) member.tokens
        member.exprs := by
  obtain ⟨type, ts₁, htype, hthen⟩ := bind_eq_ok.1 h
  obtain ⟨_, rfl, rfl, hnesting⟩ := returnType_takes firstInner_refType_takes _ _ _ htype
  obtain ⟨n, ts₂, hname, hrest⟩ := bind_eq_ok.1 hthen
  obtain rfl := name_eq_ok.1 hname
  obtain ⟨opened, ts₃, hopened, hbody⟩ := bind_eq_ok.1 hrest
  obtain ⟨-, rfl⟩ := atSymbol_eq_ok.1 hopened
  cases opened with
  | true =>
    obtain ⟨params, ts₄, hparams, hlast⟩ := bind_eq_ok.1 hbody
    obtain ⟨vs, rfl, hwritable, hvs⟩ := parameterList_takes _ _ _ hparams
    obtain ⟨body, ts₅, hmethod, hdone⟩ := bind_eq_ok.1 hlast
    obtain ⟨ws, rfl, hstmts, hws⟩ := methodBody_takes _ _ _ hmethod
    obtain ⟨rfl, rfl⟩ := pure_eq_ok.1 hdone
    refine ⟨type.tokens ++ n.token :: (vs ++ ws), by simp, ⟨hnesting, hwritable, hstmts⟩, ?_⟩
    rw [← List.append_assoc]
    exact (lead_reads hus).append ((((hvs.append hws).cons _).prepend _).prepend _)
  | false =>
    by_cases hvoid : type.isVoid
    · simp only [Bool.false_eq_true, if_false, if_pos hvoid] at hbody
      exact absurd hbody fail_ne_ok
    · cases names with
      | cons name names =>
        simp only [Bool.false_eq_true, if_false, if_neg hvoid] at hbody
        exact absurd hbody unexpected_ne_ok
      | nil =>
        simp only [Bool.false_eq_true, if_false, if_neg hvoid] at hbody
        obtain ⟨init, ts₄, hinit, hlast⟩ := bind_eq_ok.1 hbody
        obtain ⟨vs, rfl, hvs⟩ := initValue_takes _ _ _ hinit
        obtain ⟨_, ts₅, hsemicolon, hdone⟩ := bind_eq_ok.1 hlast
        obtain rfl := expect_eq_ok.1 hsemicolon
        obtain ⟨rfl, rfl⟩ := pure_eq_ok.1 hdone
        refine ⟨type.tokens ++ n.token :: (vs ++ [.symbol .semicolon]), by simp, ⟨?_, hnesting⟩, ?_⟩
        · rintro rfl
          exact hvoid rfl
        · rw [← List.append_assoc]
          exact (lead_reads hus).append (((hvs.after _).cons _).prepend _)

end Members

/-- A member is read from tokens that spell it. -/
theorem member_takes (owner : Name) :
    Takes (member owner) fun us member =>
      member.IsWritable owner ∧ Reads us member.tokens member.exprs := by
  intro ts found rest h
  obtain ⟨uses, ts₁, huses, hthen⟩ := bind_eq_ok.1 h
  obtain ⟨us, rfl, hus⟩ := annotations_takes _ _ _ huses
  obtain ⟨mods, ts₂, hmods, hrest⟩ := bind_eq_ok.1 hthen
  obtain ⟨_, rfl, rfl⟩ := modifiers_takes _ _ _ hmods
  obtain ⟨names, ts₃, hnames, hlast⟩ := bind_eq_ok.1 hrest
  obtain ⟨_, rfl, rfl⟩ := typeParameters_takes _ _ _ hnames
  obtain ⟨first, ts₄, hfirst, hmember⟩ := bind_eq_ok.1 hlast
  obtain ⟨rfl, rfl⟩ := peek_eq_ok.1 hfirst
  obtain ⟨second, ts₅, hsecond, hkind⟩ := bind_eq_ok.1 hmember
  obtain ⟨rfl, rfl⟩ := peekSecond_eq_ok.1 hsecond
  by_cases hctor : ts₅.head? = some (.word owner.text) ∧ ts₅[1]? = some (.symbol .leftParen)
  · rw [if_pos hctor] at hkind
    cases names with
    | cons n names => exact absurd hkind unexpected_ne_ok
    | nil =>
      obtain ⟨vs, rfl, hwritable, hvs⟩ := constructorRest_takes hus hctor.1 hkind
      exact ⟨_, by simp [typeParamTokens], hwritable, hvs⟩
  · rw [if_neg hctor] at hkind
    obtain ⟨vs, rfl, hwritable, hvs⟩ := typedMember_takes hus hkind
    exact ⟨_, by simp, hwritable, hvs⟩

/-- No member is read from nothing. -/
theorem member_not_nil {owner : Name} (member : Member) :
    ¬ (member.IsWritable owner ∧ Reads [] member.tokens member.exprs) := by
  rintro ⟨-, hreads⟩
  have hweight := hreads.weight_le
  cases member with
  | field decl => simp [Member.tokens, FieldDecl.tokens, Token.weight] at hweight
  | constructor decl =>
    simp [Member.tokens, ConstructorDecl.tokens, paramTokens, Token.weight] at hweight
  | method decl =>
    simp [Member.tokens, MethodDecl.tokens, paramTokens, Token.weight] at hweight

/-! ## Type declarations -/

private theorem arguments_reads :
    Takes (arguments firstInner) fun us args => (∀ arg ∈ args, arg.isReadable) ∧
      weight (Expr.listTokens args) + Expr.strayMinusesIn args ≤ weight us := by
  refine (arguments_takes (reads_innerAt nestingLimit)).imp ?_
  rintro us args ⟨parts, hparts, rfl, rfl⟩
  refine ⟨List.forall_mem_map.2 fun p hp => (hparts p hp).2.isReadable, ?_⟩
  exact Part.weight_le fun p hp =>
    Nat.le_of_add_right_le (Nat.le_of_add_right_le (hparts p hp).2.weight_le)

private theorem enumConstant_takes :
    Takes enumConstant fun us constant =>
      us ≠ [] ∧ Reads us constant.tokens [constant.toCall] := by
  intro ts constant rest h
  obtain ⟨n, ts₁, hname, hthen⟩ := bind_eq_ok.1 h
  obtain rfl := name_eq_ok.1 hname
  obtain ⟨opened, ts₂, hopened, hlast⟩ := bind_eq_ok.1 hthen
  obtain ⟨-, rfl⟩ := atSymbol_eq_ok.1 hopened
  cases opened with
  | true =>
    obtain ⟨args, ts₃, hargs, hdone⟩ := bind_eq_ok.1 hlast
    obtain ⟨us, rfl, hreadable, hweight⟩ := arguments_reads _ _ _ hargs
    obtain ⟨rfl, rfl⟩ := pure_eq_ok.1 hdone
    refine ⟨n.token :: us, by simp, by simp, ?_, ?_⟩
    · simpa [EnumConstant.toCall, Expr.isReadable, Expr.areReadable_iff] using hreadable
    · -- Without arguments no parentheses are printed, and with them the printed ones weigh no more.
      have hprinted : weight (EnumConstant.tokens ⟨n, args⟩) ≤
          weight (Expr.listTokens args) := by
        rw [EnumConstant.tokens]
        split <;> simp [Name.token, Token.weight]
      simp only [EnumConstant.toCall, Expr.strayMinusesIn_cons, Expr.strayMinuses,
        Expr.strayMinusesIn_nil, weight_cons]
      omega
  | false =>
    obtain ⟨rfl, rfl⟩ := pure_eq_ok.1 hlast
    refine ⟨[n.token], rfl, by simp, by simp [EnumConstant.toCall, Expr.isReadable, Expr.areReadable],
      ?_⟩
    simp [EnumConstant.toCall, EnumConstant.tokens, Expr.strayMinuses]

/-- What the constants read so far weigh, in whatever order. -/
def ReadsConstants (us : List Token) (constants : List EnumConstant) : Prop :=
  Reads us (constants.flatMap EnumConstant.tokens) (constants.map EnumConstant.toCall)

private theorem moreConstants?_takes (read : List EnumConstant × Bool) :
    Takes (moreConstants? read) (OrNothing fun us next => ∃ constant vs ws,
      us = vs ++ ws ∧ vs ≠ [] ∧ next.1 = constant :: read.1 ∧
        Reads vs constant.tokens [constant.toCall]) := by
  intro ts found rest h
  obtain ⟨next, ts₁, hnext, hthen⟩ := bind_eq_ok.1 h
  obtain ⟨t, ts₂, hpeek, hconstant⟩ := bind_eq_ok.1 hnext
  obtain ⟨rfl, rfl⟩ := peek_eq_ok.1 hpeek
  by_cases hword : read.2 = true ∧ ∃ text tail, ts₂ = .word text :: tail
  · obtain ⟨hmay, text, tail, rfl⟩ := hword
    simp only [hmay, List.head?_cons] at hconstant
    obtain ⟨constant, ts₃, henum, hcomma⟩ := bind_eq_ok.1 hconstant
    obtain ⟨us, hus, hne, hreads⟩ := enumConstant_takes _ _ _ henum
    obtain ⟨comma, ts₄, hsymbol, hdone⟩ := bind_eq_ok.1 hcomma
    obtain ⟨rfl, rfl⟩ := pure_eq_ok.1 hdone
    obtain ⟨rfl, rfl⟩ := pure_eq_ok.1 hthen
    obtain ⟨rfl, rfl⟩ | ⟨rfl, rfl, -⟩ := symbol?_eq_ok.1 hsymbol
    · exact ⟨us ++ [.symbol .comma], by simp [hus], constant, us, [.symbol .comma], rfl, hne, rfl,
        hreads⟩
    · exact ⟨us, hus, constant, us, [], by simp, hne, rfl, hreads⟩
  · have hnone : next = none ∧ ts₁ = ts₂ := by
      obtain ⟨read, mayFollow⟩ := read
      cases mayFollow with
      | false => exact pure_eq_ok.1 hconstant
      | true =>
        rcases ts₂ with _ | ⟨text | _ | _ | _, ts⟩
        case cons.word => exact absurd ⟨rfl, text, ts, rfl⟩ hword
        all_goals exact pure_eq_ok.1 hconstant
    obtain ⟨rfl, rfl⟩ := hnone
    obtain ⟨rfl, rfl⟩ := pure_eq_ok.1 hthen
    exact ⟨[], rfl, rfl⟩

theorem moreConstants?_advances (read : List EnumConstant × Bool) :
    Advances (moreConstants? read) :=
  (moreConstants?_takes read).advances fun _ ⟨_, _, _, hnil, hne, _⟩ =>
    hne (List.append_eq_nil_iff.1 hnil.symm).1

/-- The constants of an enum are read up to a semicolon, or to the brace that closes the enum. -/
theorem enumConstants_takes {ts rest : List Token} {constants : List EnumConstant}
    (h : enumConstants ts = .ok (constants, rest)) :
    ∃ us vs, ts = us ++ vs ++ rest ∧ ReadsConstants us constants ∧
      (vs = [.symbol .semicolon] ∨ vs = [] ∧ rest.head? = some (.symbol .rightBrace)) := by
  obtain ⟨⟨read, mayFollow⟩, ts₁, hextend, hthen⟩ := bind_eq_ok.1 h
  -- The constants are kept with the last one first, and every step puts one in front.
  have hstep : ∀ us (read : List EnumConstant × Bool), ReadsConstants us read.1 →
      Takes (moreConstants? read) (OrNothing fun vs next => ReadsConstants (us ++ vs) next.1) := by
    intro us read hread
    refine (moreConstants?_takes read).imp fun vs found hfound => ?_
    cases found with
    | none => exact hfound
    | some next =>
      obtain ⟨constant, vs, ws, rfl, -, hnext, hconstant⟩ := hfound
      have hboth := hconstant.append hread
      refine ⟨?_, ?_⟩
      · rw [hnext]
        exact hboth.readable
      · have hweight := hboth.weight_le
        rw [hnext]
        simp only [List.flatMap_cons, List.map_cons, weight_append, Expr.strayMinusesIn_append,
          Expr.strayMinusesIn_cons, Expr.strayMinusesIn_nil] at hweight ⊢
        omega
  have hnone : ReadsConstants [] [] := .refl []
  obtain ⟨us, rfl, hus⟩ := extend_takes hstep hnone _ _ _ hextend
  have hreverse : ReadsConstants us read.reverse := by
    have hweight := hus.weight_le
    refine ⟨by simpa using hus.readable, ?_⟩
    simp only [weight_flatMap, Expr.strayMinusesIn_eq, List.map_reverse, List.sum_reverse,
      List.map_map, List.nil_append] at hweight ⊢
    exact hweight
  obtain ⟨closed, ts₂, hclosed, hrest⟩ := bind_eq_ok.1 hthen
  obtain ⟨hhead, rfl⟩ := atSymbol_eq_ok.1 hclosed
  cases closed with
  | true =>
    obtain ⟨rfl, rfl⟩ := pure_eq_ok.1 hrest
    exact ⟨us, [], by simp, hreverse, .inr ⟨rfl, by simpa using hhead.symm⟩⟩
  | false =>
    obtain ⟨_, ts₃, hsemicolon, hdone⟩ := bind_eq_ok.1 hrest
    obtain rfl := expect_eq_ok.1 hsemicolon
    obtain ⟨rfl, rfl⟩ := pure_eq_ok.1 hdone
    exact ⟨us, [.symbol .semicolon], by simp, hreverse, .inl rfl⟩

private theorem typeDeclKind_eq_ok {kind : TypeDeclKind} {ts rest : List Token}
    (h : typeDeclKind ts = .ok (kind, rest)) : ts = .word kind.keyword :: rest := by
  obtain ⟨isClass, ts₁, hclass, hthen⟩ := bind_eq_ok.1 h
  obtain ⟨rfl, rfl⟩ | ⟨rfl, rfl, -⟩ := word?_eq_ok.1 hclass
  · obtain ⟨rfl, rfl⟩ := pure_eq_ok.1 hthen
    rfl
  · obtain ⟨isInterface, ts₂, hinterface, hrest⟩ := bind_eq_ok.1 hthen
    obtain ⟨rfl, rfl⟩ | ⟨rfl, rfl, -⟩ := word?_eq_ok.1 hinterface
    · obtain ⟨rfl, rfl⟩ := pure_eq_ok.1 hrest
      rfl
    · obtain ⟨isEnum, ts₃, henum, hlast⟩ := bind_eq_ok.1 hrest
      obtain ⟨rfl, rfl⟩ | ⟨rfl, rfl, -⟩ := word?_eq_ok.1 henum
      · obtain ⟨rfl, rfl⟩ := pure_eq_ok.1 hlast
        rfl
      · exact absurd hlast unexpected_ne_ok

private theorem clause_takes (keyword : String) :
    Takes (clause keyword) fun us types =>
      us = clauseTokens keyword types ∧ ∀ type ∈ types, type.toRef.nesting ≤ nestingLimit := by
  intro ts types rest h
  obtain ⟨found, ts₁, hfound, hthen⟩ := bind_eq_ok.1 h
  obtain ⟨rfl, rfl⟩ | ⟨rfl, rfl, -⟩ := word?_eq_ok.1 hfound
  · have hitem : Takes outerClassType fun us type => ∃ t : ClassType,
        t.toRef.nesting ≤ nestingLimit ∧ us = t.tokens ∧ type = id t :=
      outerClassType_takes.imp fun us type h => ⟨type, h.2, h.1, rfl⟩
    obtain ⟨_, rfl, types, hne, hnesting, rfl, rfl⟩ := commaSeparated_takes hitem _ _ _ hthen
    refine ⟨.word keyword :: commaTokens ClassType.tokens types, by simp, ?_, by simpa using hnesting⟩
    cases types with
    | nil => exact absurd rfl hne
    | cons type types => simp [clauseTokens]
  · obtain ⟨rfl, rfl⟩ := pure_eq_ok.1 hthen
    exact ⟨[], rfl, rfl, by simp⟩

end Parser

/-- The semicolons that the printed form of a declaration lacks. -/
def TypeDecl.lostSemicolons (decl : TypeDecl) : Nat := if decl.LosesSemicolon then 1 else 0

namespace Parser

/-- What is read for a type declaration: the semicolon that its printed form may lack was there. -/
structure ReadsDecl (us : List Token) (decl : TypeDecl) : Prop where
  writable : decl.IsWritable
  readable : ∀ e ∈ decl.exprs, e.isReadable
  weight_le : weight decl.tokens + Expr.strayMinusesIn decl.exprs + decl.lostSemicolons ≤ weight us

private theorem untilBrace_of_head {α : Type} {what : String} {item : Parser α}
    {R : List Token → α → Prop} (hitem : Takes item R) (hne : ∀ a, ¬ R [] a) {ts rest : List Token}
    {as : List α} (hhead : ts.head? = some (.symbol .rightBrace))
    (h : untilBrace what item ts = .ok (as, rest)) : as = [] := by
  have hrun : untilBrace what item ts = .ok ([], ts.drop 1) := by
    cases ts with
    | nil => cases hhead
    | cons t ts =>
      obtain rfl : t = .symbol .rightBrace := by simpa using hhead
      have hstep : braceItem what item (.symbol .rightBrace :: ts) = .ok (none, ts) :=
        bind_eq_ok.2 ⟨true, ts, symbol?_eq_ok.2 (.inl ⟨rfl, rfl⟩), rfl⟩
      have hmany : many (braceItem what item) (.symbol .rightBrace :: ts) = .ok ([], ts) := by
        rw [many_eq (braceItem_advances hitem hne), hstep]
      exact hmany
  rw [hrun] at h
  cases h
  rfl

/-- The body of a type declaration: its constants, if it is an enum, and its members. -/
theorem typeBody_takes {kind : TypeDeclKind} {owner : Name} {ts rest : List Token}
    {constants : List EnumConstant} {members : List Member} {ts₁ : List Token}
    (hconstants : (if kind = .enumType then enumConstants else pure []) ts = .ok (constants, ts₁))
    (hmembers : untilBrace "'\x7d' to close type body" (member owner) ts₁ = .ok (members, rest)) :
    ∃ us, ts = us ++ rest ∧ (kind ≠ .enumType → constants = []) ∧
      (∀ member ∈ members, member.IsWritable owner) ∧
      Reads us (constants.flatMap EnumConstant.tokens ++ members.flatMap Member.tokens)
        (constants.map EnumConstant.toCall ++ members.flatMap Member.exprs) ∧
      (kind = .enumType → members ≠ [] →
        weight (constants.flatMap EnumConstant.tokens ++ members.flatMap Member.tokens) +
          Expr.strayMinusesIn (constants.map EnumConstant.toCall ++
            members.flatMap Member.exprs) + 1 ≤ weight us) := by
  obtain ⟨_, rfl, parts, hparts, rfl, rfl⟩ :=
    untilBrace_takes (member_takes owner) member_not_nil _ _ _ hmembers
  have hwritable : ∀ member ∈ parts.map Prod.snd, member.IsWritable owner :=
    List.forall_mem_map.2 fun p hp => (hparts p hp).1
  have hreads := Reads.flatMap fun p hp => (hparts p hp).2
  by_cases hkind : kind = .enumType
  · rw [if_pos hkind] at hconstants
    obtain ⟨us, vs, rfl, hus, hvs⟩ := enumConstants_takes hconstants
    have hboth := hus.append hreads
    refine ⟨us ++ vs ++ (parts.flatMap Prod.fst ++ [.symbol .rightBrace]), by simp, ?_, hwritable,
      ⟨hboth.readable, ?_⟩, fun _ hmembers' => ?_⟩
    · exact fun h => absurd hkind h
    · have hweight := hboth.weight_le
      simp only [weight_append] at hweight ⊢
      omega
    · have hweight := hboth.weight_le
      rcases hvs with rfl | ⟨-, hhead⟩
      -- The semicolon that was read pays for the one that is printed.
      · simp only [weight_append, weight_cons, Token.weight, weight_nil] at hweight ⊢
        omega
      · exact absurd (untilBrace_of_head (member_takes owner) member_not_nil hhead hmembers)
          hmembers'
  · rw [if_neg hkind] at hconstants
    obtain ⟨rfl, rfl⟩ := pure_eq_ok.1 hconstants
    refine ⟨parts.flatMap Prod.fst ++ [.symbol .rightBrace], rfl, fun _ => rfl, hwritable,
      ⟨hreads.readable, ?_⟩, fun h => absurd h hkind⟩
    have hweight := hreads.weight_le
    simp only [List.flatMap_nil, List.map_nil, List.nil_append, weight_append]
    omega

private theorem weight_constantTokens_le (decl : TypeDecl) :
    weight decl.constantTokens + decl.lostSemicolons ≤
      weight (decl.constants.flatMap EnumConstant.tokens) +
        if decl.kind = .enumType ∧ decl.members ≠ [] then 1 else 0 := by
  have hcommas : weight (commaTokens EnumConstant.tokens decl.constants) =
      weight (decl.constants.flatMap EnumConstant.tokens) := by
    rw [weight_commaTokens, weight_flatMap]
  unfold TypeDecl.constantTokens TypeDecl.lostSemicolons
  by_cases hprints : decl.printsConstants
  · have hlost : ¬ decl.LosesSemicolon := fun h => hprints.2 h.2.1
    rw [if_pos hprints, if_neg hlost, weight_append, hcommas]
    cases hmembers : decl.members with
    | nil => simp
    | cons member members => simp [hprints.1, Token.weight]
  · rw [if_neg hprints]
    by_cases hlost : decl.LosesSemicolon
    · rw [if_pos hlost, if_pos ⟨hlost.1, hlost.2.2⟩]
      simp
    · rw [if_neg hlost]
      simp

private theorem typeDecl_takes : Takes typeDecl fun us decl => us ≠ [] ∧ ReadsDecl us decl := by
  intro ts decl rest h
  obtain ⟨uses, ts₁, huses, h₁⟩ := bind_eq_ok.1 h
  obtain ⟨us, rfl, hus⟩ := annotations_takes _ _ _ huses
  obtain ⟨mods, ts₂, hmods, h₂⟩ := bind_eq_ok.1 h₁
  obtain ⟨_, rfl, rfl⟩ := modifiers_takes _ _ _ hmods
  obtain ⟨kind, ts₃, hkind, h₃⟩ := bind_eq_ok.1 h₂
  obtain rfl := typeDeclKind_eq_ok hkind
  obtain ⟨n, ts₄, hname, h₄⟩ := bind_eq_ok.1 h₃
  obtain rfl := name_eq_ok.1 hname
  obtain ⟨supers, ts₅, hsupers, h₅⟩ := bind_eq_ok.1 h₄
  obtain ⟨_, rfl, rfl, hsupers'⟩ := clause_takes "extends" _ _ _ hsupers
  obtain ⟨interfaces, ts₆, hinterfaces, h₆⟩ := bind_eq_ok.1 h₅
  obtain ⟨_, rfl, rfl, hinterfaces'⟩ := clause_takes "implements" _ _ _ hinterfaces
  obtain ⟨_, ts₇, hopen, h₇⟩ := bind_eq_ok.1 h₆
  obtain rfl := expect_eq_ok.1 hopen
  -- The constants are read in one branch only; both branches go on in the same way behind it.
  obtain ⟨constants, ts₈, hconstants, hrest⟩ : ∃ constants ts₈,
      (if kind = .enumType then enumConstants else pure []) ts₇ = .ok (constants, ts₈) ∧
        (do let members ← untilBrace "'\x7d' to close type body" (member n)
            return ⟨uses, mods, kind, n, supers, interfaces, constants, members⟩ :
          Parser TypeDecl) ts₈ = .ok (decl, rest) := by
    by_cases hkind : kind = .enumType
    · simp only [if_pos hkind] at h₇ ⊢
      exact bind_eq_ok.1 h₇
    · simp only [if_neg hkind] at h₇ ⊢
      exact bind_eq_ok.1 h₇
  obtain ⟨members, ts₉, hmembers, hdone⟩ := bind_eq_ok.1 hrest
  obtain ⟨rfl, rfl⟩ := pure_eq_ok.1 hdone
  obtain ⟨vs, rfl, hkinds, hwritable, hvs, hsemicolon⟩ := typeBody_takes hconstants hmembers
  refine ⟨us ++ (mods.map Modifier.token ++ .word kind.keyword :: n.token ::
    (clauseTokens "extends" supers ++ (clauseTokens "implements" interfaces ++
      .symbol .leftBrace :: vs))), by simp, by simp, ⟨hsupers', hinterfaces', hkinds, hwritable⟩,
    (hus.append hvs).readable, ?_⟩
  have hweight := hus.weight_le
  have hweight' := hvs.weight_le
  have hconstant := weight_constantTokens_le
    ⟨uses, mods, kind, n, supers, interfaces, constants, members⟩
  simp only [TypeDecl.tokens, TypeDecl.exprs, leadTokens, weight_append, weight_cons,
    Expr.strayMinusesIn_append, Token.weight, Name.token, weight_nil] at *
  split at hconstant
  · rename_i hboth
    have hextra := hsemicolon hboth.1 hboth.2
    omega
  · omega

/-! ## Files -/

private theorem asterisk_eq_ok {found : Bool} {ts rest : List Token}
    (h : asterisk ts = .ok (found, rest)) :
    (found = true ∧ ts = .symbol .dot :: .symbol .star :: rest) ∨ (found = false ∧ rest = ts) := by
  obtain ⟨first, ts₁, hfirst, hthen⟩ := bind_eq_ok.1 h
  obtain ⟨rfl, rfl⟩ := peek_eq_ok.1 hfirst
  obtain ⟨second, ts₂, hsecond, hlast⟩ := bind_eq_ok.1 hthen
  obtain ⟨rfl, rfl⟩ := peekSecond_eq_ok.1 hsecond
  by_cases hstar : ts₂.head? = some (.symbol .dot) ∧ ts₂[1]? = some (.symbol .star)
  · rcases ts₂ with _ | ⟨t, _ | ⟨s, tail⟩⟩ <;> simp at hstar
    obtain ⟨rfl, rfl⟩ := hstar
    obtain ⟨_, _, hdot, hrest⟩ := bind_eq_ok.1 hlast
    obtain rfl := skip_eq_ok.1 hdot
    obtain ⟨_, _, hskip, hdone⟩ := bind_eq_ok.1 hrest
    obtain rfl := skip_eq_ok.1 hskip
    obtain ⟨rfl, rfl⟩ := pure_eq_ok.1 hdone
    exact .inl ⟨rfl, rfl⟩
  · generalize ts₂.head? = first at hlast hstar
    generalize ts₂[1]? = second at hlast hstar
    split at hlast
    · exact absurd ⟨rfl, rfl⟩ hstar
    · exact .inr (pure_eq_ok.1 hlast)

/-- What an import names is read from its own tokens, and can be written. -/
theorem importTarget_takes (isStatic : Bool) :
    Takes (importTarget isStatic) fun us i =>
      us = i.targetTokens ∧ i.isStatic = isStatic ∧ i.IsWritable := by
  intro ts i rest h
  obtain ⟨before, ts₁, hbefore, hthen⟩ := bind_eq_ok.1 h
  obtain ⟨rfl, rfl⟩ := remaining_eq_ok.1 hbefore
  obtain ⟨name, ts₂, hname, hrest⟩ := bind_eq_ok.1 hthen
  obtain ⟨_, rfl, rfl⟩ := qualifiedName_takes _ _ _ hname
  obtain ⟨isAsterisk, ts₃, hasterisk, hlast⟩ := bind_eq_ok.1 hrest
  by_cases htype : (isStatic && !isAsterisk && name.isSimple) = true
  · rw [if_pos htype] at hlast
    exact absurd hlast failAt_ne_ok
  · rw [if_neg htype] at hlast
    obtain ⟨rfl, rfl⟩ := pure_eq_ok.1 hlast
    have hwritable : Import.IsWritable ⟨name, isStatic, isAsterisk⟩ := by
      intro hstatic
      cases isAsterisk <;> simp_all
    obtain ⟨rfl, rfl⟩ | ⟨rfl, rfl⟩ := asterisk_eq_ok hasterisk
    · exact ⟨name.tokens ++ [.symbol .dot, .symbol .star], by simp, rfl, rfl, hwritable⟩
    · exact ⟨name.tokens, rfl, by simp [Import.targetTokens], rfl, hwritable⟩

/-- An import is read from its own tokens, and can be written. -/
theorem importDecl_takes : Takes importDecl fun us i => us = i.tokens ∧ i.IsWritable := by
  intro ts i rest h
  obtain ⟨found, ts₁, hfound, hthen⟩ := bind_eq_ok.1 h
  obtain ⟨rfl, rfl⟩ | ⟨rfl, rfl, -⟩ := word?_eq_ok.1 hfound
  · obtain ⟨isStatic, ts₂, hstatic, hrest⟩ := bind_eq_ok.1 hthen
    obtain ⟨target, ts₃, htarget, hlast⟩ := bind_eq_ok.1 hrest
    obtain ⟨_, rfl, rfl, hisStatic, hwritable⟩ := importTarget_takes isStatic _ _ _ htarget
    obtain ⟨_, ts₄, hsemicolon, hdone⟩ := bind_eq_ok.1 hlast
    obtain rfl := expect_eq_ok.1 hsemicolon
    obtain ⟨rfl, rfl⟩ := pure_eq_ok.1 hdone
    refine ⟨i.tokens, ?_, rfl, hwritable⟩
    obtain ⟨rfl, rfl⟩ | ⟨rfl, rfl, -⟩ := word?_eq_ok.1 hstatic
    · simp [Import.tokens, hisStatic]
    · simp [Import.tokens, hisStatic]
  · exact absurd hthen unexpected_ne_ok

private theorem packageDecl_takes :
    Takes packageDecl fun us name => us = CompilationUnit.packageTokens name := by
  intro ts found rest h
  obtain ⟨package, ts₁, hpackage, hthen⟩ := bind_eq_ok.1 h
  obtain ⟨rfl, rfl⟩ | ⟨rfl, rfl, -⟩ := word?_eq_ok.1 hpackage
  · obtain ⟨name, ts₂, hname, hlast⟩ := bind_eq_ok.1 hthen
    obtain ⟨_, rfl, rfl⟩ := qualifiedName_takes _ _ _ hname
    obtain ⟨_, ts₃, hsemicolon, hdone⟩ := bind_eq_ok.1 hlast
    obtain rfl := expect_eq_ok.1 hsemicolon
    obtain ⟨rfl, rfl⟩ := pure_eq_ok.1 hdone
    exact ⟨_, by simp [CompilationUnit.packageTokens], rfl⟩
  · obtain ⟨rfl, rfl⟩ := pure_eq_ok.1 hthen
    exact ⟨[], rfl, rfl⟩

/-- The import that stands next. -/
def import? : Parser (Option Import) := do
  if (← peek) = some (.word "import") then some <$> importDecl else pure none

/-- An import is read where there is one, and otherwise nothing is. -/
theorem import?_takes : Takes import? (OrNothing fun us i => us = i.tokens ∧ i.IsWritable) := by
  intro ts found rest h
  obtain ⟨next, ts₁, hnext, hthen⟩ := bind_eq_ok.1 h
  obtain ⟨rfl, rfl⟩ := peek_eq_ok.1 hnext
  by_cases hword : ts₁.head? = some (.word "import")
  · rw [if_pos hword] at hthen
    obtain ⟨i, hi, rfl⟩ := map_eq_ok.1 hthen
    exact importDecl_takes _ _ _ hi
  · rw [if_neg hword] at hthen
    obtain ⟨rfl, rfl⟩ := pure_eq_ok.1 hthen
    exact ⟨[], rfl, rfl⟩

/-- The type declaration that stands next, unless the file ends. -/
def typeDecl? : Parser (Option TypeDecl) := do
  if (← peek).isNone then pure none else some <$> typeDecl

/-- A type declaration is read where there is one, from tokens that spell it. -/
theorem typeDecl?_takes :
    Takes typeDecl? (OrNothing fun us decl => us ≠ [] ∧ ReadsDecl us decl) := by
  intro ts found rest h
  obtain ⟨next, ts₁, hnext, hthen⟩ := bind_eq_ok.1 h
  obtain ⟨rfl, rfl⟩ := peek_eq_ok.1 hnext
  by_cases hnone : ts₁.head?.isNone = true
  · rw [if_pos hnone] at hthen
    obtain ⟨rfl, rfl⟩ := pure_eq_ok.1 hthen
    exact ⟨[], rfl, rfl⟩
  · rw [if_neg hnone] at hthen
    obtain ⟨decl, hdecl, rfl⟩ := map_eq_ok.1 hthen
    exact typeDecl_takes _ _ _ hdecl

/-- What is read for a file: it can be written, and the semicolons that its printed form lacks and
the stray minus signs were paid for by tokens that are not printed. -/
theorem compilationUnit_takes :
    Takes compilationUnit fun us file => file.IsWritable ∧ (∀ e ∈ file.exprs, e.isReadable) ∧
      weight file.tokens + Expr.strayMinusesIn file.exprs +
        (file.types.map TypeDecl.lostSemicolons).sum ≤ weight us := by
  intro ts file rest h
  obtain ⟨package, ts₁, hpackage, h₁⟩ := bind_eq_ok.1 h
  obtain ⟨_, rfl, rfl⟩ := packageDecl_takes _ _ _ hpackage
  obtain ⟨imports, ts₂, himports, h₂⟩ := bind_eq_ok.1 h₁
  have himport : Takes import? (OrNothing fun us i =>
      ∃ j : Import, j.IsWritable ∧ us = j.tokens ∧ i = id j) := by
    refine import?_takes.imp fun us found hfound => ?_
    cases found with
    | none => exact hfound
    | some i => exact ⟨i, hfound.2, hfound.1, rfl⟩
  obtain ⟨_, rfl, imports, hwritable, rfl, rfl⟩ := many_takes himport _ _ _ himports
  obtain ⟨types, ts₃, htypes, hdone⟩ := bind_eq_ok.1 h₂
  have htype : Takes typeDecl? (OrNothing fun us decl => ∃ p : List Token × TypeDecl,
      ReadsDecl p.1 p.2 ∧ us = p.1 ∧ decl = p.2) := by
    refine typeDecl?_takes.imp fun us found hfound => ?_
    cases found with
    | none => exact hfound
    | some decl => exact ⟨(us, decl), hfound.2, rfl, rfl⟩
  obtain ⟨_, rfl, parts, hparts, rfl, rfl⟩ := many_takes htype _ _ _ htypes
  obtain ⟨rfl, rfl⟩ := pure_eq_ok.1 hdone
  -- What every declaration owes is paid by its own tokens, so the sums are in the same order.
  have hweights : weight ((parts.map Prod.snd).flatMap TypeDecl.tokens) +
      Expr.strayMinusesIn ((parts.map Prod.snd).flatMap TypeDecl.exprs) +
        ((parts.map Prod.snd).map TypeDecl.lostSemicolons).sum ≤
          weight (parts.flatMap Prod.fst) := by
    clear htypes hdone himports hpackage h h₁ h₂
    induction parts with
    | nil => simp
    | cons p parts ih =>
      have hfirst := (hparts p (by simp)).weight_le
      have hrest := ih fun q hq => hparts q (by simp [hq])
      simp only [List.map_cons, List.flatMap_cons, weight_append, Expr.strayMinusesIn_append,
        List.sum_cons]
      omega
  refine ⟨CompilationUnit.packageTokens package ++ (imports.flatMap Import.tokens ++
    parts.flatMap Prod.fst), by simp, ⟨by simpa using hwritable, ?_⟩, ?_, ?_⟩
  · exact List.forall_mem_map.2 fun p hp => (hparts p hp).writable
  · intro e he
    obtain ⟨decl, hdecl, he⟩ := List.mem_flatMap.1 he
    obtain ⟨p, hp, rfl⟩ := List.mem_map.1 hdecl
    exact (hparts p hp).readable e he
  · simp only [CompilationUnit.tokens, CompilationUnit.exprs, weight_append, List.map_id]
    omega

end Parser

end Stubwright.Source
