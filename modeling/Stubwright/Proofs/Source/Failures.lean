import Mathlib.Order.Basic
import Stubwright.Proofs.Source.Parsing
import Stubwright.Source.Parser.Decl

/-!
# Where parsers fail

A failure says how many tokens were left where it arose. Parsers fail at the next token, or further
back at a token whose place they kept; so no failure counts more tokens than its parser was given,
and every failure has a place among the tokens of the text. Each way to put parsers together keeps
this bound, and each parser is followed part by part.

## Main definitions

* `Parser.Within` — the failures of a parser count no more tokens than a bound
* `Inner.Within` — the same of the parsers of the next level of nesting

## Main results

* `Within.bind`, `Within.remaining`, `Within.many`, `Within.extend` — what keeps the bound
* `within_expr`, `within_compilationUnit` — expressions and files, with everything in them
-/

namespace Stubwright.Source

namespace Parser

variable {α β : Type} {bound : Nat}

/-- A parser that never leaves more tokens than it was given, and whose failures count no more
tokens than `bound` where it is given no more than that. -/
structure Within (bound : Nat) (p : Parser α) : Prop where
  length_le : ∀ {ts a rest}, ts.length ≤ bound → p ts = .ok (a, rest) → rest.length ≤ ts.length
  remaining_le : ∀ {ts failure}, ts.length ≤ bound → p ts = .error failure →
    failure.remaining ≤ bound

/-! ## Basic parsers -/

private theorem within_pure (a : α) : Within bound (pure a) where
  length_le _ h := (congrArg List.length (pure_eq_ok.1 h).2).le
  remaining_le _ h := by cases h

private theorem within_failAt {place : Nat} (h : place ≤ bound) (fault : SyntaxFault) :
    Within bound (failAt place fault : Parser α) where
  length_le _ h := absurd h failAt_ne_ok
  remaining_le _ herror := by
    obtain rfl := Except.error.inj herror
    exact h

private theorem within_fail (fault : SyntaxFault) : Within bound (fail fault : Parser α) where
  length_le _ h := absurd h fail_ne_ok
  remaining_le hts herror := by
    obtain rfl := Except.error.inj herror
    exact hts

private theorem within_unexpected (what : String) : Within bound (unexpected what : Parser α) where
  length_le _ h := absurd h unexpected_ne_ok
  remaining_le hts herror := by
    obtain rfl := Except.error.inj herror
    exact hts

private theorem within_peek : Within bound peek where
  length_le _ h := (congrArg List.length (peek_eq_ok.1 h).2).le
  remaining_le _ h := by cases h

private theorem within_peekSecond : Within bound peekSecond where
  length_le _ h := (congrArg List.length (peekSecond_eq_ok.1 h).2).le
  remaining_le _ h := by cases h

private theorem within_skip : Within bound skip where
  length_le _ h := by simp [skip_eq_ok.1 h]
  remaining_le _ h := by cases h

private theorem within_take? (token : Token) : Within bound (take? token) where
  length_le _ h := by
    obtain ⟨-, rfl⟩ | ⟨-, rfl, -⟩ := take?_eq_ok.1 h
    · exact Nat.le_succ _
    · exact le_rfl
  remaining_le _ h := by
    unfold take? at h
    split at h
    · cases h
    · split_ifs at h

private theorem within_symbol? (s : Symbol) : Within bound (symbol? s) := within_take? _

private theorem within_word? (text : String) : Within bound (word? text) := within_take? _

/-! ## Putting parsers together -/

theorem Within.bind {p : Parser α} {f : α → Parser β} (hp : Within bound p)
    (hf : ∀ a, Within bound (f a)) : Within bound (p >>= f) where
  length_le hts h := by
    obtain ⟨a, rest, hok, hmore⟩ := bind_eq_ok.1 h
    have hrest := hp.length_le hts hok
    exact ((hf a).length_le (hrest.trans hts) hmore).trans hrest
  remaining_le {ts failure} hts h := by
    rw [bind_apply] at h
    cases hok : p ts with
    | error failure =>
      rw [hok] at h
      obtain rfl := Except.error.inj h
      exact hp.remaining_le hts hok
    | ok result =>
      obtain ⟨a, rest⟩ := result
      rw [hok] at h
      exact (hf a).remaining_le ((hp.length_le hts hok).trans hts) h

private theorem Within.map {p : Parser α} (f : α → β) (hp : Within bound p) :
    Within bound (f <$> p) := by
  rw [map_eq_pure_bind]
  exact hp.bind fun a => within_pure (f a)

private theorem Within.ite {p q : Parser α} {c : Prop} [Decidable c] (hp : Within bound p)
    (hq : Within bound q) : Within bound (if c then p else q) := by
  split_ifs
  · exact hp
  · exact hq

/-- A parser may fail later at the place where it stands now. -/
theorem Within.remaining {f : Nat → Parser α} (hf : ∀ place ≤ bound, Within bound (f place)) :
    Within bound (Parser.remaining >>= f) where
  length_le {ts _ _} hts h := (hf ts.length hts).length_le hts h
  remaining_le {ts _} hts h := (hf ts.length hts).remaining_le hts h

private theorem within_atSymbol (s : Symbol) : Within bound (atSymbol s) :=
  .bind within_peek fun _ => within_pure _

private theorem within_expect (s : Symbol) (what : String) : Within bound (expect s what) :=
  .bind (within_symbol? s) fun _ => .ite (within_pure _) (within_unexpected what)

theorem Within.many {item : Parser (Option α)} (hitem : Within bound item) :
    Within bound (many item) := by
  -- How many rounds there are depends on the tokens, so the bound is shown for any number of them.
  have hrounds : ∀ rounds, Within bound (manyUpTo item rounds) := by
    intro rounds
    induction rounds with
    | zero => exact within_pure _
    | succ rounds ih =>
      refine hitem.bind fun found => ?_
      cases found with
      | none => exact within_pure _
      | some a => exact ih.bind fun _ => within_pure _
  exact ⟨fun hts h => (hrounds _).length_le hts h, fun hts h => (hrounds _).remaining_le hts h⟩

theorem Within.extend {step : α → Parser (Option α)} (hstep : ∀ a, Within bound (step a)) (a : α) :
    Within bound (extend step a) := by
  have hrounds : ∀ rounds a, Within bound (extendUpTo step rounds a) := by
    intro rounds
    induction rounds with
    | zero => exact fun a => within_pure a
    | succ rounds ih =>
      refine fun a => (hstep a).bind fun found => ?_
      cases found with
      | none => exact within_pure a
      | some b => exact ih b
  exact ⟨fun hts h => (hrounds _ a).length_le hts h, fun hts h => (hrounds _ a).remaining_le hts h⟩

private theorem Within.commaSeparated {item : Parser α} (hitem : Within bound item) :
    Within bound (commaSeparated item) := by
  refine hitem.bind fun _ => .bind (.many ?_) fun _ => within_pure _
  exact .bind (within_symbol? .comma) fun _ => .ite (hitem.map some) (within_pure _)

private theorem Within.upTo {item : Parser α} (hitem : Within bound item) (close : Symbol)
    (what : String) : Within bound (upTo close what item) := by
  refine .bind (within_symbol? close) fun _ => .ite (within_pure _) ?_
  exact hitem.commaSeparated.bind fun _ => .bind (within_expect close what) fun _ => within_pure _

/-! ## Names -/

theorem within_name : Within bound name := by
  refine .bind within_peek fun next => ?_
  split
  · split_ifs
    · exact .bind within_skip fun _ => within_pure _
    · exact within_fail _
    · exact within_unexpected _
  · exact within_unexpected _

private theorem within_dotName? : Within bound dotName? := by
  refine .bind within_peek fun next => .bind within_peekSecond fun second => ?_
  split
  · exact .bind within_skip fun _ => .map some within_name
  · exact within_pure _

theorem within_qualifiedName : Within bound qualifiedName :=
  .bind within_name fun _ => .bind (.many within_dotName?) fun _ => within_pure _

/-! ## Types -/

section Types

variable {inner : Parser RefType}

private theorem within_typeArg (hinner : Within bound inner) : Within bound (typeArg inner) := by
  refine .bind (within_symbol? .question) fun _ => .ite ?_ (hinner.map _)
  refine .bind (within_word? "extends") fun _ => .ite (hinner.map _) ?_
  exact .bind (within_word? "super") fun _ => .ite (hinner.map _) (within_pure _)

private theorem within_classType (hinner : Within bound inner) :
    Within bound (classType inner) := by
  refine .bind within_qualifiedName fun name => .bind (within_symbol? .less) fun _ =>
    .ite ?_ (within_pure _)
  have hargs : Within bound do
      let args ← commaSeparated (typeArg inner)
      expect .greater "'>' to close type arguments"
      return ClassType.mk name args :=
    (within_typeArg hinner).commaSeparated.bind fun _ =>
      .bind (within_expect _ _) fun _ => within_pure _
  exact .bind (within_atSymbol .greater) fun _ => .ite (.bind (within_fail _) fun _ => hargs) hargs

private theorem within_arraySuffix? (type : Ty) : Within bound (arraySuffix? type) :=
  .bind (within_symbol? .leftBracket) fun _ =>
    .ite (.bind (within_expect _ _) fun _ => within_pure _) (within_pure _)

private theorem within_baseType (hinner : Within bound inner) : Within bound (baseType inner) := by
  refine .bind within_peek fun next => ?_
  split
  · split
    · exact .bind within_skip fun _ => within_pure _
    · exact .ite (within_fail _) ((within_classType hinner).map _)
  · exact within_unexpected _

private theorem within_type (hinner : Within bound inner) : Within bound (type inner) :=
  .bind (within_baseType hinner) fun base => .extend within_arraySuffix? base

private theorem within_refType (hinner : Within bound inner) : Within bound (refType inner) := by
  refine .remaining fun before hbefore => .bind (within_type hinner) fun type => ?_
  split
  · exact within_failAt hbefore _
  · exact within_pure _

private theorem within_refTypeAt (budget : Nat) : Within bound (refTypeAt budget) := by
  induction budget with
  | zero => exact within_fail _
  | succ budget ih => exact within_refType ih

private theorem within_returnType (hinner : Within bound inner) : Within bound (returnType inner) :=
  .bind (within_word? "void") fun _ => .ite (within_pure _) (within_type hinner)

end Types

end Parser

/-! ## Expressions -/

/-- The failures of the parsers of the next level of nesting count no more tokens than a bound. -/
structure Inner.Within (bound : Nat) (inner : Inner) : Prop where
  expr : Parser.Within bound inner.expr
  unary : Parser.Within bound inner.unary
  refType : Parser.Within bound inner.refType

namespace Parser

variable {α : Type} {bound : Nat}

section Expressions

variable {inner : Inner}

private theorem within_arguments (hinner : inner.Within bound) : Within bound (arguments inner) :=
  .bind (within_expect _ _) fun _ => hinner.expr.upTo _ _

private theorem within_keywordClassLiteral (hinner : inner.Within bound) :
    Within bound (keywordClassLiteral inner) := by
  refine .bind (within_returnType hinner.refType) fun type => ?_
  refine .bind within_peek fun next => .bind within_peekSecond fun second => ?_
  split
  · exact .bind within_skip fun _ => .bind within_skip fun _ => within_pure _
  · exact within_unexpected _

private theorem within_creation (hinner : inner.Within bound) : Within bound (creation inner) :=
  .bind (within_classType hinner.refType) fun _ => .bind (within_arguments hinner) fun _ =>
    within_pure _

private theorem within_nameOrCall (hinner : inner.Within bound) : Within bound (nameOrCall inner) :=
  .bind within_name fun _ => .bind (within_atSymbol _) fun _ =>
    .ite (.bind (within_arguments hinner) fun _ => within_pure _) (within_pure _)

private theorem within_wordExpr (hinner : inner.Within bound) (text : String) :
    Within bound (wordExpr inner text) := by
  have hliteral : ∀ value, Within bound do
      skip
      return (value : Expr) := fun _ => .bind within_skip fun _ => within_pure _
  refine .ite (hliteral _) (.ite (hliteral _) (.ite (hliteral _) (.ite ?_ (.ite ?_ ?_))))
  · exact .bind within_skip fun _ => within_creation hinner
  · exact within_keywordClassLiteral hinner
  · exact within_nameOrCall hinner

private theorem within_integerLiteral (magnitude : Nat) : Within bound (integerLiteral magnitude) :=
  .ite (.bind within_skip fun _ => within_pure _) (within_fail _)

private theorem within_negativeLiteral (magnitude : Nat) :
    Within bound (negativeLiteral magnitude) :=
  .ite (.bind within_skip fun _ => within_pure _) (within_fail _)

private theorem within_primary (hinner : inner.Within bound) : Within bound (primary inner) := by
  refine .bind within_peek fun next => ?_
  split
  · exact within_integerLiteral _
  · exact .bind within_skip fun _ => within_pure _
  · refine .bind within_skip fun _ => hinner.expr.bind fun _ => ?_
    exact .bind (within_expect _ _) fun _ => within_pure _
  · exact within_wordExpr hinner _
  · exact within_unexpected _

/-- A class literal of something that is no name fails at the dot. -/
theorem within_selection? (hinner : inner.Within bound) (target : Expr) :
    Within bound (selection? inner target) := by
  refine .remaining fun before hbefore => .bind (within_symbol? .dot) fun _ =>
    .ite (.bind (within_word? "class") fun _ => .ite ?_ ?_) (within_pure _)
  · split
    · exact within_pure _
    · exact within_failAt hbefore _
  · exact .bind within_name fun _ => .bind (within_atSymbol _) fun _ =>
      .ite (.bind (within_arguments hinner) fun _ => within_pure _) (within_pure _)

private theorem within_postfixed (hinner : inner.Within bound) : Within bound (postfixed inner) :=
  .bind (within_primary hinner) fun target => .extend (within_selection? hinner) target

private theorem within_unary (hinner : inner.Within bound) : Within bound (unary inner) := by
  refine .bind (within_symbol? .bang) fun _ => .ite (hinner.unary.bind fun _ => within_pure _) ?_
  refine .bind (within_symbol? .minus) fun _ => .ite ?_ (within_postfixed hinner)
  refine .bind within_peek fun next => ?_
  split
  · exact within_negativeLiteral _
  · exact hinner.unary.bind fun _ => within_pure _

private theorem within_leftChain (operators : List BinaryOp) {operand : Parser Expr}
    (hoperand : Within bound operand) : Within bound (leftChain operators operand) := by
  refine hoperand.bind fun first => .extend (fun left => .bind within_peek fun next => ?_) first
  split
  · exact .bind within_skip fun _ => hoperand.bind fun _ => within_pure _
  · exact within_pure _

private theorem within_disjunction (hinner : inner.Within bound) :
    Within bound (disjunction inner) :=
  within_leftChain _ (within_leftChain _ (within_leftChain _ (within_leftChain _
    (within_unary hinner))))

/-- An assignment to something that takes none fails where its target begins. -/
theorem within_exprWith (hinner : inner.Within bound) : Within bound (exprWith inner) := by
  refine .remaining fun before hbefore => .bind (within_disjunction hinner) fun target =>
    .bind (within_symbol? .assign) fun _ => .ite ?_ (within_pure _)
  exact .ite (hinner.expr.bind fun _ => within_pure _) (within_failAt hbefore _)

private theorem within_innerAt (budget : Nat) : (innerAt budget).Within bound := by
  induction budget with
  | zero => exact ⟨within_fail _, within_fail _, within_fail _⟩
  | succ budget ih => exact ⟨within_exprWith ih, within_unary ih, within_refTypeAt (budget + 1)⟩

private theorem within_firstInner : firstInner.Within bound := within_innerAt nestingLimit

theorem within_expr : Within bound expr := within_exprWith within_firstInner

end Expressions

/-! ## Statements -/

theorem within_outerClassType : Within bound outerClassType :=
  within_classType within_firstInner.refType

theorem within_outerType : Within bound outerType := within_type within_firstInner.refType

private theorem within_initValue : Within bound initValue :=
  .bind (within_symbol? .assign) fun _ => .ite (.map some within_expr) (within_pure _)

private theorem within_atLocal : Within bound atLocal where
  length_le _ h := by
    unfold atLocal at h
    split at h <;> exact (congrArg (List.length ∘ Prod.snd) (Except.ok.inj h)).ge
  remaining_le _ h := by
    unfold atLocal at h
    split at h <;> cases h

private theorem within_localVariable : Within bound localVariable :=
  .bind within_outerType fun _ => .bind within_name fun _ => .bind within_initValue fun _ =>
    .bind (within_expect _ _) fun _ => within_pure _

private theorem within_stmt : Within bound stmt := by
  have hvalue : ∀ (what : String) (make : Expr → Stmt), Within bound do
      let value ← expr
      expect .semicolon what
      return make value := fun what make =>
    .bind within_expr fun _ => .bind (within_expect .semicolon what) fun _ => within_pure _
  refine .bind (within_word? "return") fun _ => .ite ?_ ?_
  · exact .bind (within_symbol? .semicolon) fun _ => .ite (within_pure _) (hvalue _ _)
  refine .bind (within_word? "throw") fun _ => .ite (hvalue _ _) ?_
  exact .bind within_atLocal fun _ => .ite within_localVariable (hvalue _ _)

private theorem Within.untilBrace {item : Parser α} (hitem : Within bound item) (what : String) :
    Within bound (untilBrace what item) := by
  refine .many (.bind (within_symbol? .rightBrace) fun _ => .ite (within_pure _) ?_)
  exact .bind within_peek fun _ => .ite (within_unexpected what) (hitem.map some)

private theorem within_block : Within bound block :=
  .bind (within_expect _ _) fun _ => .untilBrace within_stmt _

/-! ## Annotations, modifiers and parameters -/

private theorem within_annotations : Within bound annotations := by
  refine .many (.bind (within_symbol? .atSign) fun _ => .ite ?_ (within_pure _))
  refine .bind within_qualifiedName fun _ => .bind (within_symbol? .leftParen) fun _ =>
    .ite ?_ (within_pure _)
  exact .bind within_expr fun _ => .bind (within_expect _ _) fun _ => within_pure _

private theorem within_modifiers : Within bound modifiers := by
  refine .many (.bind within_peek fun next => ?_)
  split
  · split
    · exact .bind within_skip fun _ => within_pure _
    · exact within_pure _
  · exact within_pure _

theorem within_parameter : Within bound parameter :=
  .bind within_annotations fun _ => .bind (within_word? "final") fun _ =>
    .bind within_outerType fun _ => .bind within_name fun _ => within_pure _

private theorem within_parameterList : Within bound parameterList :=
  .bind (within_expect _ _) fun _ => .upTo within_parameter _ _

private theorem within_typeParameters : Within bound typeParameters :=
  .bind (within_symbol? .less) fun _ => .ite (.bind (.commaSeparated within_name) fun _ =>
    .bind (within_expect _ _) fun _ => within_pure _) (within_pure _)

/-! ## Members -/

private theorem within_constructorRest (annotations : List AnnotationUse)
    (modifiers : List Modifier) :
    Within bound (constructorRest annotations modifiers) :=
  .bind within_name fun _ => .bind within_parameterList fun _ => .bind within_block fun _ =>
    within_pure _

private theorem within_methodBody : Within bound methodBody :=
  .bind (within_atSymbol _) fun _ => .ite (.map some within_block)
    (.bind (within_expect _ _) fun _ => within_pure _)

private theorem within_typedMember (annotations : List AnnotationUse) (modifiers : List Modifier)
    (typeParams : List Name) :
    Within bound (typedMember annotations modifiers typeParams) := by
  refine .bind (within_returnType within_firstInner.refType) fun _ => .bind within_name fun _ =>
    .bind (within_atSymbol _) fun _ => .ite ?_
      (.ite (within_fail _) (.ite (within_unexpected _) ?_))
  · exact .bind within_parameterList fun _ => .bind within_methodBody fun _ => within_pure _
  · exact .bind within_initValue fun _ => .bind (within_expect _ _) fun _ => within_pure _

private theorem within_member (owner : Name) : Within bound (member owner) := by
  refine .bind within_annotations fun _ => .bind within_modifiers fun _ =>
    .bind within_typeParameters fun _ => .bind within_peek fun _ =>
    .bind within_peekSecond fun _ => ?_
  exact .ite (.ite (within_constructorRest _ _) (within_unexpected _)) (within_typedMember _ _ _)

/-! ## Type declarations -/

private theorem within_enumConstant : Within bound enumConstant :=
  .bind within_name fun _ => .bind (within_atSymbol _) fun _ =>
    .ite (.bind (within_arguments within_firstInner) fun _ => within_pure _) (within_pure _)

private theorem within_enumConstant? (mayFollow : Bool) :
    Within bound (enumConstant? mayFollow) := by
  refine .bind within_peek fun next => ?_
  split
  · exact .bind within_enumConstant fun _ => .bind (within_symbol? _) fun _ => within_pure _
  · exact within_pure _

private theorem within_moreConstants? (read : List EnumConstant × Bool) :
    Within bound (moreConstants? read) := by
  refine .bind (within_enumConstant? read.2) fun found => ?_
  split
  · exact within_pure _
  · exact within_pure _

private theorem within_enumConstants : Within bound enumConstants := by
  refine (Within.extend within_moreConstants? _).bind fun _ => .bind (within_atSymbol _) fun _ => ?_
  exact .ite (within_pure _) (.bind (within_expect _ _) fun _ => within_pure _)

private theorem within_typeDeclKind : Within bound typeDeclKind :=
  .bind (within_word? "class") fun _ => .ite (within_pure _) <|
    .bind (within_word? "interface") fun _ => .ite (within_pure _) <|
      .bind (within_word? "enum") fun _ => .ite (within_pure _) (within_unexpected _)

private theorem within_clause (keyword : String) : Within bound (clause keyword) :=
  .bind (within_word? keyword) fun _ => .ite (.commaSeparated within_outerClassType) (within_pure _)

private theorem within_typeDecl : Within bound typeDecl := by
  refine .bind within_annotations fun _ => .bind within_modifiers fun _ =>
    .bind within_typeDeclKind fun _ => .bind within_name fun name =>
    .bind (within_clause _) fun _ =>
    .bind (within_clause _) fun _ => .bind (within_expect _ _) fun _ => ?_
  have hmembers : ∀ make : List Member → TypeDecl, Within bound do
      return make (← untilBrace "'\x7d' to close type body" (member name)) := fun _ =>
    ((within_member name).untilBrace _).bind fun _ => within_pure _
  exact .ite (.bind within_enumConstants fun _ => hmembers _) (hmembers _)

/-! ## Files -/

private theorem within_asterisk : Within bound asterisk := by
  refine .bind within_peek fun next => .bind within_peekSecond fun second => ?_
  split
  · exact .bind within_skip fun _ => .bind within_skip fun _ => within_pure _
  · exact within_pure _

/-- A static import of a simple name fails where the name begins. -/
theorem within_importTarget (isStatic : Bool) : Within bound (importTarget isStatic) := by
  refine .remaining fun before hbefore => .bind within_qualifiedName fun _ =>
    .bind within_asterisk fun _ => ?_
  exact .ite (within_failAt hbefore _) (within_pure _)

theorem within_importDecl : Within bound importDecl := by
  refine .bind (within_word? "import") fun _ => .ite ?_ (within_unexpected _)
  exact .bind (within_word? "static") fun _ => .bind (within_importTarget _) fun _ =>
    .bind (within_expect _ _) fun _ => within_pure _

private theorem within_packageDecl : Within bound packageDecl :=
  .bind (within_word? "package") fun _ => .ite (.bind within_qualifiedName fun _ =>
    .bind (within_expect _ _) fun _ => within_pure _) (within_pure _)

theorem within_compilationUnit : Within bound compilationUnit := by
  refine .bind within_packageDecl fun _ => .bind (.many ?_) fun _ => .bind (.many ?_) fun _ =>
    within_pure _
  · exact .bind within_peek fun _ => .ite (.map some within_importDecl) (within_pure _)
  · exact .bind within_peek fun _ => .ite (within_pure _) (.map some within_typeDecl)

end Parser

end Stubwright.Source
