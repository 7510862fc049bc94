import Stubwright.Proofs.Source.StatementReading

/-!
# Declarations are read back

A declaration that can be written is read from its printed tokens, unless an expression in it nests
too deep. What may follow an annotation, a modifier or a clause is known by its first token.

## Main results

* `member_reaches`, `typeDecl_reaches` — members and type declarations are read from their tokens
* `compilationUnit_reaches` — files are read from their tokens
-/

namespace Stubwright.Source

namespace Parser

/-! ## Annotations and modifiers -/

/-- What may stand behind annotations begins with none of the symbols that go on with them. -/
def EndsAnnotations (ts : List Token) : Prop :=
  ∀ s ∈ [Symbol.atSign, .leftParen, .dot], ts.head? ≠ some (.symbol s)

private theorem endsAnnotations_word (text : String) (ts : List Token) :
    EndsAnnotations (.word text :: ts) := fun _ _ => by simp

private theorem endsAnnotations_less (ts : List Token) : EndsAnnotations (.symbol .less :: ts) := by
  intro s hs hhead
  obtain rfl : .less = s := by simpa using hhead
  exact absurd hs (by decide)

private theorem annotation?_reaches {use : AnnotationUse} (h : ∀ e ∈ use.exprs, e.IsSpelled)
    {rest : List Token} (hrest : EndsName rest ∧ rest.head? ≠ some (.symbol .leftParen)) :
    Reaches (Expr.AllFit use.exprs) (annotation? (use.tokens ++ rest)) (.ok (some use, rest)) := by
  obtain ⟨name, _ | value⟩ := use
  · have htokens : AnnotationUse.tokens ⟨name, none⟩ ++ rest =
        .symbol .atSign :: (name.tokens ++ rest) := by simp [AnnotationUse.tokens]
    rw [htokens]
    refine .step (symbol?_eq_ok.2 (.inl ⟨rfl, rfl⟩)) ?_
    -- Without a value, what follows must not be taken for the rest of the name or for a value.
    refine .step (qualifiedName_tokens name hrest.1) ?_
    refine .step (symbol?_eq_ok.2 (.inr ⟨rfl, rfl, hrest.2⟩)) (.of_eq ?_ rfl)
    simp [AnnotationUse.exprs]
  · have hvalue := expr_reaches (h value (by simp [AnnotationUse.exprs])).spells
      (gripsBelow_cons (t := .symbol .rightParen) (by decide) rest)
    have htokens : AnnotationUse.tokens ⟨name, some value⟩ ++ rest =
        .symbol .atSign :: (name.tokens ++
          .symbol .leftParen :: (value.tokens ++ .symbol .rightParen :: rest)) := by
      simp [AnnotationUse.tokens]
    rw [htokens]
    refine .step (symbol?_eq_ok.2 (.inl ⟨rfl, rfl⟩)) ?_
    refine .step (qualifiedName_tokens name (endsName_of_head (by simp))) ?_
    refine .step (symbol?_eq_ok.2 (.inl ⟨rfl, rfl⟩)) ((hvalue.finish ?_).congr ?_)
    · exact bind_eq_ok.2 ⟨(), rest, expect_eq_ok.2 rfl, rfl⟩
    · simp [AnnotationUse.exprs]

private theorem annotations_reaches {uses : List AnnotationUse}
    (h : ∀ e ∈ uses.flatMap AnnotationUse.exprs, e.IsSpelled) {rest : List Token}
    (hrest : EndsAnnotations rest) :
    Reaches (Expr.AllFit (uses.flatMap AnnotationUse.exprs))
      (annotations (uses.flatMap AnnotationUse.tokens ++ rest)) (.ok (uses, rest)) := by
  have hmany : Reaches (∀ use ∈ uses, Expr.AllFit use.exprs)
      (many annotation? (uses.flatMap AnnotationUse.tokens ++ rest)) (.ok (uses.map id, rest)) := by
    refine many_reaches (fun ts => EndsName ts ∧ ts.head? ≠ some (.symbol .leftParen))
      annotation?_advances ?_ ?_ ?_ ?_
    · exact fun use huse rest hrest =>
        annotation?_reaches (fun e he => h e (List.mem_flatMap.2 ⟨use, huse, he⟩)) hrest
    · exact fun use _ rest =>
        ⟨endsName_of_head (by simp [AnnotationUse.tokens]), by simp [AnnotationUse.tokens]⟩
    · exact ⟨endsName_of_head (hrest .dot (by simp)), hrest .leftParen (by simp)⟩
    · exact bind_eq_ok.2
        ⟨false, rest, symbol?_eq_ok.2 (.inr ⟨rfl, rfl, hrest .atSign (by simp)⟩), rfl⟩
  rw [List.map_id] at hmany
  exact hmany.congr (Expr.allFit_flatMap _ _)

/-- Modifiers are read up to a token that is none. -/
theorem modifiers_tokens (mods : List Modifier) {rest : List Token}
    (hrest : ∀ m : Modifier, rest.head? ≠ some m.token) :
    modifiers (mods.map Modifier.token ++ rest) = .ok (mods, rest) := by
  have hend : modifier? rest = .ok (none, rest) := by
    refine bind_eq_ok.2 ⟨rest.head?, rest, peek_eq_ok.2 ⟨rfl, rfl⟩, ?_⟩
    rcases rest with _ | ⟨text | _ | _ | _, ts⟩
    case cons.word =>
      have hnone : Modifier.ofKeyword? text = none := by
        cases hkeyword : Modifier.ofKeyword? text with
        | none => rfl
        | some modifier =>
          have htext : modifier.keyword = text := by simpa using List.find?_some hkeyword
          exact absurd (by rw [Modifier.token, htext]; rfl) (hrest modifier)
      simp only [List.head?_cons, hnone]
      rfl
    all_goals rfl
  have hmany : Reaches (∀ m ∈ mods, True)
      (many modifier? (mods.flatMap (fun m => [m.token]) ++ rest)) (.ok (mods.map id, rest)) := by
    refine many_reaches (fun _ => True) modifier?_advances ?_ (by simp) trivial hend
    intro m _ rest _
    refine .of_eq trivial (bind_eq_ok.2 ⟨some m.token, _, peek_eq_ok.2 ⟨rfl, rfl⟩, ?_⟩)
    simp only [Modifier.token, m.ofKeyword?_keyword]
    exact bind_eq_ok.2 ⟨(), _, skip_cons _ _, rfl⟩
  rw [List.map_id, ← List.map_eq_flatMap] at hmany
  exact hmany.1 (by simp)

/-- What may stand behind the annotations and modifiers of a declaration. -/
structure EndsLead (ts : List Token) : Prop where
  annotations : EndsAnnotations ts
  modifiers : ∀ m : Modifier, ts.head? ≠ some m.token

/-- A word that is no modifier ends the lead of a declaration. -/
theorem endsLead_word {text : String} (h : ∀ m : Modifier, m.keyword ≠ text) (ts : List Token) :
    EndsLead (.word text :: ts) := by
  refine ⟨endsAnnotations_word text ts, fun m hhead => h m ?_⟩
  simpa [Modifier.token, eq_comm] using hhead

/-- The annotations and modifiers of a declaration are read up to a token that does not go on with
them. -/
theorem lead_reaches {α : Type} {uses : List AnnotationUse} {mods : List Modifier}
    (h : ∀ e ∈ uses.flatMap AnnotationUse.exprs, e.IsSpelled) {rest : List Token}
    (hends : EndsLead rest) {f : List AnnotationUse → List Modifier → Parser α} {fits : Prop}
    {next : Except ParseFailure (α × List Token)} (hf : Reaches fits (f uses mods rest) next) :
    Reaches (Expr.AllFit (uses.flatMap AnnotationUse.exprs) ∧ fits)
      ((do let uses ← annotations; let mods ← modifiers; f uses mods : Parser α)
        (leadTokens uses mods ++ rest)) next := by
  have hends' : EndsAnnotations (mods.map Modifier.token ++ rest) := by
    cases mods with
    | nil => exact hends.annotations
    | cons m mods => exact endsAnnotations_word _ _
  rw [leadTokens, List.append_assoc]
  exact .bind (annotations_reaches h hends') (.step (modifiers_tokens mods hends.modifiers) hf)

/-! ## Parameters -/

private theorem parameter_reaches {param : Parameter} (hwritable : param.IsWritable)
    (h : ∀ e ∈ param.exprs, e.IsSpelled) (rest : List Token) :
    Reaches (Expr.AllFit param.exprs) (parameter (param.tokens ++ rest)) (.ok (param, rest)) := by
  obtain ⟨uses, isFinal, type, n⟩ := param
  obtain ⟨text, tail, htokens, hword⟩ := Ty.exists_tokens hwritable.1
  have htype := outerType_name hwritable n rest
  have hends : EndsAnnotations ((if isFinal then [.word "final"] else []) ++
      (type.tokens ++ n.token :: rest)) := by
    cases isFinal with
    | true => exact endsAnnotations_word _ _
    | false =>
      rw [htokens]
      exact endsAnnotations_word _ _
  have htokens' : Parameter.tokens ⟨uses, isFinal, type, n⟩ ++ rest =
      uses.flatMap AnnotationUse.tokens ++ ((if isFinal then [.word "final"] else []) ++
        (type.tokens ++ n.token :: rest)) := by simp [Parameter.tokens]
  rw [htokens']
  refine (annotations_reaches h hends).finish ?_
  refine bind_eq_ok.2 ⟨isFinal, type.tokens ++ n.token :: rest, word?_eq_ok.2 ?_, ?_⟩
  · cases isFinal with
    | true => exact .inl ⟨rfl, rfl⟩
    | false =>
      refine .inr ⟨rfl, rfl, ?_⟩
      rintro hhead
      obtain rfl : text = "final" := by simpa [htokens] using hhead
      exact absurd hword (by decide)
  · exact bind_eq_ok.2 ⟨type, _, htype, bind_eq_ok.2 ⟨n, rest, name_eq_ok.2 rfl, rfl⟩⟩

private theorem parameter_head {param : Parameter} (hwritable : param.IsWritable)
    (rest : List Token) :
    (param.tokens ++ rest).head? ≠ some (.symbol .rightParen) := by
  obtain ⟨text, tail, htokens, -⟩ := Ty.exists_tokens hwritable.1
  obtain ⟨_ | ⟨use, uses⟩, _ | _, type, n⟩ := param <;>
    simp_all [Parameter.tokens, AnnotationUse.tokens]

private theorem parameterList_reaches {params : List Parameter}
    (hwritable : ∀ param ∈ params, param.IsWritable)
    (h : ∀ e ∈ params.flatMap Parameter.exprs, e.IsSpelled) (rest : List Token) :
    Reaches (Expr.AllFit (params.flatMap Parameter.exprs))
      (parameterList (paramTokens params ++ rest)) (.ok (params, rest)) := by
  have hopen : expect .leftParen "'('" (paramTokens params ++ rest) =
      .ok ((), commaTokens Parameter.tokens params ++ .symbol .rightParen :: rest) :=
    expect_eq_ok.2 (by simp [paramTokens])
  have hparams : Reaches (∀ param ∈ params, Expr.AllFit param.exprs)
      (upTo .rightParen "')' to close parameter list" parameter
        (commaTokens Parameter.tokens params ++ .symbol .rightParen :: rest))
      (.ok (params.map id, rest)) := by
    refine upTo_reaches (fun _ => True) parameter_takes ?_ (fun _ => trivial) trivial (by decide) ?_
    · exact fun param hparam rest _ => parameter_reaches (hwritable param hparam)
        (fun e he => h e (List.mem_flatMap.2 ⟨param, hparam, he⟩)) rest
    · exact fun param hparam rest => parameter_head (hwritable param hparam) rest
  rw [List.map_id] at hparams
  exact .step hopen (hparams.congr (Expr.allFit_flatMap _ _))

private theorem typeParameters_tokens (names : List Name) {rest : List Token}
    (hrest : rest.head? ≠ some (.symbol .less)) :
    typeParameters (typeParamTokens names ++ rest) = .ok (names, rest) := by
  cases hnames : names with
  | nil => exact bind_eq_ok.2 ⟨false, rest, symbol?_eq_ok.2 (.inr ⟨rfl, rfl, hrest⟩), rfl⟩
  | cons n more =>
    have hread : Reaches (∀ m ∈ n :: more, True)
        (commaSeparated name
          (commaTokens (fun n => [n.token]) (n :: more) ++ .symbol .greater :: rest))
        (.ok ((n :: more).map id, .symbol .greater :: rest)) := by
      have htakes : Takes name fun us n => us = [Name.token n] :=
        fun ts n rest h => ⟨[n.token], name_eq_ok.1 h, rfl⟩
      refine commaSeparated_reaches (fun _ => True) htakes (by simp) ?_ (by simp) trivial (by simp)
      exact fun n _ rest _ => .of_eq trivial (name_eq_ok.2 rfl)
    have hall := hread.1 (by simp)
    rw [List.map_id] at hall
    rw [typeParamTokens, List.cons_append, List.append_assoc]
    refine bind_eq_ok.2 ⟨true, _, symbol?_eq_ok.2 (.inl ⟨rfl, rfl⟩), ?_⟩
    refine bind_eq_ok.2 ⟨n :: more, _, hall, ?_⟩
    exact bind_eq_ok.2 ⟨(), rest, expect_eq_ok.2 rfl, rfl⟩

/-! ## Members -/

/-- A type begins with a word that is no modifier. -/
theorem type_exists_head (type : Ty) :
    ∃ text tail, type.tokens = .word text :: tail ∧ (IsTypeWord text ∨ text = "void") := by
  by_cases hvoid : type = .void
  · subst hvoid
    exact ⟨"void", [], Ty.tokens_void, .inr rfl⟩
  · obtain ⟨text, tail, htokens, hword⟩ := Ty.exists_tokens hvoid
    exact ⟨text, tail, htokens, .inl hword⟩

private theorem endsLead_type (type : Ty) (ts : List Token) : EndsLead (type.tokens ++ ts) := by
  obtain ⟨text, tail, htokens, hword⟩ := type_exists_head type
  have hne : ∀ m : Modifier, m.keyword ≠ text := by
    rintro m rfl
    revert hword
    cases m <;> decide
  rw [htokens]
  exact endsLead_word hne _

/-- A name ends the lead of a declaration. -/
theorem endsLead_name (n : Name) (ts : List Token) : EndsLead (n.token :: ts) := by
  refine endsLead_word (fun m heq => absurd n.isName ?_) ts
  rw [← heq]
  cases m <;> decide

private theorem endsLead_typeParams {names : List Name} {ts : List Token} (h : EndsLead ts) :
    EndsLead (typeParamTokens names ++ ts) := by
  cases names with
  | nil => exact h
  | cons n names => exact ⟨endsAnnotations_less _, by simp [typeParamTokens, Modifier.token]⟩

/-- No parenthesis stands second where a type stands in front of a name. -/
theorem type_second (type : Ty) (n : Name) (rest : List Token) :
    (type.tokens ++ n.token :: rest)[1]? ≠ some (.symbol .leftParen) := by
  obtain ⟨text, tail, htokens, -⟩ := type_exists_head type
  have hin := type.isTypeText.inType
  rw [htokens] at hin ⊢
  cases tail with
  | nil => simp [Name.token]
  | cons t tail =>
    intro hsecond
    obtain rfl : t = .symbol .leftParen := by simpa using hsecond
    exact absurd (hin (.symbol .leftParen) (by simp)) (by decide)

/-- The rest of a member behind its modifiers. -/
def memberRest (owner : Name) (uses : List AnnotationUse) (mods : List Modifier) :
    Parser Member := do
  let typeParams ← typeParameters
  if (← peek) = some (.word owner.text) ∧ (← peekSecond) = some (.symbol .leftParen) then
    if typeParams.isEmpty then constructorRest uses mods
    else unexpected "a method declaration"
  else typedMember uses mods typeParams

section Members

variable (owner : Name) (uses : List AnnotationUse) (mods : List Modifier) (n : Name)

/-- A type in front of a name begins a method or a field. -/
theorem memberRest_typed (names : List Name) (type : Ty) (rest : List Token) :
    memberRest owner uses mods (typeParamTokens names ++ (type.tokens ++ n.token :: rest)) =
      typedMember uses mods names (type.tokens ++ n.token :: rest) := by
  have hless : (type.tokens ++ n.token :: rest).head? ≠ some (.symbol .less) := by
    obtain ⟨text, tail, htokens, -⟩ := type_exists_head type
    simp [htokens]
  have hsecond := type_second type n rest
  simp only [memberRest, bind_apply, typeParameters_tokens names hless, peek, peekSecond]
  rw [if_neg fun hctor => hsecond hctor.2]

/-- The name of the type with a parenthesis behind it begins a constructor. -/
theorem memberRest_constructor (rest : List Token) :
    memberRest owner uses mods (owner.token :: .symbol .leftParen :: rest) =
      constructorRest uses mods (owner.token :: .symbol .leftParen :: rest) := by
  have hless : (owner.token :: .symbol .leftParen :: rest).head? ≠ some (.symbol .less) := by
    simp [Name.token]
  have hnone := typeParameters_tokens [] hless
  rw [typeParamTokens, List.nil_append] at hnone
  simp only [memberRest, bind_apply, hnone, peek, peekSecond]
  rw [if_pos ⟨rfl, rfl⟩]
  rfl

private theorem constructorRest_reaches {params : List Parameter} {body : List Stmt}
    (hparams : ∀ param ∈ params, param.IsWritable) (hbody : ∀ stmt ∈ body, stmt.IsWritable)
    (h : ∀ e ∈ params.flatMap Parameter.exprs ++ body.flatMap Stmt.exprs, e.IsSpelled)
    (rest : List Token) :
    Reaches (Expr.AllFit (params.flatMap Parameter.exprs ++ body.flatMap Stmt.exprs))
      (constructorRest uses mods (n.token :: (paramTokens params ++ (blockTokens body ++ rest))))
      (.ok (.constructor ⟨uses, mods, n, params, body⟩, rest)) := by
  rw [List.forall_mem_append] at h
  refine .step (name_eq_ok.2 rfl) (.congr ?_ (Expr.allFit_append _ _))
  exact .bind (parameterList_reaches hparams h.1 _) ((block_reaches hbody h.2 rest).finish rfl)

private theorem methodBody_reaches {body : Option (List Stmt)}
    (hbody : ∀ stmt ∈ body.getD [], stmt.IsWritable)
    (h : ∀ e ∈ (body.getD []).flatMap Stmt.exprs, e.IsSpelled) (rest : List Token) :
    Reaches (Expr.AllFit ((body.getD []).flatMap Stmt.exprs))
      (methodBody (bodyTokens body ++ rest)) (.ok (body, rest)) := by
  cases body with
  | none =>
    refine .step (atSymbol_eq_ok.2 ⟨rfl, rfl⟩) (.of_eq (by simp) ?_)
    exact bind_eq_ok.2 ⟨(), rest, expect_eq_ok.2 rfl, rfl⟩
  | some body =>
    refine .step (atSymbol_eq_ok.2 ⟨rfl, rfl⟩) ?_
    exact (block_reaches hbody h rest).map some

/-- The type of a member is read up to its name. -/
theorem returnType_name {type : Ty} (htype : type.nesting ≤ nestingLimit) (rest : List Token) :
    returnType firstInner.refType (type.tokens ++ n.token :: rest) =
      .ok (type, n.token :: rest) := by
  refine (returnType_reaches readsTypes_firstInner type ?_ fun _ => ⟨endsName_of_head ?_, ?_⟩).1 htype
  · simp [Name.token]
  · simp [Name.token]
  · simp [Name.token]

private theorem method_reaches {names : List Name} {type : Ty} {params : List Parameter}
    {body : Option (List Stmt)} (htype : type.nesting ≤ nestingLimit)
    (hparams : ∀ param ∈ params, param.IsWritable)
    (hbody : ∀ stmt ∈ body.getD [], stmt.IsWritable)
    (h : ∀ e ∈ params.flatMap Parameter.exprs ++ (body.getD []).flatMap Stmt.exprs, e.IsSpelled)
    (rest : List Token) :
    Reaches (Expr.AllFit (params.flatMap Parameter.exprs ++ (body.getD []).flatMap Stmt.exprs))
      (typedMember uses mods names
        (type.tokens ++ n.token :: (paramTokens params ++ (bodyTokens body ++ rest))))
      (.ok (.method ⟨uses, mods, names, type, n, params, body⟩, rest)) := by
  rw [List.forall_mem_append] at h
  refine .step (returnType_name n htype _) (.step (name_eq_ok.2 rfl) ?_)
  refine .step (atSymbol_eq_ok.2 ⟨rfl, rfl⟩) (.congr ?_ (Expr.allFit_append _ _))
  exact .bind (parameterList_reaches hparams h.1 _) ((methodBody_reaches hbody h.2 rest).finish rfl)

private theorem field_reaches {type : Ty} {init : Option Expr} (htype : type.IsVariable)
    (h : ∀ e ∈ init.toList, e.IsSpelled) (rest : List Token) :
    Reaches (Expr.AllFit init.toList)
      (typedMember uses mods []
        (type.tokens ++ n.token :: (initTokens init ++ .symbol .semicolon :: rest)))
      (.ok (.field ⟨uses, mods, type, n, init⟩, rest)) := by
  have hopen : atSymbol .leftParen (initTokens init ++ .symbol .semicolon :: rest) =
      .ok (false, initTokens init ++ .symbol .semicolon :: rest) := by
    refine atSymbol_eq_ok.2 ⟨?_, rfl⟩
    cases init <;> simp [initTokens]
  have hvoid : type.isVoid = false := by
    obtain ⟨hne, -⟩ := htype
    cases type with
    | void => exact absurd rfl hne
    | _ => rfl
  refine .step (returnType_name n htype.2 _) (.step (name_eq_ok.2 rfl) (.step hopen ?_))
  rw [if_neg (by simp), if_neg (by simp [hvoid]), if_neg (by simp)]
  refine (initValue_reaches init h rest).finish ?_
  exact bind_eq_ok.2 ⟨(), rest, expect_eq_ok.2 rfl, rfl⟩

end Members

/-- A member is read from its tokens, whatever follows. -/
theorem member_reaches {owner : Name} {member : Member} (hwritable : member.IsWritable owner)
    (h : ∀ e ∈ member.exprs, e.IsSpelled) (rest : List Token) :
    Reaches (Expr.AllFit member.exprs) (Parser.member owner (member.tokens ++ rest))
      (.ok (member, rest)) := by
  cases member with
  | field decl =>
    obtain ⟨uses, mods, type, n, init⟩ := decl
    rw [Member.exprs, List.forall_mem_append] at h
    -- Nothing before the name tells a field from a method; `memberRest_typed` says that they share
    -- this reader.
    have hfield := field_reaches uses mods n hwritable h.2 rest
    rw [← memberRest_typed owner] at hfield
    have hmember := lead_reaches h.1 (endsLead_typeParams (endsLead_type type _)) hfield
    rw [Member.tokens, FieldDecl.tokens]
    simp only [typeParamTokens, List.nil_append, List.append_assoc, List.cons_append] at hmember ⊢
    exact hmember.congr (Expr.allFit_append _ _)
  | constructor decl =>
    obtain ⟨uses, mods, n, params, body⟩ := decl
    obtain ⟨rfl, hparams, hbody⟩ := hwritable
    rw [Member.exprs, List.forall_mem_append] at h
    have hctor := constructorRest_reaches uses mods n hparams hbody h.2 rest
    rw [paramTokens, List.cons_append, ← memberRest_constructor] at hctor
    have hmember := lead_reaches h.1 (endsLead_name n _) hctor
    rw [Member.tokens, ConstructorDecl.tokens, paramTokens]
    simp only [List.append_assoc, List.cons_append] at hmember ⊢
    exact hmember.congr (Expr.allFit_append _ _)
  | method decl =>
    obtain ⟨uses, mods, names, type, n, params, body⟩ := decl
    obtain ⟨htype, hparams, hbody⟩ := hwritable
    rw [Member.exprs, List.forall_mem_append] at h
    have hmethod := @method_reaches uses mods n names _ _ _ htype hparams hbody h.2 rest
    rw [← memberRest_typed owner] at hmethod
    have hmember := lead_reaches h.1 (endsLead_typeParams (endsLead_type type _)) hmethod
    rw [Member.tokens, MethodDecl.tokens]
    simp only [List.append_assoc, List.cons_append] at hmember ⊢
    exact hmember.congr (Expr.allFit_append _ _)

/-! ## Enum constants -/

/-- A constant is read up to a token that is no opening parenthesis. -/
theorem enumConstant_reaches {constant : EnumConstant} (h : constant.toCall.IsSpelled)
    {rest : List Token} (hrest : rest.head? ≠ some (.symbol .leftParen)) :
    Reaches (constant.toCall.nesting ≤ nestingLimit) (enumConstant (constant.tokens ++ rest))
      (.ok (constant, rest)) := by
  obtain ⟨n, args⟩ := constant
  obtain ⟨hreadable, hstray⟩ := h
  refine .step (name_eq_ok.2 rfl) ?_
  cases args with
  | nil =>
    have hopen : atSymbol .leftParen rest = .ok (false, rest) :=
      atSymbol_eq_ok.2 ⟨by simp [hrest], rfl⟩
    refine .step hopen (.of_eq ?_ rfl)
    simp [EnumConstant.toCall, Expr.nesting, Expr.argsNesting]
  | cons arg args =>
    have hparts := Expr.spells_toPart (arg :: args) hreadable hstray
    have hargs := arguments_reaches hparts (fun part hpart => (hparts part hpart).reaches)
      nestingLimit rest
    rw [Expr.nesting_toPart, Expr.list_toPart, Expr.expr_toPart] at hargs
    exact .step (atSymbol_eq_ok.2 ⟨rfl, rfl⟩) (hargs.finish rfl)

/-- Where more constants may follow, the next one is read with the comma behind it. -/
theorem moreConstants?_reaches (read : List EnumConstant) {constant : EnumConstant}
    (h : constant.toCall.IsSpelled) {comma : Bool} {ts rest : List Token}
    (hopen : ts.head? ≠ some (.symbol .leftParen)) (hcomma : symbol? .comma ts = .ok (comma, rest)) :
    Reaches (constant.toCall.nesting ≤ nestingLimit)
      (moreConstants? (read, true) (constant.tokens ++ ts))
      (.ok (some (constant :: read, comma), rest)) := by
  have hnext : Reaches (constant.toCall.nesting ≤ nestingLimit)
      (enumConstant? true (constant.tokens ++ ts)) (.ok (some (constant, comma), rest)) := by
    refine .step (peek_eq_ok.2 ⟨rfl, rfl⟩) ((enumConstant_reaches h hopen).finish ?_)
    exact bind_eq_ok.2 ⟨comma, rest, hcomma, rfl⟩
  exact hnext.finish rfl

/-- Constants with commas between them are read to the last one. -/
theorem constants_reaches (constant : EnumConstant) (more : List EnumConstant)
    (h : ∀ c ∈ constant :: more, c.toCall.IsSpelled) {rest : List Token}
    (hopen : rest.head? ≠ some (.symbol .leftParen)) (hcomma : rest.head? ≠ some (.symbol .comma))
    (read : List EnumConstant) :
    Reaches (∀ c ∈ constant :: more, c.toCall.nesting ≤ nestingLimit)
      (extend moreConstants? (read, true)
        (commaTokens EnumConstant.tokens (constant :: more) ++ rest))
      (.ok (((constant :: more).reverse ++ read, false), rest)) := by
  induction more generalizing constant read with
  | nil =>
    have hlast := extend_reaches moreConstants?_advances (moreConstants?_reaches read
      (h constant (by simp)) hopen (symbol?_eq_ok.2 (.inr ⟨rfl, rfl, hcomma⟩)))
    have hnone : moreConstants? (constant :: read, false) rest = .ok (none, rest) :=
      bind_eq_ok.2 ⟨none, rest, bind_eq_ok.2 ⟨_, rest, peek_eq_ok.2 ⟨rfl, rfl⟩, rfl⟩, rfl⟩
    have hend : extend moreConstants? (constant :: read, false) rest =
        .ok ((constant :: read, false), rest) := by rw [extend_eq moreConstants?_advances, hnone]
    rw [hend] at hlast
    simpa using hlast
  | cons next more ih =>
    have hread : symbol? .comma (.symbol .comma ::
        (commaTokens EnumConstant.tokens (next :: more) ++ rest)) =
          .ok (true, commaTokens EnumConstant.tokens (next :: more) ++ rest) :=
      symbol?_eq_ok.2 (.inl ⟨rfl, rfl⟩)
    have hstep := extend_reaches moreConstants?_advances
      (moreConstants?_reaches read (h constant (by simp)) (by simp) hread)
    have hmore := ih next (fun c hc => h c (by simp [List.mem_cons.1 hc])) (constant :: read)
    have hall := hstep.trans hmore
    simp only [commaTokens_cons, List.flatMap_cons, List.reverse_cons, List.append_assoc,
      List.cons_append, List.nil_append] at hall ⊢
    exact hall.congr List.forall_mem_cons

/-- The constants of an enum are read up to its members. -/
theorem enumConstants_reaches {decl : TypeDecl} (hkind : decl.kind = .enumType)
    (hsemicolon : ¬ decl.LosesSemicolon) (h : ∀ c ∈ decl.constants, c.toCall.IsSpelled)
    (rest : List Token) :
    Reaches (∀ c ∈ decl.constants, c.toCall.nesting ≤ nestingLimit)
      (enumConstants (decl.constantTokens ++
        (decl.members.flatMap Member.tokens ++ .symbol .rightBrace :: rest)))
      (.ok (decl.constants, decl.members.flatMap Member.tokens ++ .symbol .rightBrace :: rest)) := by
  obtain ⟨uses, mods, kind, n, supers, interfaces, constants, members⟩ := decl
  obtain rfl : kind = .enumType := hkind
  cases constants with
  | nil =>
    have hmembers : members = [] := by
      by_contra hne
      exact hsemicolon ⟨rfl, rfl, hne⟩
    subst hmembers
    exact .of_eq (by simp) rfl
  | cons constant more =>
    have hprints : TypeDecl.printsConstants
        ⟨uses, mods, .enumType, n, supers, interfaces, constant :: more, members⟩ := ⟨rfl, by simp⟩
    -- The semicolon behind the constants is printed and read just when members follow.
    rw [TypeDecl.constantTokens, if_pos hprints, List.append_assoc]
    cases members with
    | nil =>
      refine (constants_reaches constant more h (by simp) (by simp) []).finish ?_
      exact bind_eq_ok.2 ⟨true, _, atSymbol_eq_ok.2 ⟨by simp, rfl⟩, by simp [pure_eq_ok]⟩
    | cons first members =>
      refine (constants_reaches constant more h (by simp) (by simp) []).finish ?_
      refine bind_eq_ok.2 ⟨false, _, atSymbol_eq_ok.2 ⟨by simp, rfl⟩, ?_⟩
      exact bind_eq_ok.2 ⟨(), _, expect_eq_ok.2 rfl, by simp [pure_eq_ok]⟩

/-! ## Type declarations -/

/-- The types of a clause are read up to what goes on with none of them. -/
theorem clause_tokens (keyword : String) {types : List ClassType}
    (h : ∀ type ∈ types, type.toRef.nesting ≤ nestingLimit) {rest : List Token}
    (hkeyword : rest.head? ≠ some (.word keyword))
    (hrest : ∀ s ∈ [Symbol.dot, .less, .comma], rest.head? ≠ some (.symbol s)) :
    clause keyword (clauseTokens keyword types ++ rest) = .ok (types, rest) := by
  cases htypes : types with
  | nil => exact bind_eq_ok.2 ⟨false, rest, word?_eq_ok.2 (.inr ⟨rfl, rfl, hkeyword⟩), rfl⟩
  | cons type more =>
    rw [← htypes]
    have hread : Reaches (∀ t ∈ types, t.toRef.nesting ≤ nestingLimit)
        (commaSeparated outerClassType (commaTokens ClassType.tokens types ++ rest))
        (.ok (types.map id, rest)) := by
      refine commaSeparated_reaches (fun ts => EndsName ts ∧ ts.head? ≠ some (.symbol .less))
        outerClassType_takes (by simp [htypes]) ?_ ?_ ?_ (hrest .comma (by simp))
      · exact fun t _ rest hends => classType_reaches readsTypes_firstInner t hends.1 hends.2
      · exact fun rest => ⟨endsName_of_head (by simp), by simp⟩
      · exact ⟨endsName_of_head (hrest .dot (by simp)), hrest .less (by simp)⟩
    have hall := hread.1 h
    rw [List.map_id] at hall
    have htokens : clauseTokens keyword types =
        .word keyword :: commaTokens ClassType.tokens types := by rw [htypes]; rfl
    rw [htokens]
    exact bind_eq_ok.2 ⟨true, _, word?_eq_ok.2 (.inl ⟨rfl, rfl⟩), hall⟩

/-- The kind of a declaration is read from its keyword. -/
theorem typeDeclKind_keyword (kind : TypeDeclKind) (rest : List Token) :
    typeDeclKind (.word kind.keyword :: rest) = .ok (kind, rest) := by
  cases kind with
  | classType => exact bind_eq_ok.2 ⟨true, rest, word?_eq_ok.2 (.inl ⟨rfl, rfl⟩), rfl⟩
  | interfaceType =>
    refine bind_eq_ok.2 ⟨false, _, word?_eq_ok.2 (.inr ⟨rfl, rfl, ?_⟩), ?_⟩
    · simp [TypeDeclKind.keyword]
    · exact bind_eq_ok.2 ⟨true, rest, word?_eq_ok.2 (.inl ⟨rfl, rfl⟩), rfl⟩
  | enumType =>
    refine bind_eq_ok.2 ⟨false, _, word?_eq_ok.2 (.inr ⟨rfl, rfl, ?_⟩), ?_⟩
    · simp [TypeDeclKind.keyword]
    refine bind_eq_ok.2 ⟨false, _, word?_eq_ok.2 (.inr ⟨rfl, rfl, ?_⟩), ?_⟩
    · simp [TypeDeclKind.keyword]
    · exact bind_eq_ok.2 ⟨true, rest, word?_eq_ok.2 (.inl ⟨rfl, rfl⟩), rfl⟩

/-- What annotations and modifiers begin with, or else what stands behind them. -/
theorem leadTokens_exists_head (uses : List AnnotationUse) (mods : List Modifier) (t : Token)
    (ts : List Token) :
    ∃ s tail, leadTokens uses mods ++ t :: ts = s :: tail ∧
      (s = .symbol .atSign ∨ (∃ m : Modifier, s = m.token) ∨ s = t) := by
  cases uses with
  | cons use uses => exact ⟨.symbol .atSign, _, rfl, .inl rfl⟩
  | nil =>
    cases mods with
    | cons m mods => exact ⟨m.token, _, rfl, .inr (.inl ⟨m, rfl⟩)⟩
    | nil => exact ⟨t, ts, rfl, .inr (.inr rfl)⟩

private theorem member_exists_head (member : Member) :
    ∃ t tail, member.tokens = t :: tail ∧ t ≠ .symbol .rightBrace := by
  have hlead : ∀ uses mods t ts, t ≠ .symbol .rightBrace →
      ∃ s tail, leadTokens uses mods ++ t :: ts = s :: tail ∧ s ≠ .symbol .rightBrace := by
    intro uses mods t ts ht
    obtain ⟨s, tail, hs, rfl | ⟨m, rfl⟩ | rfl⟩ := leadTokens_exists_head uses mods t ts
    · exact ⟨_, tail, hs, by simp⟩
    · exact ⟨_, tail, hs, by simp [Modifier.token]⟩
    · exact ⟨_, tail, hs, ht⟩
  cases member with
  | field decl =>
    obtain ⟨text, tail, htokens, -⟩ := type_exists_head decl.type
    rw [Member.tokens, FieldDecl.tokens, htokens]
    exact hlead _ _ _ _ (by simp)
  | constructor decl => exact hlead _ _ _ _ (by simp [Name.token])
  | method decl =>
    obtain ⟨text, tail, htokens, -⟩ := type_exists_head decl.returnType
    rw [Member.tokens, MethodDecl.tokens, htokens]
    cases decl.typeParams with
    | nil => exact hlead _ _ _ _ (by simp)
    | cons n names => exact hlead _ _ _ _ (by simp)

/-- The members of a type are read up to the brace that closes it. -/
theorem members_reaches {owner : Name} {members : List Member}
    (hwritable : ∀ member ∈ members, member.IsWritable owner)
    (h : ∀ e ∈ members.flatMap Member.exprs, e.IsSpelled) (rest : List Token) :
    Reaches (Expr.AllFit (members.flatMap Member.exprs))
      (untilBrace "'\x7d' to close type body" (member owner)
        (members.flatMap Member.tokens ++ .symbol .rightBrace :: rest)) (.ok (members, rest)) := by
  refine .congr ?_ (Expr.allFit_flatMap _ _)
  refine untilBrace_reaches (member_takes owner) member_not_nil ?_
    (fun member _ => member_exists_head member) rest
  exact fun member hmember rest => member_reaches (hwritable member hmember)
    (fun e he => h e (List.mem_flatMap.2 ⟨member, hmember, he⟩)) rest

/-- The clauses of a declaration stand in front of the brace that opens its body. -/
theorem clauses_tokens {decl : TypeDecl} (h : decl.IsWritable) (rest : List Token) :
    clause "extends" (clauseTokens "extends" decl.supers ++ (clauseTokens "implements"
        decl.interfaces ++ .symbol .leftBrace :: rest)) =
      .ok (decl.supers, clauseTokens "implements" decl.interfaces ++ .symbol .leftBrace :: rest) ∧
    clause "implements" (clauseTokens "implements" decl.interfaces ++ .symbol .leftBrace :: rest) =
      .ok (decl.interfaces, .symbol .leftBrace :: rest) := by
  refine ⟨clause_tokens "extends" h.supers ?_ ?_, clause_tokens "implements" h.interfaces ?_ ?_⟩
  · cases decl.interfaces <;> simp [clauseTokens]
  · cases decl.interfaces <;> simp [clauseTokens]
  · simp
  · simp

/-- The constants of a declaration are read where its kind has any. -/
theorem constantSection_reaches {α : Type} {decl : TypeDecl} (hwritable : decl.IsWritable)
    (hsemicolon : ¬ decl.LosesSemicolon) (h : ∀ c ∈ decl.constants, c.toCall.IsSpelled)
    {rest : List Token} {f : List EnumConstant → Parser α} {fits : Prop}
    {next : Except ParseFailure (α × List Token)}
    (hf : Reaches fits (f decl.constants
      (decl.members.flatMap Member.tokens ++ .symbol .rightBrace :: rest)) next) :
    Reaches (Expr.AllFit (decl.constants.map EnumConstant.toCall) ∧ fits)
      ((if decl.kind = .enumType then enumConstants >>= f else pure [] >>= f)
        (decl.constantTokens ++ (decl.members.flatMap Member.tokens ++ .symbol .rightBrace :: rest)))
      next := by
  by_cases hkind : decl.kind = .enumType
  · rw [if_pos hkind]
    refine .congr (.bind (enumConstants_reaches hkind hsemicolon h rest) hf) ?_
    rw [Expr.AllFit, List.forall_mem_map]
  · have hconstants := hwritable.constants hkind
    have htokens : decl.constantTokens = [] := if_neg fun hprints => hkind hprints.1
    rw [if_neg hkind, htokens, hconstants, List.nil_append]
    rw [hconstants] at hf
    refine (Reaches.step rfl hf).congr ?_
    simp

/-- A type declaration is read from its tokens, whatever follows. -/
theorem typeDecl_reaches {decl : TypeDecl} (hwritable : decl.IsWritable)
    (hsemicolon : ¬ decl.LosesSemicolon) (h : ∀ e ∈ decl.exprs, e.IsSpelled) (rest : List Token) :
    Reaches (Expr.AllFit decl.exprs) (typeDecl (decl.tokens ++ rest)) (.ok (decl, rest)) := by
  simp only [TypeDecl.exprs, List.forall_mem_append, List.forall_mem_map] at h
  obtain ⟨huses, hconstants, hmembers⟩ := h
  have hbody := members_reaches hwritable.members hmembers rest
  have hclauses := clauses_tokens hwritable (decl.constantTokens ++
    (decl.members.flatMap Member.tokens ++ .symbol .rightBrace :: rest))
  have hkeyword : ∀ m : Modifier, m.keyword ≠ decl.kind.keyword := by
    intro m
    cases decl.kind <;> cases m <;> decide
  have htokens : decl.tokens ++ rest = leadTokens decl.annotations decl.modifiers ++
      .word decl.kind.keyword :: decl.name.token :: (clauseTokens "extends" decl.supers ++
        (clauseTokens "implements" decl.interfaces ++ .symbol .leftBrace :: (decl.constantTokens ++
          (decl.members.flatMap Member.tokens ++ .symbol .rightBrace :: rest)))) := by
    simp [TypeDecl.tokens]
  have hfits : Expr.AllFit decl.exprs ↔ Expr.AllFit (decl.annotations.flatMap AnnotationUse.exprs) ∧
      Expr.AllFit (decl.constants.map EnumConstant.toCall) ∧
        Expr.AllFit (decl.members.flatMap Member.exprs) := by
    rw [TypeDecl.exprs, Expr.allFit_append, Expr.allFit_append]
  rw [htokens]
  refine .congr (lead_reaches huses (endsLead_word hkeyword _) ?_) hfits
  refine .step (typeDeclKind_keyword decl.kind _) (.step (name_eq_ok.2 rfl) ?_)
  refine .step hclauses.1 (.step hclauses.2 (.step (a := ()) (expect_eq_ok.2 rfl) ?_))
  exact constantSection_reaches hwritable hsemicolon hconstants (hbody.finish rfl)

/-! ## Files -/

private theorem asterisk_tokens (isAsterisk : Bool) (rest : List Token) :
    asterisk ((if isAsterisk then [.symbol .dot, .symbol .star] else []) ++
        .symbol .semicolon :: rest) = .ok (isAsterisk, .symbol .semicolon :: rest) := by
  cases isAsterisk <;> rfl

private theorem importTarget_tokens {i : Import} (h : i.IsWritable) (rest : List Token) :
    importTarget i.isStatic (i.targetTokens ++ .symbol .semicolon :: rest) =
      .ok (i, .symbol .semicolon :: rest) := by
  have hname : EndsName ((if i.isAsterisk then [.symbol .dot, .symbol .star] else []) ++
      .symbol .semicolon :: rest) := by
    cases i.isAsterisk <;> simp [EndsName]
  have hallowed : ¬ (i.isStatic && !i.isAsterisk && i.name.isSimple) = true := by
    intro htype
    simp only [Bool.and_eq_true, Bool.not_eq_true'] at htype
    obtain hasterisk | hsimple := h htype.1.1
    · simp [hasterisk] at htype
    · simp [hsimple] at htype
  rw [Import.targetTokens, List.append_assoc]
  refine bind_eq_ok.2 ⟨_, _, remaining_eq_ok.2 ⟨rfl, rfl⟩, ?_⟩
  refine bind_eq_ok.2 ⟨i.name, _, qualifiedName_tokens i.name hname, ?_⟩
  refine bind_eq_ok.2 ⟨i.isAsterisk, _, asterisk_tokens i.isAsterisk rest, ?_⟩
  rw [if_neg hallowed]
  rfl

/-- An import that can be written is read from its tokens. -/
theorem importDecl_tokens {i : Import} (h : i.IsWritable) (rest : List Token) :
    importDecl (i.tokens ++ rest) = .ok (i, rest) := by
  have hstatic : word? "static" ((if i.isStatic then [.word "static"] else []) ++
      (i.targetTokens ++ .symbol .semicolon :: rest)) =
        .ok (i.isStatic, i.targetTokens ++ .symbol .semicolon :: rest) := by
    cases i.isStatic with
    | true => exact word?_eq_ok.2 (.inl ⟨rfl, rfl⟩)
    | false =>
      obtain ⟨first, names, hname⟩ := i.name.exists_ofSegments
      refine word?_eq_ok.2 (.inr ⟨rfl, rfl, ?_⟩)
      rw [Import.targetTokens, hname, QualifiedName.tokens_ofSegments]
      exact first.head_ne (by decide) _
  have htokens : i.tokens ++ rest = .word "import" ::
      ((if i.isStatic then [.word "static"] else []) ++
        (i.targetTokens ++ .symbol .semicolon :: rest)) := by simp [Import.tokens]
  rw [htokens]
  refine bind_eq_ok.2 ⟨true, _, word?_eq_ok.2 (.inl ⟨rfl, rfl⟩), ?_⟩
  refine bind_eq_ok.2 ⟨i.isStatic, _, hstatic, ?_⟩
  refine bind_eq_ok.2 ⟨i, _, importTarget_tokens h rest, ?_⟩
  exact bind_eq_ok.2 ⟨(), rest, expect_eq_ok.2 rfl, rfl⟩

/-- A package is read from its tokens, and none where there is no declaration of one. -/
theorem packageDecl_tokens (package : Option QualifiedName) {rest : List Token}
    (hrest : rest.head? ≠ some (.word "package")) :
    packageDecl (CompilationUnit.packageTokens package ++ rest) = .ok (package, rest) := by
  cases package with
  | none => exact bind_eq_ok.2 ⟨false, rest, word?_eq_ok.2 (.inr ⟨rfl, rfl, hrest⟩), rfl⟩
  | some name =>
    rw [CompilationUnit.packageTokens, List.cons_append, List.append_assoc]
    refine bind_eq_ok.2 ⟨true, _, word?_eq_ok.2 (.inl ⟨rfl, rfl⟩), ?_⟩
    refine bind_eq_ok.2 ⟨name, _, qualifiedName_tokens name (endsName_of_head (by simp)), ?_⟩
    exact bind_eq_ok.2 ⟨(), rest, expect_eq_ok.2 rfl, rfl⟩

/-- A type declaration begins with an at sign, a modifier or the keyword of its kind. -/
theorem typeDecl_head {decl : TypeDecl} {text : String}
    (hmodifier : ∀ m : Modifier, m.keyword ≠ text)
    (hkind : ∀ kind : TypeDeclKind, kind.keyword ≠ text) (rest : List Token) :
    (decl.tokens ++ rest).head? ≠ some (.word text) := by
  obtain ⟨t, tail, htokens, ht⟩ := leadTokens_exists_head decl.annotations decl.modifiers
    (.word decl.kind.keyword) (decl.name.token :: (clauseTokens "extends" decl.supers ++
      (clauseTokens "implements" decl.interfaces ++ .symbol .leftBrace :: (decl.constantTokens ++
        (decl.members.flatMap Member.tokens ++ [.symbol .rightBrace])))))
  have hdecl : decl.tokens = t :: tail := htokens
  rw [hdecl]
  intro hhead
  obtain rfl : t = .word text := by simpa using hhead
  obtain ht | ⟨m, ht⟩ | ht := ht
  · cases ht
  · exact hmodifier m (by simpa [Modifier.token, eq_comm] using ht)
  · exact hkind decl.kind (by simpa [eq_comm] using ht)

/-- Imports are read one after another, up to what is no import. -/
theorem imports_tokens {imports : List Import} (h : ∀ i ∈ imports, i.IsWritable)
    {rest : List Token} (hrest : rest.head? ≠ some (.word "import")) :
    many import? (imports.flatMap Import.tokens ++ rest) = .ok (imports, rest) := by
  have hadvances : Advances import? := import?_takes.advances fun i hi => by
    simpa [Import.tokens] using hi.1
  have hmany : Reaches (∀ i ∈ imports, True)
      (many import? (imports.flatMap Import.tokens ++ rest)) (.ok (imports.map id, rest)) := by
    refine many_reaches (fun _ => True) hadvances ?_ (by simp) trivial ?_
    · intro i hi rest _
      refine .of_eq trivial (bind_eq_ok.2 ⟨_, _, peek_eq_ok.2 ⟨rfl, rfl⟩, ?_⟩)
      rw [if_pos (by simp [Import.tokens])]
      exact map_eq_ok.2 ⟨i, importDecl_tokens (h i hi) rest, rfl⟩
    · refine bind_eq_ok.2 ⟨_, rest, peek_eq_ok.2 ⟨rfl, rfl⟩, ?_⟩
      rw [if_neg hrest]
      rfl
  rw [List.map_id] at hmany
  exact hmany.1 (by simp)

private theorem types_reaches {types : List TypeDecl} (hwritable : ∀ decl ∈ types, decl.IsWritable)
    (hsemicolon : ∀ decl ∈ types, ¬ decl.LosesSemicolon)
    (h : ∀ e ∈ types.flatMap TypeDecl.exprs, e.IsSpelled) :
    Reaches (Expr.AllFit (types.flatMap TypeDecl.exprs))
      (many typeDecl? (types.flatMap TypeDecl.tokens)) (.ok (types, [])) := by
  have hadvances : Advances typeDecl? := typeDecl?_takes.advances fun decl hdecl => hdecl.1 rfl
  have hmany : Reaches (∀ decl ∈ types, Expr.AllFit decl.exprs)
      (many typeDecl? (types.flatMap TypeDecl.tokens ++ [])) (.ok (types.map id, [])) := by
    refine many_reaches (fun _ => True) hadvances ?_ (by simp) trivial rfl
    intro decl hdecl rest _
    have hread := typeDecl_reaches (hwritable decl hdecl) (hsemicolon decl hdecl)
      (fun e he => h e (List.mem_flatMap.2 ⟨decl, hdecl, he⟩)) rest
    refine .step (peek_eq_ok.2 ⟨rfl, rfl⟩) ?_
    rw [if_neg ?_]
    · exact hread.map some
    · simp [TypeDecl.tokens]
  rw [List.map_id, List.append_nil] at hmany
  exact hmany.congr (Expr.allFit_flatMap _ _)

/-- A file is read from its tokens. -/
theorem compilationUnit_reaches {file : CompilationUnit} (hwritable : file.IsWritable)
    (hsemicolon : ∀ decl ∈ file.types, ¬ decl.LosesSemicolon)
    (h : ∀ e ∈ file.exprs, e.IsSpelled) :
    Reaches (Expr.AllFit file.exprs) (compilationUnit file.tokens) (.ok (file, [])) := by
  obtain ⟨package, imports, types⟩ := file
  -- A type declaration begins with an annotation, a modifier or its kind, never with the keyword of
  -- another part of the file.
  have hhead : ∀ text, (∀ m : Modifier, m.keyword ≠ text) →
      (∀ kind : TypeDeclKind, kind.keyword ≠ text) →
        (types.flatMap TypeDecl.tokens).head? ≠ some (.word text) := by
    intro text hmodifier hkind
    cases types with
    | nil => simp
    | cons decl types => exact typeDecl_head hmodifier hkind _
  have himport : (types.flatMap TypeDecl.tokens).head? ≠ some (.word "import") :=
    hhead _ (fun m => by cases m <;> decide) fun kind => by cases kind <;> decide
  have hpackage : (imports.flatMap Import.tokens ++ types.flatMap TypeDecl.tokens).head? ≠
      some (.word "package") := by
    cases imports with
    | nil => exact hhead _ (fun m => by cases m <;> decide) fun kind => by cases kind <;> decide
    | cons i imports => simp [Import.tokens]
  refine .step (packageDecl_tokens package hpackage) ?_
  refine .step (imports_tokens hwritable.imports himport) ?_
  exact (types_reaches hwritable.types hsemicolon h).finish rfl

end Parser

end Stubwright.Source
