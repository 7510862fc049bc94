import Stubwright.Proofs.Source.DeclReading
import Stubwright.Proofs.Source.Fragment
import Stubwright.Proofs.Source.Lines

/-!
# Statements made of texts

A text that is read as an expression is read as the same expression when it stands in a statement,
and a text that is read as a type begins the declaration of a variable. The pieces of such a
statement stand on lines of their own here, so that none of them runs into the next one, and a body
with the statement in it is read as that statement and nothing else.

## Main definitions

* `lines` — texts with line ends between them
* `singleStatements` — the statements that one expression, one type and one name make
* `ReadsAsBody` — tokens that are read as statements wherever a body may stand

## Main results

* `body_of_singleStatements` — what a body of one such statement is read as
-/

namespace Stubwright.Source

open Source.Parser

/-! ## Pieces on lines of their own -/

/-- Texts with line ends between them. -/
def lines (texts : List String) : String := String.intercalate "\n" texts

/-- Texts with their tokens, one by one. -/
def AllLex (texts : List String) (tokens : List (List Token)) : Prop :=
  List.Forall₂ (fun text us => Lexes text.toList us) texts tokens

private theorem AllLex.append {texts texts' : List String} {tokens tokens' : List (List Token)}
    (h : AllLex texts tokens) (h' : AllLex texts' tokens') :
    AllLex (texts ++ texts') (tokens ++ tokens') := List.rel_append h h'

/-- The tokens of several texts on lines of their own are those of the texts. -/
theorem AllLex.lines {texts : List String} {tokens : List (List Token)} (h : AllLex texts tokens) :
    Lexes (Source.lines texts).toList tokens.flatten := by
  induction h with
  | nil => exact lexes_nil
  | @cons text us texts tokens hfirst hrest ih =>
    cases hrest with
    | nil => simpa [Source.lines] using hfirst
    | @cons second vs more tokens hsecond hmore =>
      have hlines : (Source.lines (text :: second :: more)).toList =
          text.toList ++ '\n' :: (Source.lines (second :: more)).toList := by
        simp [Source.lines, String.toList_intercalate]
      rw [hlines]
      exact lexes_line hfirst ih

/-! ## Texts that are read -/

variable {t ty : String} {e : Expr} {type : Ty}

/-- A text that is read as an expression has tokens that spell it. -/
theorem exists_spells_of_parse (h : Grammar.expression.parse t = .ok e) :
    ∃ depth us, Lexes t.toList us ∧ Spells 1 depth us e ∧ depth ≤ nestingLimit := by
  obtain ⟨placed, hplaced⟩ := exists_tokenize_of_parseText h
  obtain ⟨us, hus, depth, hdepth, hspells⟩ := expr_takes _ _ _ ((parseText_eq_ok_iff hplaced).1 h)
  rw [List.append_nil] at hus
  rw [← hus] at hspells
  exact ⟨depth, _, lexes_of_tokenize hplaced, hspells, hdepth⟩

/-- A text that is read as a type has the tokens of the type. -/
theorem lexes_of_parse_type (h : Grammar.type.parse ty = .ok type) :
    Lexes ty.toList type.tokens ∧ type.IsVariable := by
  obtain ⟨placed, hplaced⟩ := exists_tokenize_of_parseText h
  obtain ⟨us, hus, rfl, htype⟩ := outerType_takes _ _ _ ((parseText_eq_ok_iff hplaced).1 h)
  rw [List.append_nil] at hus
  rw [← hus]
  exact ⟨lexes_of_tokenize hplaced, htype⟩

private theorem Name.lexes (n : Name) : Lexes n.text.toList [n.token] := by
  have hword : Lexes (n.text.toList ++ []) [.word (String.ofList n.text.toList)] :=
    lexes_word n.isName.1 (by simp) lexes_nil
  simpa [Name.token] using hword

/-! ## Bodies -/

/-- Tokens that are read as statements wherever they stand between the braces of a body: in a block,
in a method and in a constructor whose beginning was read up to the body. -/
structure ReadsAsBody (us : List Token) (body : List Stmt) : Prop where
  block : ∀ rest, Parser.block (.symbol .leftBrace :: (us ++ .symbol .rightBrace :: rest)) =
    .ok (body, rest)
  method : ∀ annotations modifiers typeParams ts₁ ts₂ ts₃ returnType name params rest,
    Parser.returnType firstInner.refType ts₁ = .ok (returnType, ts₂) →
    Parser.name ts₂ = .ok (name, ts₃) →
    parameterList ts₃ = .ok (params, .symbol .leftBrace :: (us ++ .symbol .rightBrace :: rest)) →
    typedMember annotations modifiers typeParams ts₁ =
      .ok (.method ⟨annotations, modifiers, typeParams, returnType, name, params, some body⟩, rest)
  constructor : ∀ annotations modifiers ts₁ ts₂ name params rest,
    Parser.name ts₁ = .ok (name, ts₂) →
    parameterList ts₂ = .ok (params, .symbol .leftBrace :: (us ++ .symbol .rightBrace :: rest)) →
    constructorRest annotations modifiers ts₁ =
      .ok (.constructor ⟨annotations, modifiers, name, params, body⟩, rest)

private theorem readsAsBody_of_block {us : List Token} {body : List Stmt}
    (h : ∀ rest, Parser.block (.symbol .leftBrace :: (us ++ .symbol .rightBrace :: rest)) =
      .ok (body, rest)) : ReadsAsBody us body := by
  refine ⟨h, ?_, ?_⟩
  · intro annotations modifiers typeParams ts₁ ts₂ ts₃ returnType name params rest htype hname
      hparams
    obtain ⟨_, ts₄, hopen, -⟩ := bind_eq_ok.1 hparams
    obtain rfl := expect_eq_ok.1 hopen
    refine bind_eq_ok.2 ⟨returnType, ts₂, htype, bind_eq_ok.2 ⟨name, _, hname, ?_⟩⟩
    refine bind_eq_ok.2 ⟨true, _, atSymbol_eq_ok.2 ⟨rfl, rfl⟩, ?_⟩
    refine bind_eq_ok.2 ⟨params, _, hparams, bind_eq_ok.2 ⟨some body, rest, ?_, rfl⟩⟩
    refine bind_eq_ok.2 ⟨true, _, atSymbol_eq_ok.2 ⟨rfl, rfl⟩, ?_⟩
    exact map_eq_ok.2 ⟨body, h rest, rfl⟩
  · intro annotations modifiers ts₁ ts₂ name params rest hname hparams
    refine bind_eq_ok.2 ⟨name, ts₂, hname, bind_eq_ok.2 ⟨params, _, hparams, ?_⟩⟩
    exact bind_eq_ok.2 ⟨body, rest, h rest, rfl⟩

/-- A body of one statement is read from the tokens that spell the statement. -/
theorem SpellsStmt.readsAsBody {depth : Nat} {us : List Token} {s : Stmt}
    (h : SpellsStmt depth us s) (hdepth : depth ≤ nestingLimit) : ReadsAsBody us [s] := by
  refine readsAsBody_of_block fun rest => ?_
  have hread : Reaches (∀ s' ∈ [s], depth ≤ nestingLimit)
      (untilBrace "'\x7d' to close block" stmt
        ([s].flatMap (fun _ => us) ++ .symbol .rightBrace :: rest)) (.ok ([s], rest)) :=
    untilBrace_reaches stmt_takes stmt_not_nil (by simpa using h.reaches)
      (by simpa using h.exists_head) rest
  have hbody := hread.1 fun _ _ => hdepth
  rw [List.flatMap_singleton] at hbody
  exact bind_eq_ok.2 ⟨(), _, expect_eq_ok.2 rfl, hbody⟩

/-! ## Files -/

/-- A class with one member, the only class of its file. -/
def CompilationUnit.ofMember (owner : Name) (member : Member) : CompilationUnit :=
  ⟨none, [], [⟨[], [], .classType, owner, [], [], [], [member]⟩]⟩

section Files

variable {owner : Name} {us : List Token} {member : Member}

private theorem clause_none {keyword : String} {ts : List Token}
    (h : ts.head? ≠ some (.word keyword)) : clause keyword ts = .ok ([], ts) :=
  bind_eq_ok.2 ⟨false, ts, word?_eq_ok.2 (.inr ⟨rfl, rfl, h⟩), rfl⟩

/-- The declaration of a class with one member is read when the member is. -/
theorem typeDecl_ofMember (hmember : ∀ rest, Parser.member owner (us ++ rest) = .ok (member, rest))
    (hhead : ∃ t tail, us = t :: tail ∧ t ≠ .symbol .rightBrace) (rest : List Token) :
    typeDecl (.word "class" :: owner.token :: .symbol .leftBrace ::
        (us ++ .symbol .rightBrace :: rest)) =
      .ok (⟨[], [], .classType, owner, [], [], [], [member]⟩, rest) := by
  have hmembers : Reaches (∀ member' ∈ [member], True)
      (untilBrace "'\x7d' to close type body" (Parser.member owner)
        ([member].flatMap (fun _ => us) ++ .symbol .rightBrace :: rest)) (.ok ([member], rest)) :=
    untilBrace_reaches (member_takes owner) member_not_nil
      (by simpa using fun rest => Reaches.of_eq trivial (hmember rest)) (by simpa using hhead) rest
  have hbody := hmembers.1 (by simp)
  rw [List.flatMap_singleton] at hbody
  have hclass : ∀ m : Modifier, m.keyword ≠ "class" := fun m => by cases m <;> decide
  have hlead : Reaches (Expr.AllFit (([] : List AnnotationUse).flatMap AnnotationUse.exprs) ∧ True)
      (typeDecl (leadTokens [] [] ++ .word "class" :: owner.token :: .symbol .leftBrace ::
        (us ++ .symbol .rightBrace :: rest)))
      (.ok (⟨[], [], .classType, owner, [], [], [], [member]⟩, rest)) := by
    refine lead_reaches (by simp) (endsLead_word hclass _) ?_
    refine .step (typeDeclKind_keyword .classType _) (.step (name_eq_ok.2 rfl) ?_)
    refine .step (clause_none (by simp)) (.step (clause_none (by simp)) ?_)
    refine .step (a := ()) (expect_eq_ok.2 rfl) (.step rfl ?_)
    exact .of_eq trivial (bind_eq_ok.2 ⟨[member], rest, hbody, rfl⟩)
  exact hlead.1 (by simp)

/-- A file with one class is read when the member of the class is. -/
theorem compilationUnit_ofMember
    (hmember : ∀ rest, Parser.member owner (us ++ rest) = .ok (member, rest))
    (hhead : ∃ t tail, us = t :: tail ∧ t ≠ .symbol .rightBrace) :
    compilationUnit (.word "class" :: owner.token :: .symbol .leftBrace ::
        (us ++ [.symbol .rightBrace])) = .ok (.ofMember owner member, []) := by
  have hadvances : Advances typeDecl? := typeDecl?_takes.advances fun decl hdecl => hdecl.1 rfl
  have hdecl : typeDecl? (.word "class" :: owner.token :: .symbol .leftBrace ::
      (us ++ [.symbol .rightBrace])) =
        .ok (some ⟨[], [], .classType, owner, [], [], [], [member]⟩, []) := by
    refine bind_eq_ok.2 ⟨_, _, peek_eq_ok.2 ⟨rfl, rfl⟩, ?_⟩
    exact map_eq_ok.2 ⟨_, typeDecl_ofMember hmember hhead [], rfl⟩
  have htypes : many typeDecl? (.word "class" :: owner.token :: .symbol .leftBrace ::
      (us ++ [.symbol .rightBrace])) =
        .ok ([⟨[], [], .classType, owner, [], [], [], [member]⟩], []) := by
    rw [many_eq hadvances, hdecl]
    exact map_eq_ok.2 ⟨[], rfl, rfl⟩
  have himports : many import? (([] : List Import).flatMap Import.tokens ++ .word "class" ::
      owner.token :: .symbol .leftBrace :: (us ++ [.symbol .rightBrace])) = .ok ([], _) :=
    imports_tokens (by simp) (by simp)
  refine bind_eq_ok.2 ⟨none, _, packageDecl_tokens none (by simp), ?_⟩
  exact bind_eq_ok.2 ⟨[], _, himports, bind_eq_ok.2 ⟨_, [], htypes, rfl⟩⟩

/-- The tokens of a method or a constructor without parameters, from those of its beginning and its
body. -/
def memberTokens (head us : List Token) : List Token :=
  head ++ .symbol .leftParen :: .symbol .rightParen :: .symbol .leftBrace ::
    (us ++ [.symbol .rightBrace])

private theorem parameterList_none (rest : List Token) :
    parameterList (.symbol .leftParen :: .symbol .rightParen :: rest) = .ok ([], rest) := by
  refine bind_eq_ok.2 ⟨(), _, expect_eq_ok.2 rfl, ?_⟩
  exact bind_eq_ok.2 ⟨true, rest, symbol?_eq_ok.2 (.inl ⟨rfl, rfl⟩), rfl⟩

/-- A member without annotations and modifiers is what is read behind them. -/
theorem member_plain {ts rest : List Token} (hends : EndsLead ts)
    (h : memberRest owner [] [] ts = .ok (member, rest)) :
    Parser.member owner ts = .ok (member, rest) := by
  have hlead : Reaches (Expr.AllFit (([] : List AnnotationUse).flatMap AnnotationUse.exprs) ∧ True)
      (Parser.member owner (leadTokens [] [] ++ ts)) (.ok (member, rest)) :=
    lead_reaches (by simp) hends (.of_eq trivial h)
  exact hlead.1 (by simp)

variable {body : List Stmt}

private theorem member_method (n : Name) (h : ReadsAsBody us body) (rest : List Token) :
    Parser.member owner (memberTokens [.word "void", n.token] us ++ rest) =
      .ok (.method ⟨[], [], [], .void, n, [], some body⟩, rest) := by
  have hnesting : Ty.void.nesting ≤ nestingLimit := Nat.zero_le _
  have hreturn := returnType_name n hnesting (.symbol .leftParen :: .symbol .rightParen ::
    .symbol .leftBrace :: (us ++ .symbol .rightBrace :: rest))
  have hmethod := h.method [] [] [] _ _ _ _ n [] rest hreturn (name_eq_ok.2 rfl)
    (parameterList_none _)
  rw [← memberRest_typed owner, Ty.tokens_void] at hmethod
  simp only [memberTokens, List.cons_append, List.append_assoc, List.nil_append]
  exact member_plain (endsLead_word (fun m => by cases m <;> decide) _) hmethod

private theorem member_constructor (h : ReadsAsBody us body) (rest : List Token) :
    Parser.member owner (memberTokens [owner.token] us ++ rest) =
      .ok (.constructor ⟨[], [], owner, [], body⟩, rest) := by
  have hconstructor := h.constructor [] [] _ _ owner [] rest (name_eq_ok.2 rfl)
    (parameterList_none _)
  rw [← memberRest_constructor] at hconstructor
  simp only [memberTokens, List.cons_append, List.append_assoc, List.nil_append]
  exact member_plain (endsLead_name owner _) hconstructor

end Files

/-- The text of a class with a method or a constructor without parameters, each piece on a line of
its own. -/
def classText (owner : Name) (head body : List String) : String :=
  lines (["class", owner.text, "\x7b"] ++ head ++ ["(", ")", "\x7b"] ++ body ++ ["\x7d", "\x7d"])

private theorem lexes_symbols :
    (Lexes ";".toList [.symbol .semicolon] ∧ Lexes "=".toList [.symbol .assign]) ∧
      (Lexes "(".toList [.symbol .leftParen] ∧ Lexes ")".toList [.symbol .rightParen]) ∧
        Lexes "\x7b".toList [.symbol .leftBrace] ∧ Lexes "\x7d".toList [.symbol .rightBrace] :=
  ⟨⟨@lexes_of_tokenize ";" [⟨_, 0⟩] rfl, @lexes_of_tokenize "=" [⟨_, 0⟩] rfl⟩,
    ⟨@lexes_of_tokenize "(" [⟨_, 0⟩] rfl, @lexes_of_tokenize ")" [⟨_, 0⟩] rfl⟩,
    @lexes_of_tokenize "\x7b" [⟨_, 0⟩] rfl, @lexes_of_tokenize "\x7d" [⟨_, 0⟩] rfl⟩

private theorem lexes_keywords :
    Lexes "class".toList [.word "class"] ∧ Lexes "void".toList [.word "void"] ∧
      Lexes "return".toList [.word "return"] ∧ Lexes "throw".toList [.word "throw"] :=
  ⟨@lexes_of_tokenize "class" [⟨_, 0⟩] rfl, @lexes_of_tokenize "void" [⟨_, 0⟩] rfl,
    @lexes_of_tokenize "return" [⟨_, 0⟩] rfl, @lexes_of_tokenize "throw" [⟨_, 0⟩] rfl⟩

/-- The text of a class with one member is read as the class when the tokens of the member are read
as the member. -/
theorem parse_classText {owner : Name} {head body : List String} {us vs : List (List Token)}
    (hhead : AllLex head us) (hbody : AllLex body vs) {member : Member}
    (hmember : ∀ rest, Parser.member owner (memberTokens us.flatten vs.flatten ++ rest) =
      .ok (member, rest))
    (hstart : ∃ t tail, us.flatten = t :: tail ∧ t ≠ .symbol .rightBrace) :
    Grammar.compilationUnit.parse (classText owner head body) = .ok (.ofMember owner member) := by
  obtain ⟨-, ⟨hopen, hclose⟩, hleft, hright⟩ := lexes_symbols
  have hopening : AllLex ["class", owner.text, "\x7b"]
      [[.word "class"], [owner.token], [.symbol .leftBrace]] :=
    .cons lexes_keywords.1 (.cons owner.lexes (.cons hleft .nil))
  have hparams : AllLex ["(", ")", "\x7b"]
      [[.symbol .leftParen], [.symbol .rightParen], [.symbol .leftBrace]] :=
    .cons hopen (.cons hclose (.cons hleft .nil))
  have hend : AllLex ["\x7d", "\x7d"] [[.symbol .rightBrace], [.symbol .rightBrace]] :=
    .cons hright (.cons hright .nil)
  -- The tokens of the pieces are put together before the lines are read as one text.
  have hall := (((hopening.append hhead).append hparams).append hbody).append hend
  obtain ⟨placed, hplaced, htokens⟩ := tokenize_of_lexes hall.lines
  refine (parseText_eq_ok_iff hplaced).2 ?_
  obtain ⟨t, tail, ht, hne⟩ := hstart
  have hunit := compilationUnit_ofMember hmember
    ⟨t, _, by rw [memberTokens, ht, List.cons_append], hne⟩
  rw [htokens]
  simpa [memberTokens, Grammar.compilationUnit] using hunit

/-! ## Statements -/

/-- The statements that one expression, one type and one name make, each with its pieces. -/
def singleStatements (t ty : String) (e : Expr) (type : Ty) (n : Name) :
    List (List String × Stmt) :=
  [([t, ";"], .eval e),
    ([ty, n.text, ";"], .declare type n none),
    ([ty, n.text, "=", t, ";"], .declare type n (some e)),
    (["return", t, ";"], .returns (some e)),
    (["throw", t, ";"], .throws e)]

/-- The pieces of such a statement have tokens that spell it. -/
theorem exists_spellsStmt (he : Grammar.expression.parse t = .ok e)
    (hty : Grammar.type.parse ty = .ok type) (n : Name) :
    ∀ s ∈ singleStatements t ty e type n, ∃ tokens depth, AllLex s.1 tokens ∧
      SpellsStmt depth tokens.flatten s.2 ∧ depth ≤ nestingLimit := by
  obtain ⟨depth, us, hus, hspells, hdepth⟩ := exists_spells_of_parse he
  obtain ⟨htokens, htype⟩ := lexes_of_parse_type hty
  obtain ⟨⟨hsemicolon, hassign⟩, -⟩ := lexes_symbols
  obtain ⟨-, -, hreturn, hthrow⟩ := lexes_keywords
  simp only [singleStatements, List.forall_mem_cons, List.not_mem_nil, false_implies,
    implies_true, and_true]
  refine ⟨?_, ?_, ?_, ?_, ?_⟩
  · exact ⟨[us, [.symbol .semicolon]], depth, .cons hus (.cons hsemicolon .nil),
      by simpa using .eval hspells, hdepth⟩
  · exact ⟨[type.tokens, [n.token], [.symbol .semicolon]], 0,
      .cons htokens (.cons n.lexes (.cons hsemicolon .nil)),
      by simpa using .declare htype n, Nat.zero_le _⟩
  · exact ⟨[type.tokens, [n.token], [.symbol .assign], us, [.symbol .semicolon]], depth,
      .cons htokens (.cons n.lexes (.cons hassign (.cons hus (.cons hsemicolon .nil)))),
      by simpa using .define htype n hspells, hdepth⟩
  · exact ⟨[[.word "return"], us, [.symbol .semicolon]], depth,
      .cons hreturn (.cons hus (.cons hsemicolon .nil)), by simpa using .returns hspells, hdepth⟩
  · exact ⟨[[.word "throw"], us, [.symbol .semicolon]], depth,
      .cons hthrow (.cons hus (.cons hsemicolon .nil)), by simpa using .throws hspells, hdepth⟩

/-- A body whose only statement has a text that is read as an expression in it is read as that
statement, in every method and constructor. A text that is read as a type in front of a name
declares a variable of that type, and an expression in front of a semicolon is not taken for such a
declaration: nothing of it is read before it is read as an expression. -/
theorem parse_singleStatements (he : Grammar.expression.parse t = .ok e)
    (hty : Grammar.type.parse ty = .ok type) (n : Name) :
    (∀ s ∈ singleStatements t ty e type n,
      (∃ placed, tokenize (lines s.1) = .ok placed ∧
        ReadsAsBody (placed.map PlacedToken.token) [s.2]) ∧
      (∀ owner m : Name, Grammar.compilationUnit.parse (classText owner ["void", m.text] s.1) =
        .ok (.ofMember owner (.method ⟨[], [], [], .void, m, [], some [s.2]⟩))) ∧
      ∀ owner : Name, Grammar.compilationUnit.parse (classText owner [owner.text] s.1) =
        .ok (.ofMember owner (.constructor ⟨[], [], owner, [], [s.2]⟩))) ∧
    ∃ placed, tokenize (lines [t, ";"]) = .ok placed ∧
      ∀ rest, atLocal (placed.map PlacedToken.token ++ rest) =
        .ok (false, placed.map PlacedToken.token ++ rest) := by
  refine ⟨fun s hs => ?_, ?_⟩
  · obtain ⟨tokens, depth, hlex, hspells, hdepth⟩ := exists_spellsStmt he hty n s hs
    have hbody := hspells.readsAsBody hdepth
    refine ⟨?_, fun owner m => ?_, fun owner => ?_⟩
    · obtain ⟨placed, hplaced, htokens⟩ := tokenize_of_lexes hlex.lines
      exact ⟨placed, hplaced, htokens ▸ hbody⟩
    · exact parse_classText (.cons lexes_keywords.2.1 (.cons m.lexes .nil)) hlex
        (member_method m hbody) ⟨_, _, rfl, by simp⟩
    · exact parse_classText (.cons owner.lexes .nil) hlex (member_constructor hbody)
        ⟨_, _, rfl, by simp [Name.token]⟩
  · obtain ⟨depth, us, hus, hspells, -⟩ := exists_spells_of_parse he
    have hlex : AllLex [t, ";"] [us, [.symbol .semicolon]] :=
      .cons hus (.cons lexes_symbols.1.1 .nil)
    obtain ⟨placed, hplaced, htokens⟩ := tokenize_of_lexes hlex.lines
    refine ⟨placed, hplaced, fun rest => ?_⟩
    have hlocal := atLocal_spelling hspells rest
    rw [htokens]
    simpa using hlocal

/-- A comment behind the expression ends with its line, and the class literal of an array is not
taken for the declaration of one. -/
theorem parse_singleStatements_classLiteral :
    ∃ t ty e type, t = "int[].class // no variable" ∧ ty = "a.b<? super c[]>[]" ∧
      Grammar.expression.parse t = .ok e ∧ Grammar.type.parse ty = .ok type ∧
      ∀ s ∈ singleStatements t ty e type ⟨"v", by decide⟩, ∀ owner : Name,
        Grammar.compilationUnit.parse (classText owner [owner.text] s.1) =
          .ok (.ofMember owner (.constructor ⟨[], [], owner, [], [s.2]⟩)) := by
  obtain ⟨t, ht⟩ : ∃ t, t = "int[].class // no variable" := ⟨_, rfl⟩
  obtain ⟨ty, hty⟩ : ∃ ty, ty = "a.b<? super c[]>[]" := ⟨_, rfl⟩
  obtain ⟨e, he⟩ : ∃ e, Grammar.expression.parse t = .ok e :=
    Grammar.exists_of_isOk (by rw [ht]; decide +kernel)
  obtain ⟨type, htype⟩ : ∃ type, Grammar.type.parse ty = .ok type :=
    Grammar.exists_of_isOk (by rw [hty]; decide +kernel)
  refine ⟨t, ty, e, type, ht, hty, he, htype, fun s hs => ?_⟩
  exact ((parse_singleStatements he htype ⟨"v", by decide⟩).1 s hs).2.2

end Stubwright.Source
