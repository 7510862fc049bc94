import Stubwright.Proofs.Source.Expressions

/-!
# The printed tokens of declarations

How a declaration is laid out on lines does not matter to its tokens: they depend on the tree alone.

## Main definitions

* `Stmt.tokens`, `Member.tokens`, `TypeDecl.tokens`, `CompilationUnit.tokens` — the printed tokens

## Main results

* `CompilationUnit.tokens_pieces` — the tokens of the pieces that are printed
* `CompilationUnit.spaced_pieces` — a file is printed in spaced pieces
-/

namespace Stubwright.Source

open Piece
open Source.Parser (commaTokens)

/-! ## Statements -/

/-- The tokens of an initial value, when there is one. -/
def initTokens : Option Expr → List Token
  | none => []
  | some value => .symbol .assign :: value.tokens

@[simp] theorem tokens_initPieces (init : Option Expr) :
    Piece.tokens (initPieces init) = initTokens init := by
  cases init <;> simp [initPieces, initTokens, Expr.tokens]

namespace Stmt

/-- The tokens of a statement. -/
def tokens : Stmt → List Token
  | eval value => value.tokens ++ [.symbol .semicolon]
  | returns none => [.word "return", .symbol .semicolon]
  | returns (some value) => .word "return" :: (value.tokens ++ [.symbol .semicolon])
  | throws value => .word "throw" :: (value.tokens ++ [.symbol .semicolon])
  | declare type name init =>
    type.tokens ++ name.token :: (initTokens init ++ [.symbol .semicolon])

@[simp] theorem tokens_pieces (stmt : Stmt) : Piece.tokens stmt.pieces = stmt.tokens := by
  rcases stmt with value | _ | value | ⟨type, name, init⟩
  case returns value => cases value <;> simp [pieces, tokens, Expr.tokens]
  all_goals simp [pieces, tokens, Expr.tokens, Ty.tokens]

private theorem spaced_pieces (stmt : Stmt) : Spaced stmt.pieces := by
  cases stmt with
  | eval value => simp [pieces, value.spaced_pieces]
  | returns value =>
    cases value with
    | none => simp +decide [pieces]
    | some value => simp +decide [pieces, value.spaced_pieces]
  | throws value => simp +decide [pieces, value.spaced_pieces]
  | declare type name init =>
    cases init with
    | none => simp [pieces, initPieces, type.spaced_pieces]
    | some value => simp [pieces, initPieces, type.spaced_pieces, value.spaced_pieces]

end Stmt

/-! ## Imports, annotations and parameters -/

namespace Import

/-- The tokens of what an import names. -/
def targetTokens (i : Import) : List Token :=
  i.name.tokens ++ if i.isAsterisk then [.symbol .dot, .symbol .star] else []

/-- The tokens of an import. -/
def tokens (i : Import) : List Token :=
  .word "import" :: ((if i.isStatic then [.word "static"] else []) ++
    (i.targetTokens ++ [.symbol .semicolon]))

@[simp] theorem tokens_pieces (i : Import) : Piece.tokens i.pieces = i.tokens := by
  obtain ⟨name, isStatic, isAsterisk⟩ := i
  cases isStatic <;> cases isAsterisk <;>
    simp [pieces, tokens, targetTokens, QualifiedName.tokens]

theorem spaced_pieces (i : Import) : Spaced i.pieces := by
  obtain ⟨name, isStatic, isAsterisk⟩ := i
  cases isStatic <;> cases isAsterisk <;> simp +decide [pieces]

end Import

namespace AnnotationUse

/-- The tokens of an annotation. -/
def tokens (use : AnnotationUse) : List Token :=
  .symbol .atSign :: (use.name.tokens ++
    match use.argument with
    | none => []
    | some value => .symbol .leftParen :: (value.tokens ++ [.symbol .rightParen]))

@[simp] theorem tokens_pieces (use : AnnotationUse) : Piece.tokens use.pieces = use.tokens := by
  obtain ⟨name, _ | value⟩ := use
  · simp [pieces, tokens, QualifiedName.tokens]
  · simp [pieces, tokens, QualifiedName.tokens, Expr.tokens]

private theorem spaced_pieces (use : AnnotationUse) : Spaced use.pieces := by
  obtain ⟨name, _ | value⟩ := use
  · simp [pieces]
  · simp [pieces, parenthesized, value.spaced_pieces]

end AnnotationUse

/-- The token of a modifier. -/
def Modifier.token (modifier : Modifier) : Token := .word modifier.keyword

private theorem Modifier.isReadable_keyword (modifier : Modifier) :
    (word modifier.keyword).isReadable := by
  cases modifier <;> decide

@[simp] theorem tokens_modifierPieces (modifiers : List Modifier) :
    Piece.tokens (modifierPieces modifiers) = modifiers.map Modifier.token := by
  induction modifiers with
  | nil => rfl
  | cons modifier rest ih =>
    simp only [modifierPieces, List.flatMap_cons, List.cons_append, List.nil_append, tokens_word,
      tokens_space, List.map_cons, Modifier.token] at ih ⊢
    rw [ih]

/-- What may follow modifiers and annotations on lines of their own. -/
theorem spaced_modifierPieces_append {modifiers : List Modifier} {ps : List Piece} :
    Spaced (modifierPieces modifiers ++ ps) ↔ Spaced ps := by
  rw [modifierPieces, spaced_flatMap_append (by simp)]
  simp [Modifier.isReadable_keyword]

namespace Parameter

/-- The tokens of a parameter. -/
def tokens (param : Parameter) : List Token :=
  param.annotations.flatMap AnnotationUse.tokens ++
    ((if param.isFinal then [.word "final"] else []) ++ (param.type.tokens ++ [param.name.token]))

@[simp] theorem tokens_pieces (param : Parameter) : Piece.tokens param.pieces = param.tokens := by
  obtain ⟨annotations, isFinal, type, name⟩ := param
  cases isFinal <;> simp [pieces, tokens, Ty.tokens]

private theorem spaced_pieces (param : Parameter) : Spaced param.pieces := by
  obtain ⟨annotations, isFinal, type, name⟩ := param
  rw [pieces, List.append_assoc, List.append_assoc, spaced_flatMap_append (by simp)]
  refine ⟨fun use _ => ?_, ?_⟩
  · simp [use.spaced_pieces]
  · cases isFinal <;> simp +decide [type.spaced_pieces]

end Parameter

/-- The tokens of parameters in parentheses. -/
def paramTokens (params : List Parameter) : List Token :=
  .symbol .leftParen :: (commaTokens Parameter.tokens params ++ [.symbol .rightParen])

@[simp] theorem tokens_paramPieces (params : List Parameter) :
    Piece.tokens (paramPieces params) = paramTokens params := by
  simp [paramPieces, paramTokens]

private theorem spaced_comma_separated {α : Type} (xs : List α) {f : α → List Piece}
    (h : ∀ x ∈ xs, Spaced (f x)) : Spaced (separated comma (xs.map f)) :=
  spaced_separated (by simp [comma]) (by simp [comma]) (by simp [comma]) (by simp [comma]) h

private theorem spaced_paramPieces (params : List Parameter) : Spaced (paramPieces params) := by
  have hparams := spaced_comma_separated params fun param _ => param.spaced_pieces
  simp [paramPieces, parenthesized, hparams]

/-! ## Members -/

/-- The tokens that every declaration begins with. -/
def leadTokens (annotations : List AnnotationUse) (modifiers : List Modifier) : List Token :=
  annotations.flatMap AnnotationUse.tokens ++ modifiers.map Modifier.token

@[simp] theorem tokens_leadPieces (depth : Nat) (annotations : List AnnotationUse)
    (modifiers : List Modifier) :
    Piece.tokens (leadPieces depth annotations modifiers) = leadTokens annotations modifiers := by
  simp [leadPieces, leadTokens, annotationLines]

private theorem spaced_leadPieces_append {depth : Nat} {annotations : List AnnotationUse}
    {modifiers : List Modifier} {ps : List Piece} :
    Spaced (leadPieces depth annotations modifiers ++ ps) ↔ Spaced ps := by
  rw [leadPieces, annotationLines, List.append_assoc, List.append_assoc,
    spaced_flatMap_append (by simp), spaced_indentation_append, spaced_modifierPieces_append]
  refine and_iff_right fun use _ => ?_
  simp [use.spaced_pieces]

/-- The tokens of a method body. -/
def blockTokens (body : List Stmt) : List Token :=
  .symbol .leftBrace :: (body.flatMap Stmt.tokens ++ [.symbol .rightBrace])

@[simp] theorem tokens_blockPieces (depth : Nat) (body : List Stmt) :
    Piece.tokens (blockPieces depth body) = blockTokens body := by
  simp [blockPieces, blockTokens]

private theorem spaced_blockPieces (depth : Nat) (body : List Stmt) :
    Spaced (blockPieces depth body) := by
  simp only [blockPieces, List.append_assoc, List.cons_append]
  rw [spaced_cons (by simp), spaced_cons (by simp), spaced_cons (by simp),
    spaced_flatMap_append (by simp), spaced_indentation_append]
  refine ⟨by simp, by simp, by simp, fun stmt _ => ?_, by simp⟩
  simp [stmt.spaced_pieces]

private theorem blockPieces_head (depth : Nat) (body : List Stmt) :
    ∀ p ∈ (blockPieces depth body).head?, p.isClosed := by
  simp [blockPieces]

/-- The tokens of a field. -/
def FieldDecl.tokens (field : FieldDecl) : List Token :=
  leadTokens field.annotations field.modifiers ++ (field.type.tokens ++
    field.name.token :: (initTokens field.init ++ [.symbol .semicolon]))

/-- The tokens of a constructor. -/
def ConstructorDecl.tokens (ctor : ConstructorDecl) : List Token :=
  leadTokens ctor.annotations ctor.modifiers ++ ctor.name.token ::
    (paramTokens ctor.params ++ blockTokens ctor.body)

/-- The tokens of type parameters. -/
def typeParamTokens : List Name → List Token
  | [] => []
  | names@(_ :: _) => .symbol .less :: (commaTokens (fun n => [n.token]) names ++ [.symbol .greater])

@[simp] theorem tokens_typeParamPieces (names : List Name) :
    Piece.tokens (typeParamPieces names) = typeParamTokens names := by
  cases names with
  | nil => rfl
  | cons n names =>
    rw [typeParamPieces, List.cons_append, tokens_symbol, tokens_append, tokens_separated_comma]
    rfl

/-- The tokens of the body of a method, or of the semicolon in its place. -/
def bodyTokens : Option (List Stmt) → List Token
  | none => [.symbol .semicolon]
  | some body => blockTokens body

/-- The tokens of a method. -/
def MethodDecl.tokens (method : MethodDecl) : List Token :=
  leadTokens method.annotations method.modifiers ++ (typeParamTokens method.typeParams ++
    (method.returnType.tokens ++ method.name.token ::
      (paramTokens method.params ++ bodyTokens method.body)))

namespace Member

/-- The tokens of a member. -/
def tokens : Member → List Token
  | field decl => decl.tokens
  | constructor decl => decl.tokens
  | method decl => decl.tokens

@[simp] theorem tokens_pieces (depth : Nat) (member : Member) :
    Piece.tokens (member.pieces depth) = member.tokens := by
  cases member with
  | field decl =>
    simp [pieces, tokens, FieldDecl.pieces, FieldDecl.tokens, Ty.tokens]
  | constructor decl => simp [pieces, tokens, ConstructorDecl.pieces, ConstructorDecl.tokens]
  | method decl =>
    obtain ⟨annotations, modifiers, typeParams, returnType, name, params, body⟩ := decl
    cases body <;> simp [pieces, tokens, MethodDecl.pieces, MethodDecl.tokens, bodyTokens, Ty.tokens]

private theorem spaced_typeParamPieces_append {names : List Name} {ps : List Piece} :
    Spaced (typeParamPieces names ++ ps) ↔ Spaced ps := by
  cases names with
  | nil => rfl
  | cons n names =>
    have hnames := spaced_comma_separated (n :: names) fun n _ => n.spaced_pieces
    simp [typeParamPieces, -List.map_cons, hnames]

private theorem spaced_pieces (depth : Nat) (member : Member) : Spaced (member.pieces depth) := by
  cases member with
  | field decl =>
    obtain ⟨annotations, modifiers, type, name, init⟩ := decl
    cases init with
    | none => simp [pieces, FieldDecl.pieces, initPieces, spaced_leadPieces_append, type.spaced_pieces]
    | some value =>
      simp [pieces, FieldDecl.pieces, initPieces, spaced_leadPieces_append, type.spaced_pieces,
        value.spaced_pieces]
  | constructor decl =>
    have hbody := blockPieces_head depth decl.body
    have hparams : ∀ p ∈ (paramPieces decl.params).head?, p.isClosed := by
      simp [paramPieces, parenthesized]
    simp only [pieces, ConstructorDecl.pieces, List.append_assoc]
    rw [spaced_leadPieces_append, ← List.append_assoc, spaced_append (.inr hbody),
      spaced_append (.inr hparams)]
    exact ⟨⟨decl.name.spaced_pieces, spaced_paramPieces _⟩, spaced_blockPieces _ _⟩
  | method decl =>
    have hbody : ∀ p ∈ ((decl.body.map (blockPieces depth)).getD [symbol .semicolon]).head?,
        p.isClosed := by
      cases decl.body with
      | none => simp
      | some body => exact blockPieces_head depth body
    have hspaced : Spaced ((decl.body.map (blockPieces depth)).getD [symbol .semicolon]) := by
      cases decl.body with
      | none => simp
      | some body => exact spaced_blockPieces depth body
    have hparams : ∀ p ∈ (paramPieces decl.params).head?, p.isClosed := by
      simp [paramPieces, parenthesized]
    simp only [pieces, MethodDecl.pieces, List.append_assoc, List.cons_append]
    rw [spaced_leadPieces_append, spaced_typeParamPieces_append, spaced_append_cons (by simp),
      spaced_cons (by simp), ← List.append_assoc, spaced_append (.inr hbody),
      spaced_append (.inr hparams)]
    exact ⟨decl.returnType.spaced_pieces, by simp,
      ⟨decl.name.spaced_pieces, spaced_paramPieces _⟩, hspaced⟩

end Member

/-! ## Type declarations -/

namespace EnumConstant

/-- The tokens of an enum constant. -/
def tokens (constant : EnumConstant) : List Token :=
  constant.name.token ::
    if constant.args.isEmpty then [] else Expr.listTokens constant.args

@[simp] theorem tokens_pieces (constant : EnumConstant) :
    Piece.tokens constant.pieces = constant.tokens := by
  obtain ⟨name, args⟩ := constant
  cases args with
  | nil => simp [pieces, tokens]
  | cons arg rest => simp [pieces, tokens, Expr.listTokens]

private theorem spaced_pieces (constant : EnumConstant) : Spaced constant.pieces := by
  obtain ⟨name, args⟩ := constant
  have hargs := Expr.spaced_listPieces args
  cases args with
  | nil => simp [pieces]
  | cons arg rest => simp [pieces, parenthesized, hargs]

end EnumConstant

/-- The tokens of a keyword and class types, when there are any. -/
def clauseTokens (keyword : String) : List ClassType → List Token
  | [] => []
  | types@(_ :: _) => .word keyword :: commaTokens ClassType.tokens types

@[simp] theorem tokens_clausePieces (keyword : String) (types : List ClassType) :
    Piece.tokens (clausePieces keyword types) = clauseTokens keyword types := by
  cases types with
  | nil => rfl
  | cons type rest =>
    rw [clausePieces, tokens_space, tokens_word, tokens_space, tokens_separated_comma]
    rfl

private theorem spaced_clausePieces (keyword : String) (hkeyword : (word keyword).isReadable)
    (types : List ClassType) : Spaced (clausePieces keyword types) := by
  cases types with
  | nil => simp [clausePieces]
  | cons type rest =>
    have htypes := spaced_comma_separated (type :: rest) fun type _ => type.spaced_pieces
    simp [clausePieces, -List.map_cons, htypes, hkeyword]

private theorem clausePieces_append_head (keyword : String) (types : List ClassType)
    {ps : List Piece}
    (h : ∀ p ∈ ps.head?, p.isClosed) :
    ∀ p ∈ (clausePieces keyword types ++ ps).head?, p.isClosed := by
  cases types with
  | nil => exact h
  | cons => simp [clausePieces]

@[simp] theorem tokens_memberPieces (depth : Nat) (members : List Member) :
    Piece.tokens (memberPieces depth members) = members.flatMap Member.tokens := by
  induction members with
  | nil => rfl
  | cons first rest ih =>
    cases rest with
    | nil => simp [memberPieces]
    | cons second rest =>
      rw [memberPieces]
      split <;> simp [ih]

private theorem spaced_memberPieces (depth : Nat) (members : List Member) :
    Spaced (memberPieces depth members) := by
  induction members with
  | nil => exact spaced_nil
  | cons first rest ih =>
    cases rest with
    | nil => simp [memberPieces, first.spaced_pieces]
    | cons second rest =>
      rw [memberPieces]
      split <;> simp [first.spaced_pieces, ih]

namespace TypeDecl

/-- Whether the constants of a declaration are printed: those of an enum that has any. -/
def printsConstants (decl : TypeDecl) : Prop := decl.kind = .enumType ∧ decl.constants ≠ []

instance (decl : TypeDecl) : Decidable decl.printsConstants := inferInstanceAs (Decidable (_ ∧ _))

/-- The tokens of the constants, with the semicolon before members. -/
def constantTokens (decl : TypeDecl) : List Token :=
  if decl.printsConstants then
    commaTokens EnumConstant.tokens decl.constants ++
      if decl.members.isEmpty then [] else [.symbol .semicolon]
  else []

/-- The tokens of a type declaration. -/
def tokens (decl : TypeDecl) : List Token :=
  leadTokens decl.annotations decl.modifiers ++ .word decl.kind.keyword :: decl.name.token ::
    (clauseTokens "extends" decl.supers ++ (clauseTokens "implements" decl.interfaces ++
      .symbol .leftBrace :: (decl.constantTokens ++ (decl.members.flatMap Member.tokens ++
        [.symbol .rightBrace]))))

/-- The printed constants. -/
def constantSection (decl : TypeDecl) : List Piece :=
  if decl.kind = .enumType ∧ decl.constants ≠ [] then
    constantPieces 1 decl.constants !decl.members.isEmpty
  else []

private theorem tokens_constantSection (decl : TypeDecl) :
    Piece.tokens decl.constantSection = decl.constantTokens := by
  have hconstants : Piece.tokens (separated [symbol .comma, newline]
      (decl.constants.map fun constant => indentation 1 ++ constant.pieces)) =
        commaTokens EnumConstant.tokens decl.constants := by
    cases decl.constants with
    | nil => rfl
    | cons constant rest => simp [separated_cons, List.flatMap_map]
  unfold constantSection constantTokens
  by_cases hprints : decl.kind = .enumType ∧ decl.constants ≠ []
  · have hprints' : decl.printsConstants := hprints
    rw [if_pos hprints, if_pos hprints', constantPieces, tokens_append, hconstants]
    cases decl.members <;> rfl
  · have hprints' : ¬ decl.printsConstants := hprints
    rw [if_neg hprints, if_neg hprints']
    rfl

private theorem spaced_constantSection_append (decl : TypeDecl) {ps : List Piece} :
    Spaced (decl.constantSection ++ ps) ↔ Spaced ps := by
  have hconstants : Spaced (separated [symbol .comma, newline]
      (decl.constants.map fun constant => indentation 1 ++ constant.pieces)) := by
    refine spaced_separated (by simp) (by simp) (by simp) (by simp) fun constant _ => ?_
    rw [spaced_indentation_append]
    exact constant.spaced_pieces
  unfold constantSection
  split
  · rw [constantPieces]
    split <;> simp [hconstants]
  · rfl

private theorem pieces_eq (decl : TypeDecl) :
    decl.pieces = leadPieces 0 decl.annotations decl.modifiers ++ word decl.kind.keyword :: space ::
      (decl.name.pieces ++ (clausePieces "extends" decl.supers ++
        (clausePieces "implements" decl.interfaces ++ space :: symbol .leftBrace :: newline ::
          (decl.constantSection ++ (memberPieces 1 decl.members ++ [symbol .rightBrace]))))) := by
  simp [pieces, constantSection]

@[simp] theorem tokens_pieces (decl : TypeDecl) : Piece.tokens decl.pieces = decl.tokens := by
  rw [pieces_eq]
  simp [tokens_constantSection, tokens]

private theorem isReadable_keyword (kind : TypeDeclKind) : (word kind.keyword).isReadable := by
  cases kind <;> decide

private theorem spaced_pieces (decl : TypeDecl) : Spaced decl.pieces := by
  have hextends := spaced_clausePieces "extends" (by decide) decl.supers
  have himplements := spaced_clausePieces "implements" (by decide) decl.interfaces
  have hbody : Spaced (space :: symbol .leftBrace :: newline ::
      (decl.constantSection ++ (memberPieces 1 decl.members ++ [symbol .rightBrace]))) := by
    simp [spaced_constantSection_append, spaced_memberPieces]
  have hopen : ∀ p ∈ (space :: symbol .leftBrace :: newline :: (decl.constantSection ++
      (memberPieces 1 decl.members ++ [symbol .rightBrace]))).head?, p.isClosed := by simp
  have hhead := clausePieces_append_head "implements" decl.interfaces hopen
  rw [pieces_eq, spaced_leadPieces_append, spaced_cons_cons (by simp), spaced_cons (by simp),
    spaced_append (.inr (clausePieces_append_head "extends" decl.supers hhead)),
    spaced_append (.inr hhead), spaced_append_cons (by simp)]
  exact ⟨isReadable_keyword _, by simp, decl.name.spaced_pieces, hextends, himplements, hbody⟩

end TypeDecl

/-! ## Files -/

namespace CompilationUnit

/-- The tokens of the package of a file. -/
def packageTokens : Option QualifiedName → List Token
  | none => []
  | some name => .word "package" :: (name.tokens ++ [.symbol .semicolon])

/-- The tokens of a file. -/
def tokens (file : CompilationUnit) : List Token :=
  packageTokens file.package ++ (file.imports.flatMap Import.tokens ++
    file.types.flatMap TypeDecl.tokens)

private theorem tokens_separated_newline (sections : List (List Piece)) :
    Piece.tokens (separated [newline] sections) = sections.flatMap Piece.tokens := by
  cases sections with
  | nil => rfl
  | cons first rest => simp [separated_cons]

@[simp] theorem tokens_pieces (file : CompilationUnit) :
    Piece.tokens file.pieces = file.tokens := by
  obtain ⟨package, imports, types⟩ := file
  have hpackage : ∀ name : QualifiedName, Piece.tokens name.pieces = name.tokens := fun _ => rfl
  rw [pieces, tokens_separated_newline, sections, List.append_assoc]
  cases package <;> cases imports <;>
    simp [tokens, packageTokens, List.flatMap_map, hpackage]

theorem spaced_pieces (file : CompilationUnit) : Spaced file.pieces := by
  have hsections : ∀ ps ∈ file.sections, Spaced (id ps) := by
    obtain ⟨package, imports, types⟩ := file
    have himports : Spaced (imports.flatMap fun i => i.pieces ++ [newline]) := by
      rw [← List.append_nil (imports.flatMap _), spaced_flatMap_append (by simp)]
      simp [Import.spaced_pieces]
    intro ps hps
    simp only [sections, List.mem_append, List.mem_map] at hps
    rcases hps with (hps | hps) | ⟨decl, -, rfl⟩
    · cases package with
      | none => simp at hps
      | some name =>
        obtain rfl := List.mem_singleton.1 hps
        simp +decide
    · split at hps
      · simp at hps
      · obtain rfl := List.mem_singleton.1 hps
        exact himports
    · simp [decl.spaced_pieces]
  rw [pieces, ← List.map_id file.sections]
  exact spaced_separated (by simp) (by simp) (by simp) (by simp) hsections

end CompilationUnit

end Stubwright.Source
