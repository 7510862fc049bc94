import Stubwright.Proofs.Source.UnitRoundTrip

/-!
# Trees that are read back

Generated code is put together from few kinds of types, expressions and members. For each kind it is
shown once when it is read back from its text, so that a whole declaration is read back when its
parts are.

## Main definitions

* `Ty.IsClassWithin` — a class or interface type with a bound on its nesting
* `Expr.SpelledWithin` — an expression that is printed as its spelling, with a bound on its nesting
* `Member.ReadsBack`, `TypeDecl.ReadsBack` — declarations that are read back inside of their file

## Main results

* `Ty.parse_canonical_of_isVariable` — the type of a variable is read back from its text
* `Expr.SpelledWithin.callOn`, `Expr.SpelledWithin.concat` — calls, and sums of texts
* `CompilationUnit.parse_canonical_of_readsBack` — a file of such declarations is read back
-/

namespace Stubwright.Source

open Source.Parser

/-! ## Types -/

namespace Ty

/-- A class or interface type that nests no deeper than `depth`. -/
def IsClassWithin (depth : Nat) (type : Ty) : Prop :=
  ∃ c : ClassType, type = .ofClass c ∧ c.toRef.nesting ≤ depth

/-- A class without arguments nests nothing. -/
theorem isClassWithin_plain (q : QualifiedName) : IsClassWithin 0 (.ofClass (.plain q)) :=
  ⟨_, rfl, Nat.le_refl 0⟩

namespace IsClassWithin

variable {depth bound : Nat} {type value : Ty}

/-- What nests within a depth nests within a greater one. -/
theorem mono (h : type.IsClassWithin depth) (hle : depth ≤ bound) : type.IsClassWithin bound := by
  obtain ⟨c, rfl, hc⟩ := h
  exact ⟨c, rfl, hc.trans hle⟩

theorem nesting_toRef_le (h : type.IsClassWithin depth) : type.toRef.nesting ≤ depth := by
  obtain ⟨c, rfl, hc⟩ := h
  exact hc

theorem nesting_le (h : type.IsClassWithin depth) : type.nesting ≤ depth := by
  obtain ⟨c, rfl, hc⟩ := h
  exact hc

/-- A class that nests within the limit is the type of a variable. -/
theorem isVariable (h : type.IsClassWithin depth) (hle : depth ≤ nestingLimit) :
    type.IsVariable := by
  obtain ⟨c, rfl, hc⟩ := h
  exact ⟨nofun, hc.trans hle⟩

end IsClassWithin

/-- A class or interface without type arguments may be the type of a variable. -/
theorem isVariable_plain (q : QualifiedName) : IsVariable (.ofClass (.plain q)) :=
  (isClassWithin_plain q).isVariable (Nat.zero_le _)

/-- Type arguments nest one level deeper. -/
theorem nesting_ofTypes_le {depth : Nat} {name : QualifiedName} {args : List Ty}
    (h : ∀ type ∈ args, type.toRef.nesting ≤ depth) :
    (ClassType.ofTypes name args).toRef.nesting ≤ depth + 1 := by
  change TypeArg.nestingList _ ≤ depth + 1
  rw [TypeArg.nestingList_le]
  intro arg harg
  obtain ⟨type, htype, rfl⟩ := List.mem_map.1 harg
  exact Nat.succ_le_succ (h type htype)

/-- Arguments lie one level below the library class that takes them. -/
theorem isClassWithin_library {depth : Nat} {name : QualifiedName} {args : List Ty}
    (h : ∀ type ∈ args, type.IsClassWithin depth) :
    (library name args).IsClassWithin (depth + 1) :=
  ⟨_, rfl, nesting_ofTypes_le fun type htype => (h type htype).nesting_toRef_le⟩

/-- A wrapper class that becomes a primitive type may be the type of a variable as before. -/
theorem IsVariable.unboxed {type : Ty} (h : type.IsVariable) : type.unboxed.IsVariable := by
  unfold Ty.unboxed
  split
  · split
    · exact ⟨nofun, Nat.zero_le _⟩
    · exact h
  · exact h

theorem classType?_eq_some {type : Ty} {c : ClassType} :
    type.classType? = some c ↔ type = .ofClass c := by
  constructor
  · intro h
    cases type with
    | reference type =>
      cases type with
      | named name args =>
        cases h
        rfl
      | _ => cases h
    | _ => cases h
  · rintro rfl
    rfl

/-- Types are class types together when each of them is one. -/
theorem mapM_classType?_eq_some {types : List Ty} {classes : List ClassType} :
    types.mapM classType? = some classes ↔ types = classes.map ofClass := by
  induction types generalizing classes with
  | nil => simp [eq_comm]
  | cons type rest ih =>
    rw [List.mapM_cons]
    constructor
    · intro h
      obtain ⟨first, hfirst, h⟩ := Option.bind_eq_some_iff.1 h
      obtain ⟨others, hothers, h⟩ := Option.bind_eq_some_iff.1 h
      cases h
      rw [List.map_cons, classType?_eq_some.1 hfirst, ih.1 hothers]
    · intro h
      cases classes with
      | nil => cases h
      | cons first others =>
        obtain ⟨hfirst, hothers⟩ := List.cons.inj h
        rw [classType?_eq_some.2 hfirst, ih.2 hothers]
        rfl

/-- The canonical text of a type other than `void` is read back as the type, or nests too deep. -/
theorem parse_canonical_reaches {type : Ty} (h : type ≠ .void) :
    (type.nesting ≤ nestingLimit → Grammar.type.parse (canonical type) = .ok type) ∧
      (¬ type.nesting ≤ nestingLimit →
        ∃ pos, Grammar.type.parse (canonical type) = .error ⟨.tooDeep, pos⟩) :=
  parseText_render_reaches type.spaced_pieces (type_reaches_end readsTypes_firstInner h)

/-- The type of a variable is read back from its canonical text. -/
theorem parse_canonical_of_isVariable {type : Ty} (h : type.IsVariable) :
    Grammar.type.parse (canonical type) = .ok type :=
  (parse_canonical_reaches h.1).1 h.2

end Ty

/-! ## Expressions -/

/-- An expression whose printed tokens spell it and that nests no deeper than `depth`. -/
structure Expr.SpelledWithin (depth : Nat) (e : Expr) : Prop where
  spelled : e.IsSpelled
  nesting_le : e.nesting ≤ depth

namespace Expr

theorem argsNesting_le {args : List Expr} {depth : Nat} (h : ∀ arg ∈ args, arg.nesting ≤ depth) :
    argsNesting args ≤ depth + 1 := by
  induction args with
  | nil => exact Nat.zero_le _
  | cons arg rest ih =>
    obtain ⟨harg, hrest⟩ := List.forall_mem_cons.1 h
    exact Nat.max_le.2 ⟨Nat.succ_le_succ harg, ih hrest⟩

/-- An expression that binds as tightly as its place asks for needs no parentheses. -/
theorem parenDepth_of_le {own least : Nat} (h : least ≤ own) : parenDepth own least = 0 :=
  if_neg (Nat.not_lt.2 h)

namespace SpelledWithin

variable {depth bound : Nat} {e target value : Expr} {args parts : List Expr}

/-- What is spelled within a depth is spelled within a greater one. -/
theorem mono (h : e.SpelledWithin depth) (hle : depth ≤ bound) : e.SpelledWithin bound :=
  ⟨h.spelled, h.nesting_le.trans hle⟩

theorem text (value : String) : SpelledWithin depth (.text value) :=
  ⟨⟨rfl, rfl⟩, Nat.zero_le _⟩

theorem null : SpelledWithin depth .null := ⟨⟨rfl, rfl⟩, Nat.zero_le _⟩

theorem name (n : Name) : SpelledWithin depth (.name n) := ⟨⟨rfl, rfl⟩, Nat.zero_le _⟩

theorem selfField (n : Name) : SpelledWithin depth (.selfField n) := ⟨⟨rfl, rfl⟩, Nat.zero_le _⟩

/-- A class literal leaves out the type arguments, so that of a class can always be written. -/
theorem classOf {type : Ty} (h : type.IsClassWithin bound) :
    SpelledWithin depth (.classOf type) := by
  obtain ⟨c, rfl, -⟩ := h
  exact ⟨⟨rfl, rfl⟩, Nat.zero_le _⟩

/-- Arguments lie one level below the call. -/
theorem call (n : Name) (hargs : ∀ arg ∈ args, arg.SpelledWithin depth) :
    (Expr.call n args).SpelledWithin (depth + 1) := by
  refine ⟨⟨?_, ?_⟩, argsNesting_le fun arg harg => (hargs arg harg).nesting_le⟩
  · rw [isReadable, areReadable_iff]
    exact fun arg harg => (hargs arg harg).spelled.readable
  · rw [strayMinuses, strayMinusesIn_eq_zero]
    exact fun arg harg => (hargs arg harg).spelled.strayMinuses

/-- A call nests one level deeper than its arguments; a target that binds tightly stands without
parentheses. -/
theorem callOn (n : Name) (htarget : target.SpelledWithin depth) (htight : 7 ≤ target.precedence)
    (hargs : ∀ arg ∈ args, arg.SpelledWithin depth) :
    (Expr.callOn target n args).SpelledWithin (depth + 1) := by
  have hcall := SpelledWithin.call n hargs
  refine ⟨⟨?_, ?_⟩, Nat.max_le.2 ⟨?_, hcall.nesting_le⟩⟩
  · rw [isReadable, htarget.spelled.readable, Bool.true_and]
    exact hcall.spelled.readable
  · rw [strayMinuses, htarget.spelled.strayMinuses, Nat.zero_add]
    exact hcall.spelled.strayMinuses
  · rw [parenDepth_of_le htight]
    exact htarget.nesting_le.trans (Nat.le_succ depth)

/-- Storing a name in a field of the object. -/
theorem assignField (field n : Name) :
    (Expr.assign (.selfField field) (.name n)).SpelledWithin 1 := ⟨⟨rfl, rfl⟩, Nat.le_refl 1⟩

/-- Operands that bind as tightly as the operator asks for stand without parentheses. -/
theorem binary {op : BinaryOp} {left right : Expr} (hleft : left.SpelledWithin depth)
    (hloose : op.precedence ≤ left.precedence) (hright : right.SpelledWithin depth)
    (htight : op.precedence + 1 ≤ right.precedence) :
    (Expr.binary op left right).SpelledWithin depth := by
  refine ⟨⟨?_, ?_⟩, Nat.max_le.2 ⟨?_, ?_⟩⟩
  · rw [isReadable, hleft.spelled.readable, hright.spelled.readable]
    rfl
  · rw [strayMinuses, hleft.spelled.strayMinuses, hright.spelled.strayMinuses]
  · rw [parenDepth_of_le hloose]
    exact hleft.nesting_le
  · rw [parenDepth_of_le htight]
    exact hright.nesting_le

/-- A sum that leans to the left needs no parentheses when none of its parts does. -/
theorem concat (h : ∀ part ∈ parts, part.SpelledWithin depth ∧ 6 ≤ part.precedence) :
    (Expr.concat parts).SpelledWithin depth := by
  cases parts with
  | nil => exact text ""
  | cons first rest =>
    obtain ⟨⟨hfirst, htight⟩, hrest⟩ := List.forall_mem_cons.1 h
    suffices ∀ sum : Expr, sum.SpelledWithin depth → 5 ≤ sum.precedence →
        (rest.foldl (.binary .add) sum).SpelledWithin depth from
      this first hfirst (Nat.le_of_succ_le htight)
    clear hfirst htight h
    induction rest with
    | nil => exact fun sum hsum _ => hsum
    | cons part rest ih =>
      intro sum hsum hleft
      obtain ⟨⟨hpart, htight⟩, hrest⟩ := List.forall_mem_cons.1 hrest
      exact ih hrest _ (hsum.binary hleft hpart htight) (Nat.le_refl 5)

end SpelledWithin

end Expr

/-! ## Declarations -/

/-- An annotation that is read back where it stands. -/
def AnnotationUse.ReadsBack (use : AnnotationUse) : Prop :=
  ∀ e ∈ use.exprs, e.SpelledWithin nestingLimit

/-- A parameter that is read back where it stands. -/
structure Parameter.ReadsBack (param : Parameter) : Prop where
  type : param.type.IsVariable
  annotations : ∀ use ∈ param.annotations, use.ReadsBack

/-- A statement that is read back where it stands. -/
structure Stmt.ReadsBack (stmt : Stmt) : Prop where
  writable : stmt.IsWritable
  exprs : ∀ e ∈ stmt.exprs, e.SpelledWithin nestingLimit

/-- A member that is read back in the declaration of the type `owner`. -/
structure Member.ReadsBack (owner : Name) (member : Member) : Prop where
  writable : member.IsWritable owner
  exprs : ∀ e ∈ member.exprs, e.SpelledWithin nestingLimit

/-- A declaration of a type that is read back in its file. -/
structure TypeDecl.ReadsBack (decl : TypeDecl) : Prop where
  writable : decl.IsWritable
  keepsSemicolon : ¬ decl.LosesSemicolon
  exprs : ∀ e ∈ decl.exprs, e.SpelledWithin nestingLimit

theorem AnnotationUse.readsBack_plain (name : QualifiedName) :
    (AnnotationUse.plain name).ReadsBack := nofun

/-- An annotation with a text is read back, whatever the text is. -/
theorem AnnotationUse.readsBack_text (name : QualifiedName) (value : String) :
    (AnnotationUse.mk name (some (.text value))).ReadsBack := by
  intro e he
  obtain rfl := List.mem_singleton.1 he
  exact .text value

/-- A parameter is read back when its type is that of a variable. -/
theorem Parameter.readsBack_plain {type : Ty} (h : type.IsVariable) (name : Name) :
    (Parameter.plain type name).ReadsBack := ⟨h, nofun⟩

theorem Parameter.ReadsBack.exprs {param : Parameter} (h : param.ReadsBack) :
    ∀ e ∈ param.exprs, e.SpelledWithin nestingLimit := by
  intro e he
  obtain ⟨use, huse, he⟩ := List.mem_flatMap.1 he
  exact h.annotations use huse e he

/-- A statement that answers a value is read back when the value is spelled within the limit. -/
theorem Stmt.readsBack_returns {value : Expr} (h : value.SpelledWithin nestingLimit) :
    (Stmt.returns (some value)).ReadsBack := by
  refine ⟨trivial, fun e he => ?_⟩
  obtain rfl := List.mem_singleton.1 he
  exact h

/-- So is one that only evaluates it. -/
theorem Stmt.readsBack_eval {value : Expr} (h : value.SpelledWithin nestingLimit) :
    (Stmt.eval value).ReadsBack := by
  refine ⟨trivial, fun e he => ?_⟩
  obtain rfl := List.mem_singleton.1 he
  exact h

namespace Member

variable {owner : Name}

/-- A field is read back when its type, its annotations and its value are. -/
theorem readsBack_field {decl : FieldDecl} (htype : decl.type.IsVariable)
    (hannotations : ∀ use ∈ decl.annotations, use.ReadsBack)
    (hinit : ∀ e ∈ decl.init.toList, e.SpelledWithin nestingLimit) :
    (Member.field decl).ReadsBack owner := by
  refine ⟨htype, fun e he => ?_⟩
  rcases List.mem_append.1 he with he | he
  · obtain ⟨use, huse, he⟩ := List.mem_flatMap.1 he
    exact hannotations use huse e he
  · exact hinit e he

/-- The expressions of parameters and statements are those of the parts. -/
theorem spelledWithin_of_mem {annotations : List AnnotationUse} {params : List Parameter}
    {body : List Stmt} (hannotations : ∀ use ∈ annotations, use.ReadsBack)
    (hparams : ∀ param ∈ params, param.ReadsBack) (hbody : ∀ stmt ∈ body, stmt.ReadsBack) :
    ∀ e ∈ annotations.flatMap AnnotationUse.exprs ++
      (params.flatMap Parameter.exprs ++ body.flatMap Stmt.exprs),
      e.SpelledWithin nestingLimit := by
  intro e he
  rcases List.mem_append.1 he with he | he
  · obtain ⟨use, huse, he⟩ := List.mem_flatMap.1 he
    exact hannotations use huse e he
  · rcases List.mem_append.1 he with he | he
    · obtain ⟨param, hparam, he⟩ := List.mem_flatMap.1 he
      exact (hparams param hparam).exprs e he
    · obtain ⟨stmt, hstmt, he⟩ := List.mem_flatMap.1 he
      exact (hbody stmt hstmt).exprs e he

/-- A constructor is read back when it is called like its type and its parts are read back. -/
theorem readsBack_constructor {decl : ConstructorDecl} (hname : decl.name = owner)
    (hannotations : ∀ use ∈ decl.annotations, use.ReadsBack)
    (hparams : ∀ param ∈ decl.params, param.ReadsBack) (hbody : ∀ stmt ∈ decl.body, stmt.ReadsBack) :
    (Member.constructor decl).ReadsBack owner :=
  ⟨⟨hname, fun param hparam => (hparams param hparam).type,
    fun stmt hstmt => (hbody stmt hstmt).writable⟩, spelledWithin_of_mem hannotations hparams hbody⟩

/-- A method is read back when its parts are. -/
theorem readsBack_method {decl : MethodDecl} (hreturn : decl.returnType.nesting ≤ nestingLimit)
    (hannotations : ∀ use ∈ decl.annotations, use.ReadsBack)
    (hparams : ∀ param ∈ decl.params, param.ReadsBack)
    (hbody : ∀ stmt ∈ decl.body.getD [], stmt.ReadsBack) :
    (Member.method decl).ReadsBack owner :=
  ⟨⟨hreturn, fun param hparam => (hparams param hparam).type,
    fun stmt hstmt => (hbody stmt hstmt).writable⟩, spelledWithin_of_mem hannotations hparams hbody⟩

end Member

namespace TypeDecl

/-- A declaration without annotations is read back when its parts are, unless it is an enum that
has members but no constants. -/
theorem readsBack_of_parts {decl : TypeDecl} (hannotations : decl.annotations = [])
    (hsupers : ∀ type ∈ decl.supers, type.toRef.nesting ≤ nestingLimit)
    (hinterfaces : ∀ type ∈ decl.interfaces, type.toRef.nesting ≤ nestingLimit)
    (henum : decl.kind = .enumType ↔ decl.constants ≠ [])
    (hconstants : ∀ constant ∈ decl.constants, constant.toCall.SpelledWithin nestingLimit)
    (hmembers : ∀ member ∈ decl.members, member.ReadsBack decl.name) : decl.ReadsBack where
  writable :=
    { supers := hsupers
      interfaces := hinterfaces
      constants := fun hkind => by simpa [henum] using hkind
      members := fun member hmember => (hmembers member hmember).writable }
  keepsSemicolon := fun ⟨hkind, hnone, _⟩ => henum.1 hkind hnone
  exprs := by
    intro e he
    rw [TypeDecl.exprs, hannotations, List.flatMap_nil, List.nil_append] at he
    rcases List.mem_append.1 he with he | he
    · obtain ⟨constant, hconstant, rfl⟩ := List.mem_map.1 he
      exact hconstants constant hconstant
    · obtain ⟨member, hmember, he⟩ := List.mem_flatMap.1 he
      exact (hmembers member hmember).exprs e he

/-- A public class or interface is read back when its members are. -/
theorem readsBack_publicType {kind : TypeDeclKind} {name : Name} {members : List Member}
    (hkind : kind ≠ .enumType) (h : ∀ member ∈ members, member.ReadsBack name) :
    (publicType kind name members).ReadsBack :=
  readsBack_of_parts rfl nofun nofun (by simpa [publicType] using hkind) nofun h

end TypeDecl

/-- A file is read back from its canonical text when its imports and its types are. -/
theorem CompilationUnit.parse_canonical_of_readsBack {file : CompilationUnit}
    (himports : ∀ i ∈ file.imports, i.IsWritable) (htypes : ∀ decl ∈ file.types, decl.ReadsBack) :
    Grammar.compilationUnit.parse (canonical file) = .ok file := by
  rw [parse_canonical_iff]
  refine ⟨⟨himports, fun decl hdecl => (htypes decl hdecl).writable⟩,
    fun decl hdecl => (htypes decl hdecl).keepsSemicolon, fun e he => ?_⟩
  obtain ⟨decl, hdecl, he⟩ := List.mem_flatMap.1 he
  have hspelled := (htypes decl hdecl).exprs e he
  exact ⟨hspelled.spelled, hspelled.nesting_le⟩

end Stubwright.Source
