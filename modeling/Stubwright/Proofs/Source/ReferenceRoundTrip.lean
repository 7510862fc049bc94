import Stubwright.Proofs.Source.DeclReading
import Stubwright.Proofs.Source.Fragment

/-!
# Reading names, class types and imports back

A qualified name is read back from its canonical text without exception, a class type unless its
arguments nest too deep, and an import unless it is a static import of a single name, which names no
member of a type. None of the exceptions is ever read from a text, so whatever was read is read
back.

## Main results

* `QualifiedName.parse_canonical_eq`, `ClassType.parse_canonical_iff`,
  `Import.parse_canonical_iff` — which values are read back from their texts
* `parse_canonical_reference_of_parse` — what was itself read from a text, as a name, as a class
  type, or as an import in one of three forms
-/

namespace Stubwright.Source

open Source.Parser

/-! ## Qualified names -/

/-- Every qualified name is read back from its canonical text. -/
theorem QualifiedName.parse_canonical_eq (name : QualifiedName) :
    Grammar.qualifiedName.parse (canonical name) = .ok name := by
  have hread : qualifiedName (name.tokens ++ []) = _ :=
    qualifiedName_tokens name (endsName_of_head (by simp))
  rw [List.append_nil] at hread
  exact (parseText_render_eq_ok name.spaced_pieces).2 hread

/-! ## Class types -/

namespace ClassType

/-- The canonical text of a class type is read back, or it nests too deep. -/
theorem parse_canonical_reaches (type : ClassType) :
    (type.toRef.nesting ≤ nestingLimit → Grammar.classType.parse (canonical type) = .ok type) ∧
      (¬ type.toRef.nesting ≤ nestingLimit →
        ∃ pos, Grammar.classType.parse (canonical type) = .error ⟨.tooDeep, pos⟩) := by
  have hread : Reaches _ (outerClassType (type.tokens ++ [])) (.ok (type, [])) :=
    classType_reaches readsTypes_firstInner type (endsName_of_head (by simp)) (by simp)
  rw [List.append_nil] at hread
  exact parseText_render_reaches type.spaced_pieces hread

theorem parse_canonical_iff (type : ClassType) :
    Grammar.classType.parse (canonical type) = .ok type ↔ type.toRef.nesting ≤ nestingLimit :=
  ⟨Grammar.fits_of_parse type.parse_canonical_reaches.2, type.parse_canonical_reaches.1⟩

/-- A class type that was read from a text stays within the limit of nesting. -/
theorem nesting_le_of_parse {text : String} {type : ClassType}
    (h : Grammar.classType.parse text = .ok type) : type.toRef.nesting ≤ nestingLimit := by
  obtain ⟨ts, hts⟩ := parseText_eq_ok h
  obtain ⟨us, -, -, hnesting⟩ := outerClassType_takes _ _ _ hts
  exact hnesting

end ClassType

/-! ## Imports -/

namespace Import

theorem parse_canonical_of_isWritable {i : Import} (h : i.IsWritable) :
    Grammar.importDecl.parse (canonical i) = .ok i := by
  have hread := importDecl_tokens h []
  rw [List.append_nil, ← i.tokens_pieces] at hread
  exact (parseText_render_eq_ok i.spaced_pieces).2 hread

/-- A static import of a single name is refused where the name begins. -/
theorem importDecl_static_simple (name : Name) :
    importDecl (tokens ⟨.simple name, true, false⟩) = .error ⟨.staticImportOfType, 2⟩ := by
  have htarget : importTarget true [name.token, .symbol .semicolon] =
      .error ⟨.staticImportOfType, 2⟩ := by
    have hname : qualifiedName ((QualifiedName.simple name).tokens ++ [.symbol .semicolon]) = _ :=
      qualifiedName_tokens _ (endsName_of_head (by simp))
    rw [QualifiedName.tokens_simple, List.singleton_append] at hname
    simp only [importTarget, bind_apply, remaining, hname]
    rfl
  simp only [tokens, targetTokens, QualifiedName.tokens_simple, importDecl, bind_apply, word?,
    take?, if_true, Bool.false_eq_true, if_false, List.append_nil, List.singleton_append, htarget]

/-- The canonical text of a static import that names no member is refused for that reason. -/
theorem parse_canonical_of_not_isWritable {i : Import} (h : ¬ i.IsWritable) :
    ∃ pos, Grammar.importDecl.parse (canonical i) = .error ⟨.staticImportOfType, pos⟩ := by
  obtain ⟨name, isStatic, isAsterisk⟩ := i
  simp only [IsWritable, Classical.not_imp, not_or, Bool.not_eq_true, Bool.not_eq_false] at h
  obtain ⟨rfl, rfl, hsimple⟩ := h
  obtain ⟨qualifier, last⟩ := name
  obtain rfl : qualifier = [] := List.isEmpty_iff.1 hsimple
  have hrefused := importDecl_static_simple last
  rw [← tokens_pieces] at hrefused
  exact parseText_render_eq_error (spaced_pieces _) hrefused

theorem parse_canonical_iff (i : Import) :
    Grammar.importDecl.parse (canonical i) = .ok i ↔ i.IsWritable :=
  ⟨Grammar.fits_of_parse parse_canonical_of_not_isWritable, parse_canonical_of_isWritable⟩

/-- An import that was read from a text names a member if it is static, whichever form it had. -/
theorem isWritable_of_parse {grammar : Grammar Import}
    (hgrammar : grammar ∈ [Grammar.importDecl, Grammar.rawImport, Grammar.rawStaticImport])
    {text : String} {i : Import} (h : grammar.parse text = .ok i) : i.IsWritable := by
  obtain ⟨ts, hts⟩ := parseText_eq_ok h
  simp only [List.mem_cons, List.not_mem_nil, or_false] at hgrammar
  rcases hgrammar with rfl | rfl | rfl
  · obtain ⟨us, -, -, hwritable⟩ := importDecl_takes _ _ _ hts
    exact hwritable
  · obtain ⟨us, -, -, -, hwritable⟩ := importTarget_takes false _ _ _ hts
    exact hwritable
  · obtain ⟨us, -, -, -, hwritable⟩ := importTarget_takes true _ _ _ hts
    exact hwritable

end Import

/-! ## What was read from a text -/

/-- What a text is read as, as a qualified name or as a class type, is read back in the same way
from its canonical text. What it is read as by one of the three readers of imports is read back as
an import declaration; it names a member of a type if it is static, and a declaration that does not
is refused for that reason. -/
theorem parse_canonical_reference_of_parse (text : String) :
    (∀ name, Grammar.qualifiedName.parse text = .ok name →
      Grammar.qualifiedName.parse (canonical name) = .ok name) ∧
    (∀ type, Grammar.classType.parse text = .ok type →
      Grammar.classType.parse (canonical type) = .ok type) ∧
    (∀ grammar ∈ [Grammar.importDecl, Grammar.rawImport, Grammar.rawStaticImport],
      ∀ i, grammar.parse text = .ok i →
        Grammar.importDecl.parse (canonical i) = .ok i ∧
          (i.isStatic → i.isAsterisk ∨ i.name.isSimple = false)) ∧
    ∀ i : Import, i.isStatic → ¬ i.isAsterisk → i.name.isSimple →
      ∃ error, Grammar.importDecl.parse (canonical i) = .error error ∧
        error.message = "static import must name a member of a type" := by
  refine ⟨fun name _ => name.parse_canonical_eq, fun type h => ?_, fun grammar hgrammar i h => ?_,
    fun i hstatic hasterisk hsimple => ?_⟩
  · exact type.parse_canonical_iff.2 (ClassType.nesting_le_of_parse h)
  · have hwritable := Import.isWritable_of_parse hgrammar h
    exact ⟨i.parse_canonical_iff.2 hwritable, hwritable⟩
  -- A static import of a single name is printed, but cannot be read.
  · have hrefused : ¬ i.IsWritable := by
      intro hwritable
      rcases hwritable hstatic with h | h
      · exact hasterisk h
      · simp [hsimple] at h
    obtain ⟨pos, herror⟩ := Import.parse_canonical_of_not_isWritable hrefused
    exact ⟨_, herror, rfl⟩

/-- Comments and blanks in the text, nested arguments, and a static import of all members. -/
theorem parse_canonical_reference_of_parse_comment :
    (∃ name, Grammar.qualifiedName.parse "java . /* all */ util" = .ok name ∧
      Grammar.qualifiedName.parse (canonical name) = .ok name) ∧
    (∃ type, Grammar.classType.parse "a.Map<?,List<? super int[]>>" = .ok type ∧
      Grammar.classType.parse (canonical type) = .ok type) ∧
    (∃ i, Grammar.rawStaticImport.parse "Math . *" = .ok i ∧ i.name.isSimple ∧
      Grammar.importDecl.parse (canonical i) = .ok i ∧
        (i.isStatic → i.isAsterisk ∨ i.name.isSimple = false)) ∧
    ∃ i : Import, canonical i = "import static Math;" ∧
      ∃ error, Grammar.importDecl.parse (canonical i) = .error error ∧
        error.message = "static import must name a member of a type" := by
  have hname : Grammar.qualifiedName.parse "java . /* all */ util" = .ok LibraryName.javaUtil := by
    decide +kernel
  obtain ⟨type, htype⟩ : ∃ type,
      Grammar.classType.parse "a.Map<?,List<? super int[]>>" = .ok type :=
    Grammar.exists_of_isOk (by decide +kernel)
  have himport : Grammar.rawStaticImport.parse "Math . *" =
      .ok ⟨.simple ⟨"Math", by decide⟩, true, true⟩ := by decide +kernel
  refine ⟨⟨_, hname, (parse_canonical_reference_of_parse _).1 _ hname⟩,
    ⟨_, htype, (parse_canonical_reference_of_parse _).2.1 _ htype⟩,
    ⟨_, himport, rfl, (parse_canonical_reference_of_parse _).2.2.1 _ (by simp) _ himport⟩,
    ⟨⟨.simple ⟨"Math", by decide⟩, true, false⟩, by decide +kernel, ?_⟩⟩
  exact (parse_canonical_reference_of_parse "").2.2.2 _ rfl (by simp) rfl

end Stubwright.Source
