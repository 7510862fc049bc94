import Stubwright.Proofs.Source.DeclReading
import Stubwright.Proofs.Source.ExprRoundTrip

/-!
# Reading files back

The canonical text of a file is read back as the file exactly when the file can be written, every
expression in it is read back, and no enum lacks the semicolon between its constants, of which it
has none, and its members.

## Main results

* `CompilationUnit.parse_canonical_iff` — which files are read back from their text
* `CompilationUnit.parse_canonical_unit_of_parse` — the same for what was itself read from a text
-/

namespace Stubwright.Source

open Source.Parser

namespace CompilationUnit

/-- A file that can be written is read back from its canonical text or nests too deep, when its
expressions are printed as spellings and its enums with their semicolons. -/
theorem parse_canonical_reaches {file : CompilationUnit} (hwritable : file.IsWritable)
    (hsemicolon : ∀ decl ∈ file.types, ¬ decl.LosesSemicolon) (h : ∀ e ∈ file.exprs, e.IsSpelled) :
    (Expr.AllFit file.exprs → Grammar.compilationUnit.parse (canonical file) = .ok file) ∧
      (¬ Expr.AllFit file.exprs →
        ∃ pos, Grammar.compilationUnit.parse (canonical file) = .error ⟨.tooDeep, pos⟩) := by
  have hreaches := compilationUnit_reaches hwritable hsemicolon h
  rw [← file.tokens_pieces] at hreaches
  exact parseText_render_reaches file.spaced_pieces hreaches

/-- A file that is read from its own tokens is printed without stray minus signs and with all
semicolons. -/
theorem complete_of_weight {file : CompilationUnit}
    (hweight : weight file.tokens + Expr.strayMinusesIn file.exprs +
      (file.types.map TypeDecl.lostSemicolons).sum ≤ weight file.tokens) :
    (∀ decl ∈ file.types, ¬ decl.LosesSemicolon) ∧ ∀ e ∈ file.exprs, e.strayMinuses = 0 := by
  have hsum : (file.types.map TypeDecl.lostSemicolons).sum = 0 := by omega
  constructor
  · intro decl hdecl hloses
    have hzero := List.sum_eq_zero_iff_forall_eq_nat.1 hsum _ (List.mem_map_of_mem hdecl)
    simp [TypeDecl.lostSemicolons, hloses] at hzero
  · exact Expr.strayMinusesIn_eq_zero.1 (by omega)

/-- A file is read back from its canonical text exactly when it can be written, its enums keep their
semicolons, and its expressions are printed as spellings within the limit of nesting. -/
theorem parse_canonical_iff (file : CompilationUnit) :
    Grammar.compilationUnit.parse (canonical file) = .ok file ↔
      file.IsWritable ∧ (∀ decl ∈ file.types, ¬ decl.LosesSemicolon) ∧
        ∀ e ∈ file.exprs, e.IsSpelled ∧ e.nesting ≤ nestingLimit := by
  constructor
  · intro hparse
    have hfile : compilationUnit file.tokens = .ok (file, []) := by
      rw [← file.tokens_pieces]
      exact (parseText_render_eq_ok file.spaced_pieces).1 hparse
    obtain ⟨us, hus, hwritable, hreadable, hweight⟩ := compilationUnit_takes _ _ _ hfile
    rw [List.append_nil] at hus
    subst hus
    obtain ⟨hsemicolon, hstray⟩ := complete_of_weight hweight
    have hspelled : ∀ e ∈ file.exprs, e.IsSpelled := fun e he => ⟨hreadable e he, hstray e he⟩
    have hfits : Expr.AllFit file.exprs :=
      Grammar.fits_of_parse (parse_canonical_reaches hwritable hsemicolon hspelled).2 hparse
    exact ⟨hwritable, hsemicolon, fun e he => ⟨hspelled e he, hfits e he⟩⟩
  · rintro ⟨hwritable, hsemicolon, hexprs⟩
    exact (parse_canonical_reaches hwritable hsemicolon fun e he => (hexprs e he).1).1
      fun e he => (hexprs e he).2

/-- What was read from a text can be written, and its expressions can be spelled. -/
theorem isWritable_of_parse {text : String} {file : CompilationUnit}
    (h : Grammar.compilationUnit.parse text = .ok file) :
    file.IsWritable ∧ ∀ e ∈ file.exprs, e.isReadable := by
  obtain ⟨ts, hts⟩ := parseText_eq_ok h
  obtain ⟨us, -, hwritable, hreadable, -⟩ := compilationUnit_takes _ _ _ hts
  exact ⟨hwritable, hreadable⟩

/-- A file that was read from a text is read back from its canonical text exactly when its enums
keep their semicolons, no minus sign strays, and no expression nests too deep. -/
theorem parse_canonical_unit_of_parse {text : String} {file : CompilationUnit}
    (h : Grammar.compilationUnit.parse text = .ok file) :
    Grammar.compilationUnit.parse (canonical file) = .ok file ↔
      (∀ decl ∈ file.types, ¬ decl.LosesSemicolon) ∧
        ∀ e ∈ file.exprs, e.strayMinuses = 0 ∧ e.nesting ≤ nestingLimit := by
  obtain ⟨hwritable, hreadable⟩ := isWritable_of_parse h
  rw [file.parse_canonical_iff, and_iff_right hwritable]
  refine and_congr_right fun _ => forall₂_congr fun e he => ?_
  constructor
  · rintro ⟨hspelled, hnesting⟩
    exact ⟨hspelled.strayMinuses, hnesting⟩
  · rintro ⟨hstray, hnesting⟩
    exact ⟨⟨hreadable e he, hstray⟩, hnesting⟩

theorem parse_canonical_enum_with_constant :
    ∃ file, Grammar.compilationUnit.parse "enum E \x7b A(1); int x = 2; \x7d" = .ok file ∧
      (Grammar.compilationUnit.parse (canonical file) = .ok file ↔
        (∀ decl ∈ file.types, ¬ decl.LosesSemicolon) ∧
          ∀ e ∈ file.exprs, e.strayMinuses = 0 ∧ e.nesting ≤ nestingLimit) := by
  have h : Grammar.compilationUnit.parse "enum E \x7b A(1); int x = 2; \x7d" =
      .ok ⟨none, [], [⟨[], [], .enumType, ⟨"E", by decide⟩, [], [],
        [⟨⟨"A", by decide⟩, [.integer 1]⟩],
        [.field ⟨[], [], .primitive .int, ⟨"x", by decide⟩, some (.integer 2)⟩]⟩]⟩ := by
    decide +kernel
  exact ⟨_, h, parse_canonical_unit_of_parse h⟩

/-- The members of an enum without constants are printed where its constants are read. -/
theorem not_parse_canonical_enum_without_constants :
    ∃ file, Grammar.compilationUnit.parse "enum E \x7b ; int x; \x7d" = .ok file ∧
      canonical file = "enum E \x7b\n    int x;\n\x7d\n" ∧
        Grammar.compilationUnit.parse (canonical file) ≠ .ok file :=
  ⟨⟨none, [], [⟨[], [], .enumType, ⟨"E", by decide⟩, [], [], [],
    [.field ⟨[], [], .primitive .int, ⟨"x", by decide⟩, none⟩]⟩]⟩, by decide +kernel,
    by decide +kernel, by decide +kernel⟩

end CompilationUnit

end Stubwright.Source
