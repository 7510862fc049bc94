import Stubwright.Proofs.Source.CanonicalExpr
import Stubwright.Proofs.Source.Fragment

/-!
# Reading expressions back

The canonical text of an expression is read back as the expression exactly when the expression can
be spelled, no minus sign strays in its text, and the text does not nest too deep. Expressions
without negation that are put together from the builders fail by nesting only.

## Main definitions

* `Expr.IsBuilt` — expressions put together from the builders

## Main results

* `Expr.parse_canonical_iff` — which expressions are read back from their text
* `parse_canonical_of_parse` — the same for what was itself read from a text
* `Expr.IsBuilt.parse_canonical` — built expressions are read back unless they nest too deep
-/

namespace Stubwright.Source

open Source.Parser

namespace Expr

/-- Without stray minus signs, the canonical text is read back or nests too deep. -/
theorem parse_canonical_reaches {e : Expr} (hreadable : e.isReadable)
    (hstray : e.strayMinuses = 0) :
    (e.nesting ≤ nestingLimit → Grammar.expression.parse (canonical e) = .ok e) ∧
      (¬ e.nesting ≤ nestingLimit →
        ∃ pos, Grammar.expression.parse (canonical e) = .error ⟨.tooDeep, pos⟩) := by
  have hspells := (e.spells_tokens hreadable hstray).loosen_to le_rfl e.one_le_precedence
  have hend : GripsBelow 1 [] := by simp [GripsBelow]
  have hreaches := expr_reaches hspells hend
  rw [List.append_nil] at hreaches
  exact parseText_render_reaches e.spaced_pieces hreaches

/-- An expression that is read from its own tokens is printed without stray minus signs. -/
theorem strayMinuses_of_spells {level depth : Nat} {e : Expr} (h : Spells level depth e.tokens e) :
    e.strayMinuses = 0 := by
  have hweight := h.weight_le
  omega

/-- An expression is read back from its canonical text exactly when it can be spelled, no minus
sign strays in the text, and the text stays within the limit of nesting. -/
theorem parse_canonical_iff (e : Expr) :
    Grammar.expression.parse (canonical e) = .ok e ↔
      e.isReadable ∧ e.strayMinuses = 0 ∧ e.nesting ≤ nestingLimit := by
  constructor
  · intro hparse
    have hexpr : expr e.tokens = .ok (e, []) :=
      (parseText_render_eq_ok e.spaced_pieces).1 hparse
    obtain ⟨us, hus, depth, -, hspells⟩ := expr_takes _ _ _ hexpr
    rw [List.append_nil] at hus
    subst hus
    have hreadable := hspells.isReadable
    have hstray := strayMinuses_of_spells hspells
    exact ⟨hreadable, hstray,
      Grammar.fits_of_parse (parse_canonical_reaches hreadable hstray).2 hparse⟩
  · rintro ⟨hreadable, hstray, hnesting⟩
    exact (parse_canonical_reaches hreadable hstray).1 hnesting

end Expr

/-- What was read from a text can be spelled. -/
theorem isReadable_of_parse {text : String} {e : Expr}
    (h : Grammar.expression.parse text = .ok e) : e.isReadable := by
  obtain ⟨ts, hts⟩ := parseText_eq_ok h
  obtain ⟨us, -, depth, -, hspells⟩ := expr_takes _ _ _ hts
  exact hspells.isReadable

/-- An expression that was read from a text is read back from its canonical text exactly when no
minus sign strays in that text and it stays within the limit of nesting. -/
theorem parse_canonical_of_parse {text : String} {e : Expr}
    (h : Grammar.expression.parse text = .ok e) :
    Grammar.expression.parse (canonical e) = .ok e ↔
      e.strayMinuses = 0 ∧ e.nesting ≤ nestingLimit := by
  rw [e.parse_canonical_iff, and_iff_right (isReadable_of_parse h)]

theorem parse_canonical_of_parse_difference :
    ∃ e, Grammar.expression.parse "x - -(1)" = .ok e ∧
      (Grammar.expression.parse (canonical e) = .ok e ↔
        e.strayMinuses = 0 ∧ e.nesting ≤ nestingLimit) := by
  have h : Grammar.expression.parse "x - -(1)" =
      .ok (.binary .sub (.name ⟨"x", by decide⟩) (.unary .neg (.integer 1))) := by decide +kernel
  exact ⟨_, h, parse_canonical_of_parse h⟩

/-- The sign in front of a chain that starts at an integer strays. -/
theorem not_parse_canonical_field_of_integer :
    ∃ e, Grammar.expression.parse "-(5.x)" = .ok e ∧ canonical e = "-5.x" ∧
      Grammar.expression.parse (canonical e) ≠ .ok e :=
  ⟨.unary .neg (.field (.integer 5) ⟨"x", by decide⟩), by decide +kernel, by decide +kernel,
    by decide +kernel⟩

/-! ## Built expressions -/

/-- An expression put together from the builders: literals, names, fields, calls, new objects,
logical negation, the binary operators, and assignments to names and fields. -/
inductive Expr.IsBuilt : Expr → Prop
  | literal (value : Literal) : IsBuilt (.literal value)
  | name (n : Name) : IsBuilt (.name n)
  | self : IsBuilt .self
  | field {target : Expr} (htarget : IsBuilt target) (n : Name) : IsBuilt (.field target n)
  | call (n : Name) {args : List Expr} (hargs : ∀ arg ∈ args, IsBuilt arg) : IsBuilt (.call n args)
  | callOn {target : Expr} (htarget : IsBuilt target) (n : Name) {args : List Expr}
    (hargs : ∀ arg ∈ args, IsBuilt arg) : IsBuilt (.callOn target n args)
  | create (type : ClassType) {args : List Expr} (hargs : ∀ arg ∈ args, IsBuilt arg) :
    IsBuilt (.create type args)
  | not {operand : Expr} (h : IsBuilt operand) : IsBuilt (.unary .not operand)
  | binary (op : BinaryOp) {left right : Expr} (hleft : IsBuilt left) (hright : IsBuilt right) :
    IsBuilt (.binary op left right)
  | assign {target value : Expr} (htarget : IsBuilt target) (hassignable : target.isAssignable)
    (hvalue : IsBuilt value) : IsBuilt (.assign target value)

namespace Expr.IsBuilt

/-- Built expressions can be spelled, and without negation no minus sign strays. -/
theorem isReadable_and_strayMinuses {e : Expr} (h : e.IsBuilt) :
    e.isReadable ∧ e.strayMinuses = 0 := by
  induction h with
  | literal | name | self => exact ⟨rfl, rfl⟩
  | field _ _ ih | not _ ih => simpa [isReadable, strayMinuses] using ih
  | call _ _ ih | create _ _ ih =>
    rw [isReadable, strayMinuses, areReadable_iff, strayMinusesIn_eq_zero]
    exact ⟨fun arg harg => (ih arg harg).1, fun arg harg => (ih arg harg).2⟩
  | callOn _ _ _ iht ih =>
    rw [isReadable, strayMinuses, Bool.and_eq_true, areReadable_iff, Nat.add_eq_zero_iff,
      strayMinusesIn_eq_zero]
    exact ⟨⟨iht.1, fun arg harg => (ih arg harg).1⟩, iht.2, fun arg harg => (ih arg harg).2⟩
  | binary _ _ _ ihl ihr => simp [isReadable, strayMinuses, ihl, ihr]
  | assign _ hassignable _ iht ihv => simp [isReadable, strayMinuses, hassignable, iht, ihv]

/-- The canonical text of a built expression is read back as the expression, or it nests too deep
and is refused for that reason alone. -/
theorem parse_canonical {e : Expr} (h : e.IsBuilt) :
    (e.nesting ≤ nestingLimit ∧ Grammar.expression.parse (canonical e) = .ok e) ∨
      (nestingLimit < e.nesting ∧ ∃ error, Grammar.expression.parse (canonical e) = .error error ∧
        error.fault = .tooDeep ∧ error.message = "nesting too deep") := by
  obtain ⟨hreadable, hstray⟩ := h.isReadable_and_strayMinuses
  obtain ⟨hfits, hdeep⟩ := parse_canonical_reaches hreadable hstray
  by_cases hnesting : e.nesting ≤ nestingLimit
  · exact .inl ⟨hnesting, hfits hnesting⟩
  · obtain ⟨pos, herror⟩ := hdeep hnesting
    exact .inr ⟨Nat.not_le.1 hnesting, _, herror, rfl, rfl⟩

/-- A call on a negative literal keeps its parentheses. -/
theorem parse_canonical_callOn_negative :
    ∃ e : Expr, e.IsBuilt ∧ canonical e = "(-1).f(!(a == b))" ∧
      ((e.nesting ≤ nestingLimit ∧ Grammar.expression.parse (canonical e) = .ok e) ∨
        (nestingLimit < e.nesting ∧ ∃ error,
          Grammar.expression.parse (canonical e) = .error error ∧ error.fault = .tooDeep ∧
            error.message = "nesting too deep")) := by
  have hequal : IsBuilt (.binary .equal (.name ⟨"a", by decide⟩) (.name ⟨"b", by decide⟩)) :=
    .binary .equal (.name _) (.name _)
  have hcall : IsBuilt (.callOn (.integer (-1)) ⟨"f", by decide⟩ [.unary .not
      (.binary .equal (.name ⟨"a", by decide⟩) (.name ⟨"b", by decide⟩))]) :=
    .callOn (.literal _) _ (by simpa using hequal.not)
  exact ⟨_, hcall, by decide +kernel, parse_canonical hcall⟩

end Expr.IsBuilt

end Stubwright.Source
