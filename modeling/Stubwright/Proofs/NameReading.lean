import Stubwright.Proofs.Decision
import Stubwright.Proofs.Naming
import Stubwright.Proofs.Source.ReadsBack
import Stubwright.Proofs.Source.ReferenceRoundTrip

/-!
# Names are read as they are written

The text of a name is read as the name, where a simple name or the type of that name is asked for.
The names that are made of wire names are therefore never refused.

## Main results

* `Grammar.parse_name` — the text of a name is read as the name
* `Grammar.parse_qualifiedName`, `Grammar.parse_classType`, `Grammar.parse_type` — and as the
  qualified name, and the class or interface of that name
* `JavaName.ofType_decides`, `JavaName.ofMember_decides`, … — the names for wire names
-/

namespace Stubwright

open Source Source.Parser

/-! ## Texts of names -/

namespace Source

theorem QualifiedName.render_pieces (q : QualifiedName) : Piece.render q.pieces = q.text := by
  have hsegments : ∀ names : List Name, Piece.render
      (Piece.separated [Piece.symbol .dot] (names.map Name.pieces)) =
        String.intercalate "." (names.map Name.text) := by
    intro names
    induction names with
    | nil => rfl
    | cons first rest ih =>
      cases rest with
      | nil => simp [Piece.separated, Name.pieces, Piece.render, Piece.word, Piece.spelling,
          Token.spelling]
      | cons second others =>
        simp only [List.map_cons] at ih ⊢
        rw [String.intercalate_cons_cons, ← ih, String.append_assoc]
        simp [Piece.separated, Piece.render, Name.pieces, Piece.word, Piece.symbol, Piece.spelling,
          Token.spelling, Symbol.text]
  exact hsegments q.segments

@[simp] theorem QualifiedName.text_simple (n : Name) : (QualifiedName.simple n).text = n.text := by
  simp [text]

namespace Grammar

/-- The text of a simple name is read as the name. -/
theorem parse_name (n : Name) : name.parse n.text = .ok n := by
  have htext : n.text = Piece.render n.pieces := by
    simp [Name.pieces, Piece.render, Piece.word, Piece.spelling, Token.spelling]
  rw [htext]
  exact (parseText_render_eq_ok n.spaced_pieces).2 (name_eq_ok.2 rfl)

/-- The text of a qualified name is read as the name. -/
theorem parse_qualifiedName (q : QualifiedName) : qualifiedName.parse q.text = .ok q := by
  rw [← q.render_pieces]
  exact q.parse_canonical_eq

/-- A class or interface without type arguments is printed as its name. -/
theorem canonical_plain (q : QualifiedName) : canonical (ClassType.plain q) = q.text := by
  rw [← q.render_pieces]
  simp [canonical, Printable.pieces, ClassType.pieces, ClassType.toRef, ClassType.plain,
    RefType.pieces]

theorem canonical_ofClass (type : ClassType) : canonical (Ty.ofClass type) = canonical type := rfl

/-- A name that is not followed by type arguments is the class or interface of that name. -/
theorem parse_classType (q : QualifiedName) : classType.parse q.text = .ok (.plain q) := by
  rw [← canonical_plain]
  exact (ClassType.parse_canonical_reaches _).1 (Nat.zero_le _)

/-- Read as a type, a name is the class or interface of that name. -/
theorem parse_type (q : QualifiedName) : type.parse q.text = .ok (.ofClass (.plain q)) := by
  rw [← canonical_plain, ← canonical_ofClass]
  exact Ty.parse_canonical_of_isVariable (Ty.isVariable_plain q)

variable {σ : Type} {state : σ}

/-- A text that is the text of a name is never refused as a name. -/
theorem readName_decides (n : Name) : (name.read n.text).Decides state True n state :=
  read_decides (parse_name n)

/-- Nor is it refused as a type. -/
theorem readType_decides (q : QualifiedName) :
    (type.read q.text).Decides state True (.ofClass (.plain q)) state :=
  read_decides (parse_type q)

/-- A name alone is also the name of a class or interface, and a qualified name. -/
theorem readSimpleType_decides (n : Name) :
    (type.read n.text).Decides state True (.ofClass (.plain (.simple n))) state := by
  rw [← QualifiedName.text_simple]
  exact readType_decides _

theorem readSimpleName_decides (n : Name) :
    (qualifiedName.read n.text).Decides state True (.simple n) state := by
  rw [← QualifiedName.text_simple]
  exact read_decides (parse_qualifiedName _)

end Grammar

end Source

/-! ## Names for wire names -/

namespace JavaName

variable {σ : Type} {state : σ}

/-- Every name on the wire has a name for its type. -/
theorem ofType_decides (wire : String) : (ofType wire).Decides state True (typeOf wire) state := by
  rw [ofType, ← text_typeOf]
  exact Grammar.readName_decides (typeOf wire)

/-- Every name on the wire has a name for its member. -/
theorem ofMember_decides (wire : String) (fallback : Name) :
    (ofMember wire fallback.text).Decides state True (memberOf wire fallback) state := by
  rw [ofMember, ← text_memberOf]
  exact Grammar.readName_decides (memberOf wire fallback)

/-- Every member has a name for its getter. -/
theorem ofGetter_decides (member : Name) :
    (ofGetter member).Decides state True (getterOf member) state := by
  rw [ofGetter, ← text_getterOf]
  exact Grammar.readName_decides (getterOf member)

end JavaName

end Stubwright
