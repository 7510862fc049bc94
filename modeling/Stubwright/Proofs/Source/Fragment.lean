import Stubwright.Proofs.Source.Parsing
import Stubwright.Proofs.Source.Lexing
import Stubwright.Source.Fragment

/-!
# Fragments and their tokens

A whole text is read as a fragment by its tokens alone: positions only say where it was refused.

## Main results

* `Grammar.fits_of_parse` — what a text is refused without holds of a text that is read
* `parseText_eq_ok_iff` — a text is read as its tokens are
* `parseText_render_eq_ok`, `parseText_render_eq_error` — a printed text is read as its tokens are
* `parseText_render_reaches` — a printed text is read, or refused because of nesting
-/

namespace Stubwright.Source

/-- A text that is accepted is read as something. -/
theorem Grammar.exists_of_isOk {α : Type} {grammar : Grammar α} {text : String}
    (h : (grammar.parse text).isOk) : ∃ a, grammar.parse text = .ok a := by
  cases hparse : grammar.parse text with
  | error error => simp [hparse, Except.isOk, Except.toBool] at h
  | ok a => exact ⟨a, rfl⟩

/-- What a text is refused without holds of a text that is read. -/
theorem Grammar.fits_of_parse {α : Type} {grammar : Grammar α} {text : String} {a : α}
    {fits : Prop} {fault : SyntaxFault}
    (hrefused : ¬ fits → ∃ pos, grammar.parse text = .error ⟨fault, pos⟩)
    (h : grammar.parse text = .ok a) : fits := by
  by_contra hnot
  obtain ⟨pos, herror⟩ := hrefused hnot
  rw [herror] at h
  cases h

namespace Parser

variable {α : Type} {parser : Parser α}

theorem complete_eq_ok {ts : List Token} {a : α} :
    parser.complete ts = .ok a ↔ parser ts = .ok (a, []) := by
  unfold complete
  cases h : parser ts with
  | error failure => simp
  | ok result =>
    obtain ⟨value, rest⟩ := result
    cases rest with
    | nil => simp
    | cons t rest => simp

/-- Every text that is read has tokens. -/
theorem exists_tokenize_of_parseText {text : String} {a : α} (h : parser.parseText text = .ok a) :
    ∃ placed, tokenize text = .ok placed := by
  unfold parseText at h
  cases htokens : tokenize text with
  | error error => simp [htokens] at h
  | ok placed => exact ⟨placed, rfl⟩

/-- A text is read exactly when its tokens are read in full. -/
theorem parseText_eq_ok_iff {text : String} {placed : List PlacedToken}
    (htokens : tokenize text = .ok placed) {a : α} :
    parser.parseText text = .ok a ↔ parser (placed.map PlacedToken.token) = .ok (a, []) := by
  rw [← complete_eq_ok]
  unfold parseText
  simp only [htokens]
  cases parser.complete (placed.map PlacedToken.token) with
  | error failure => simp
  | ok value => simp

/-- Every text that is read has tokens that are read in full. -/
theorem parseText_eq_ok {text : String} {a : α} (h : parser.parseText text = .ok a) :
    ∃ ts, parser ts = .ok (a, []) := by
  obtain ⟨placed, hplaced⟩ := exists_tokenize_of_parseText h
  exact ⟨_, (parseText_eq_ok_iff hplaced).1 h⟩

/-- A printed text is read exactly when the tokens of its pieces are. -/
theorem parseText_render_eq_ok {pieces : List Piece} (hspaced : Spaced pieces) {a : α} :
    parser.parseText (Piece.render pieces) = .ok a ↔ parser (Piece.tokens pieces) = .ok (a, []) := by
  obtain ⟨placed, hplaced, htokens⟩ := tokenize_render hspaced
  rw [parseText_eq_ok_iff hplaced, htokens]

/-- A printed text is refused for the fault that its tokens have. -/
theorem parseText_render_eq_error {pieces : List Piece} (hspaced : Spaced pieces)
    {failure : ParseFailure} (h : parser (Piece.tokens pieces) = .error failure) :
    ∃ pos, parser.parseText (Piece.render pieces) = .error ⟨failure.fault, pos⟩ := by
  obtain ⟨placed, hplaced, htokens⟩ := tokenize_render hspaced
  have hcomplete : parser.complete (Piece.tokens pieces) = .error failure := by
    simp only [complete, h]
  unfold parseText
  simp only [hplaced, htokens, hcomplete]
  exact ⟨_, rfl⟩

/-- A printed text whose tokens are read as long as they do not nest too deep is read, or refused
for that reason. -/
theorem parseText_render_reaches {pieces : List Piece} (hspaced : Spaced pieces) {fits : Prop}
    {a : α}
    (h : Reaches fits (parser (Piece.tokens pieces)) (.ok (a, []))) :
    (fits → parser.parseText (Piece.render pieces) = .ok a) ∧
      (¬ fits → ∃ pos, parser.parseText (Piece.render pieces) = .error ⟨.tooDeep, pos⟩) := by
  refine ⟨fun hfits => (parseText_render_eq_ok hspaced).2 (h.1 hfits), fun hnot => ?_⟩
  obtain ⟨left, hleft⟩ := h.2 hnot
  exact parseText_render_eq_error hspaced hleft

end Parser

end Stubwright.Source
