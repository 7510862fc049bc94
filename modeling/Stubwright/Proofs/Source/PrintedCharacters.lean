import Stubwright.Proofs.Naming
import Stubwright.Proofs.Source.Declarations

/-!
# The characters of printed text

Names, numbers and symbols are made of visible characters, and a text literal escapes every control
character, whatever text it stands for. So the only control characters of a printed file are its
line ends.

## Main results

* `not_isControl_of_mem_quote` — a text literal holds no control character
* `CompilationUnit.eq_newline_of_isControl` — the control characters of a printed file
-/

namespace Stubwright.Source

open Text

/-! ## Characters of tokens -/

theorem not_isControl_of_isNamePart {c : Char} (h : isNamePart c) : ¬ isControl c := by
  have hrange : isNameStart c ∨ c.isDigit := by
    simpa [isNamePart, isNameStart, Char.isAlphanum, or_assoc] using h
  have hbounds : 0x20 ≤ c.toNat ∧ c.toNat < 0x7f := by
    rcases hrange with h | h
    · have := isNameStart_iff.1 h
      omega
    · have := Char.isDigit_iff_toNat.1 h
      simp at this
      omega
  simp [isControl]
  omega

theorem not_isControl_hexDigit {n : Nat} (h : n < 16) : ¬ isControl (hexDigit n) := by
  have hdigits : ∀ n : Fin 16, ¬ isControl (hexDigit n) := by decide
  exact hdigits ⟨n, h⟩

theorem not_isControl_of_escapedChar? {letter value : Char} (h : escapedChar? letter = some value) :
    ¬ isControl letter := by
  unfold escapedChar? at h
  split at h <;> first | decide | cases h

/-- What a character is written as inside a text literal holds no control character, not even
where the character is one. -/
theorem not_isControl_of_mem_escapeChar {c d : Char} (h : d ∈ escapeChar c) : ¬ isControl d := by
  have hslash : ¬ isControl '\\' := by decide
  rcases escapeChar_cases c with ⟨letter, hletter, heq⟩ | ⟨hcontrol, heq⟩ | ⟨-, -, -, hcontrol, heq⟩
  · rw [heq] at h
    have hplain := not_isControl_of_escapedChar? hletter
    rcases List.mem_pair.1 h with rfl | rfl
    · exact hslash
    · exact hplain
  · have hlt : c.toNat < 0x100 := by
      simp [isControl] at hcontrol
      omega
    have hhigh := not_isControl_hexDigit (n := c.toNat / 16) (by omega)
    have hlow := not_isControl_hexDigit (n := c.toNat % 16) (by omega)
    have hletter : ¬ isControl 'u' := by decide
    have hzero : ¬ isControl '0' := by decide
    rw [heq] at h
    simp only [List.mem_cons, List.not_mem_nil, or_false] at h
    rcases h with rfl | rfl | rfl | rfl | rfl | rfl <;> assumption
  · rw [heq] at h
    obtain rfl := List.mem_singleton.1 h
    exact hcontrol

/-- A text literal holds no control character, whatever text it stands for. -/
theorem not_isControl_of_mem_quote {value : String} {c : Char} (h : c ∈ (quote value).toList) :
    ¬ isControl c := by
  have hmark : ¬ isControl '"' := by decide
  rw [quote, String.toList_ofList] at h
  simp only [List.cons_append, List.mem_cons, List.mem_append, List.mem_flatMap, List.not_mem_nil,
    or_false] at h
  rcases h with rfl | ⟨d, -, hd⟩ | rfl
  · exact hmark
  · exact not_isControl_of_mem_escapeChar hd
  · exact hmark

example : quote "\x00\x1bé" = "\"\\u0000\\u001bé\"" := by decide

/-! ## Characters of files -/

namespace Piece

/-- The only piece that is written with a control character is the line end. -/
theorem eq_newline_of_isControl {p : Piece} (hp : p.isReadable) {c : Char}
    (hc : c ∈ p.spelling.toList) (hcontrol : isControl c) : c = '\n' := by
  have hnumber : ∀ n : Nat, c ∉ (toString n).toList := fun n hmem => by
    have hdigits : (toString n).toList = Nat.toDigits 10 n := Nat.toList_repr
    have hdigit := Nat.isDigit_of_mem_toDigits (by decide) (by decide) (hdigits ▸ hmem)
    exact not_isControl_of_isNamePart (isNamePart_of_isDigit hdigit) hcontrol
  cases p with
  | newline => simpa [spelling] using hc
  | space | indent =>
    have hspace : isControl ' ' = false := by decide
    simp [spelling] at hc
    simp [hc, hspace] at hcontrol
  | long n =>
    have hsuffix : isControl 'L' = false := by decide
    simp only [spelling, String.toList_append, List.mem_append] at hc
    rcases hc with hc | hc
    · exact absurd hc (hnumber n)
    · simp at hc
      simp [hc, hsuffix] at hcontrol
  | token t =>
    cases t with
    | word text =>
      have hpart := Naming.isNamePart_of_isIdentifier hp c hc
      exact absurd hcontrol (not_isControl_of_isNamePart hpart)
    | integer n => exact absurd hc (hnumber n)
    | quoted value => exact absurd hcontrol (not_isControl_of_mem_quote hc)
    | symbol s =>
      have hplain : s.text.toList.all fun d => !isControl d := by cases s <;> decide
      have := List.all_eq_true.1 hplain c hc
      simp [hcontrol] at this

end Piece

/-- The only control characters of a printed file are its line ends. -/
theorem CompilationUnit.eq_newline_of_isControl (file : CompilationUnit) {c : Char}
    (hc : c ∈ (canonical file).toList) (hcontrol : isControl c) : c = '\n' := by
  rw [canonical, Piece.toList_render] at hc
  obtain ⟨p, hp, hmem⟩ := List.mem_flatMap.1 hc
  exact p.eq_newline_of_isControl (file.spaced_pieces.2 p hp) hmem hcontrol

end Stubwright.Source
