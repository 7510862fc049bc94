import Stubwright.Proofs.Source.Failures
import Stubwright.Proofs.Source.Positions

/-!
# Where errors are found

Every error of a text that is refused has a place in the text: between two characters, or at an end.
Where the text has tokens, it is the place of a token, and of the one at which the parser failed.

## Main definitions

* `Grammar.EntryPoint` — the grammars by which whole texts are read

## Main results

* `exists_prefix_of_tokensFrom` — an error of the lexer lies behind a part of the text
* `Grammar.EntryPoint.pos_of_error` — the place of an error of an entry point
-/

namespace Stubwright.Source

open Text

/-! ## Errors of the lexer -/

/-- An error of the lexer lies between two characters of the text, or at one of its ends. -/
theorem exists_prefix_of_tokensFrom {cs : List Char} {read : List PlacedToken} {pos : Nat}
    {error : SyntaxError} (h : tokensFrom read pos cs.length cs = .error error) :
    ∃ before, before <+: cs ∧ error.pos = pos + utf8Width before := by
  induction cs using front_induction generalizing read pos with
  | nil => simp [tokensFrom_nil] at h
  | cons c rest hskip htoken =>
    have hbehind : ∀ used tail before : List Char, before <+: tail →
        c :: (used ++ before) <+: c :: (used ++ tail) ∧
          pos + utf8Width (c :: used) + utf8Width before =
            pos + utf8Width (c :: (used ++ before)) := by
      rintro used _ before ⟨after, rfl⟩
      refine ⟨⟨after, by simp⟩, ?_⟩
      rw [← List.cons_append, utf8Width_append, Nat.add_assoc]
    rw [tokensFrom_front] at h
    cases hfront : Front.of c rest with
    | skip width tail =>
      simp only [hfront] at h
      obtain ⟨used, rfl, rfl, -⟩ := skipsGap_of c rest width tail hfront
      obtain ⟨before, hbefore, hpos⟩ := hskip _ _ hfront h
      obtain ⟨hstart, hwidth⟩ := hbehind used tail before hbefore
      exact ⟨_, hstart, hpos.trans hwidth⟩
    | token token width tail =>
      simp only [hfront] at h
      obtain ⟨used, rfl, rfl, -⟩ := endsToken_of c rest token width tail hfront
      obtain ⟨before, hbefore, hpos⟩ := htoken _ _ _ hfront h
      obtain ⟨hstart, hwidth⟩ := hbehind used tail before hbefore
      exact ⟨_, hstart, hpos.trans hwidth⟩
    | fault cause offset =>
      simp only [hfront] at h
      obtain ⟨before, hbefore, rfl⟩ := faultsInside_of c rest cause offset hfront
      obtain rfl := Except.error.inj h
      exact ⟨before, hbefore, rfl⟩

theorem isValid_of_tokenize_error {text : String} {error : SyntaxError}
    (h : tokenize text = .error error) : String.Pos.Raw.IsValid text ⟨error.pos⟩ := by
  obtain ⟨before, hbefore, hpos⟩ := exists_prefix_of_tokensFrom h
  have hvalid := isValid_of_isPrefix hbefore
  rwa [String.ofList_toList, ← Nat.zero_add (utf8Width before), ← hpos] at hvalid

/-! ## Errors of parsers -/

namespace Parser

variable {α : Type} {parser : Parser α}

/-- What is left behind a complete text is refused where it begins. -/
theorem remaining_le_of_complete {ts : List Token} (hparser : Within ts.length parser)
    {failure : ParseFailure} (h : parser.complete ts = .error failure) :
    failure.remaining ≤ ts.length := by
  unfold complete at h
  cases hrun : parser ts with
  | error failure' =>
    rw [hrun] at h
    obtain rfl := Except.error.inj h
    exact hparser.remaining_le le_rfl hrun
  | ok result =>
    obtain ⟨value, _ | ⟨next, rest⟩⟩ := result
    · simp [hrun] at h
    · simp only [hrun] at h
      obtain rfl := Except.error.inj h
      exact hparser.length_le le_rfl hrun

/-- A text with tokens is refused at the token at which the parser failed. -/
theorem exists_of_parseText_error {text : String} {placed : List PlacedToken}
    (hplaced : tokenize text = .ok placed) (hparser : ∀ bound, Within bound parser)
    {error : SyntaxError} (h : parser.parseText text = .error error) :
    ∃ read ≤ placed.length,
      parser.complete (placed.map PlacedToken.token) =
        .error ⟨error.fault, placed.length - read⟩ ∧
      (boundaries text placed)[read]? = some error.pos := by
  unfold parseText at h
  simp only [hplaced] at h
  cases hcomplete : parser.complete (placed.map PlacedToken.token) with
  | ok value => simp [hcomplete] at h
  | error failure =>
    simp only [hcomplete] at h
    obtain rfl := Except.error.inj h
    have hle := remaining_le_of_complete (hparser _) hcomplete
    rw [List.length_map] at hle
    refine ⟨placed.length - failure.remaining, Nat.sub_le _ _, ?_, ?_⟩
    · rw [Nat.sub_sub_self hle]
    · rw [getElem?_boundaries text placed (Nat.sub_le _ _), Nat.sub_sub_self hle]

end Parser

/-! ## Errors of entry points -/

namespace Grammar

variable {α : Type} {grammar : Grammar α}

/-- The grammars by which whole texts are read. -/
inductive EntryPoint : {α : Type} → Grammar α → Prop where
  | compilationUnit : EntryPoint Grammar.compilationUnit
  | name : EntryPoint Grammar.name
  | qualifiedName : EntryPoint Grammar.qualifiedName
  | type : EntryPoint Grammar.type
  | classType : EntryPoint Grammar.classType
  | expression : EntryPoint Grammar.expression
  | parameter : EntryPoint Grammar.parameter
  | importDecl : EntryPoint Grammar.importDecl
  | rawImport : EntryPoint Grammar.rawImport
  | rawStaticImport : EntryPoint Grammar.rawStaticImport

theorem EntryPoint.within (h : grammar.EntryPoint) (bound : Nat) :
    Parser.Within bound grammar.parser := by
  cases h with
  | compilationUnit => exact Parser.within_compilationUnit
  | name => exact Parser.within_name
  | qualifiedName => exact Parser.within_qualifiedName
  | type => exact Parser.within_outerType
  | classType => exact Parser.within_outerClassType
  | expression => exact Parser.within_expr
  | parameter => exact Parser.within_parameter
  | importDecl => exact Parser.within_importDecl
  | rawImport => exact Parser.within_importTarget false
  | rawStaticImport => exact Parser.within_importTarget true

/-- An entry point refuses a text at a place in it that lies inside no character. Where the text
has tokens, this is the place of the token at which the parser failed, or the end of the text where
it failed behind them. -/
theorem EntryPoint.pos_of_error (hgrammar : grammar.EntryPoint) {text : String}
    {error : SyntaxError} (h : grammar.parse text = .error error) :
    error.pos ≤ text.utf8ByteSize ∧ String.Pos.Raw.IsValid text ⟨error.pos⟩ ∧
      ∀ placed, tokenize text = .ok placed → ∃ read ≤ placed.length,
        grammar.parser.complete (placed.map PlacedToken.token) =
          .error ⟨error.fault, placed.length - read⟩ ∧
        (boundaries text placed)[read]? = some error.pos := by
  have htoken : ∀ placed, tokenize text = .ok placed → ∃ read ≤ placed.length,
      grammar.parser.complete (placed.map PlacedToken.token) =
        .error ⟨error.fault, placed.length - read⟩ ∧
      (boundaries text placed)[read]? = some error.pos := fun placed hplaced =>
    Parser.exists_of_parseText_error hplaced hgrammar.within h
  have hvalid : String.Pos.Raw.IsValid text ⟨error.pos⟩ := by
    cases hplaced : tokenize text with
    | error error' =>
      have herror : error' = error := by simpa [parse, Parser.parseText, hplaced] using h
      exact herror ▸ isValid_of_tokenize_error hplaced
    | ok placed =>
      obtain ⟨read, -, -, hpos⟩ := htoken placed hplaced
      exact isValid_of_mem_boundaries hplaced (List.mem_of_getElem? hpos)
  exact ⟨hvalid.le_rawEndPos, hvalid, htoken⟩

/-- A primitive type argument is refused where it stands, behind characters of several bytes. -/
theorem EntryPoint.pos_of_error_of_primitiveArgument :
    Grammar.type.parse "/* é */ List<int>" = .error ⟨.primitiveArgument .int, 14⟩ ∧
      String.Pos.Raw.IsValid "/* é */ List<int>" ⟨14⟩ ∧
      ∃ read ≤ 4, (boundaries "/* é */ List<int>" [⟨.word "List", 9⟩, ⟨.symbol .less, 13⟩,
        ⟨.word "int", 14⟩, ⟨.symbol .greater, 17⟩])[read]? = some 14 := by
  have hparse : Grammar.type.parse "/* é */ List<int>" = .error ⟨.primitiveArgument .int, 14⟩ := by
    decide +kernel
  have hplaced : tokenize "/* é */ List<int>" = .ok [⟨.word "List", 9⟩, ⟨.symbol .less, 13⟩,
      ⟨.word "int", 14⟩, ⟨.symbol .greater, 17⟩] := by
    decide +kernel
  obtain ⟨-, hvalid, htoken⟩ := EntryPoint.type.pos_of_error hparse
  obtain ⟨read, hread, -, hpos⟩ := htoken _ hplaced
  exact ⟨hparse, hvalid, read, hread, hpos⟩

end Grammar

end Stubwright.Source
