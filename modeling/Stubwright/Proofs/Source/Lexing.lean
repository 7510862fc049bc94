import Mathlib.Data.List.Chain
import Stubwright.Source.Lexer
import Stubwright.Source.Piece

/-!
# The tokens of printed text

A printed text is read back token by token as long as no piece runs into the next one: a word may
not stand right before a word or an integer, nor an equals sign before another one. Positions play
no part here, so the lexer is seen through `Lexes`, which forgets them.

## Main definitions

* `Lexes` — a text and its tokens, whatever was read before it
* `Piece.endsAt`, `Spaced` — which pieces may stand next to each other

## Main results

* `lexes_piece` — a piece is read as its token when it ends where the rest begins
* `tokenize_render` — the text of spaced pieces has the tokens of the pieces
-/

namespace Stubwright.Source

open Text

/-! ## Texts and their tokens -/

/-- The lexer reads a text as these tokens, wherever the text begins. -/
def Lexes (cs : List Char) (tokens : List Token) : Prop :=
  ∀ read pos rounds, cs.length ≤ rounds →
    ∃ placed, tokensFrom read pos rounds cs = .ok (read.reverse ++ placed) ∧
      placed.map PlacedToken.token = tokens

section Steps

-- What stands in front is compared by name only: unfolding it compares code points one by one.
attribute [local irreducible] Front.of

/-- At the end of the text, the tokens so far are all of them. -/
theorem tokensFrom_nil (read : List PlacedToken) (pos rounds : Nat) :
    tokensFrom read pos rounds [] = .ok read.reverse := by
  cases rounds with
  | zero => rfl
  | succ _ => rfl

/-- Otherwise the lexer goes on behind the front, in the next round. -/
theorem tokensFrom_cons (read : List PlacedToken) (pos rounds : Nat) (c : Char)
    (rest : List Char) :
    tokensFrom read pos (rounds + 1) (c :: rest) =
      match Front.of c rest with
      | .skip width tail => tokensFrom read (pos + width) rounds tail
      | .token token width tail =>
        tokensFrom (⟨token, pos⟩ :: read) (pos + width) rounds tail
      | .fault cause offset => .error ⟨cause, pos + offset⟩ := rfl

end Steps

/-- A text without characters has no tokens. -/
theorem lexes_nil : Lexes [] [] := by
  intro read pos rounds _
  exact ⟨[], by simp [tokensFrom_nil], rfl⟩

/-- A gap in front adds no token. -/
theorem lexes_of_skip {c : Char} {rest tail : List Char} {width : Nat} {tokens : List Token}
    (hfront : Front.of c rest = .skip width tail) (hlength : tail.length ≤ rest.length)
    (h : Lexes tail tokens) : Lexes (c :: rest) tokens := by
  intro read pos rounds hrounds
  cases rounds with
  | zero => simp at hrounds
  | succ rounds =>
    rw [tokensFrom_cons, hfront]
    exact h read _ rounds (hlength.trans (Nat.le_of_succ_le_succ hrounds))

/-- A token in front is the first of the tokens. -/
theorem lexes_of_token {c : Char} {rest tail : List Char} {width : Nat} {token : Token}
    {tokens : List Token} (hfront : Front.of c rest = .token token width tail)
    (hlength : tail.length ≤ rest.length) (h : Lexes tail tokens) :
    Lexes (c :: rest) (token :: tokens) := by
  intro read pos rounds hrounds
  cases rounds with
  | zero => simp at hrounds
  | succ rounds =>
    obtain ⟨placed, hplaced, rfl⟩ := h (⟨token, pos⟩ :: read) (pos + width) rounds
      (hlength.trans (Nat.le_of_succ_le_succ hrounds))
    refine ⟨⟨token, pos⟩ :: placed, ?_, rfl⟩
    rw [tokensFrom_cons, hfront]
    simpa using hplaced

/-- The tokens of a text do not depend on where they stand. -/
theorem tokenize_of_lexes {text : String} {tokens : List Token} (h : Lexes text.toList tokens) :
    ∃ placed, tokenize text = .ok placed ∧ placed.map PlacedToken.token = tokens := by
  obtain ⟨placed, hplaced, htokens⟩ := h [] 0 text.toList.length le_rfl
  exact ⟨placed, hplaced, htokens⟩

/-! ## Words and integers -/

/-- A run of characters ends where one of another kind begins. -/
theorem takeWhile_append_of_head {p : Char → Bool} {xs rest : List Char} (hxs : ∀ c ∈ xs, p c)
    (hrest : ∀ c ∈ rest.head?, p c = false) :
    (xs ++ rest).takeWhile p = xs ∧ (xs ++ rest).dropWhile p = rest := by
  rw [List.takeWhile_append_of_pos hxs, List.dropWhile_append_of_pos hxs]
  cases rest with
  | nil => simp
  | cons c _ => simp [hrest c (by simp)]

/-- What stands in front of the first mark is read up to the mark. -/
theorem takeWhile_append_of_not_mem {mark : Char} {xs : List Char} (hxs : mark ∉ xs)
    (rest : List Char) (hrest : ∀ c ∈ rest.head?, c = mark) :
    (xs ++ rest).takeWhile (fun c => decide (c ≠ mark)) = xs ∧
      (xs ++ rest).dropWhile (fun c => decide (c ≠ mark)) = rest := by
  refine takeWhile_append_of_head (fun c hc => ?_) fun c hc => ?_
  · simpa using fun heq : c = mark => hxs (heq ▸ hc)
  · simpa using hrest c hc

/-- The characters that names begin with, by their code points. -/
theorem isNameStart_iff {c : Char} :
    isNameStart c ↔ c.toNat = 0x5f ∨ c.toNat = 0x24 ∨ (0x41 ≤ c.toNat ∧ c.toNat ≤ 0x5a) ∨
      (0x61 ≤ c.toNat ∧ c.toNat ≤ 0x7a) := by
  have hupper : c.isUpper = decide (c.val ≥ 'A'.val ∧ c.val ≤ 'Z'.val) := rfl
  have hlower : c.isLower = (decide (c.val ≥ 'a'.val) && decide (c.val ≤ 'z'.val)) := rfl
  have halpha : c.isAlpha = (c.isUpper || c.isLower) := rfl
  simp [isNameStart, halpha, hupper, hlower, UInt32.le_iff_toNat_le, ← Char.toNat_inj, or_assoc]

/-- A digit may stand in a name. -/
theorem isNamePart_of_isDigit {c : Char} (h : c.isDigit) : isNamePart c := by
  simp [isNamePart, Char.isAlphanum, h]

/-- What may begin a name begins nothing else. -/
theorem front_of_nameStart {c : Char} (h : isNameStart c) (rest : List Char) :
    Front.of c rest = Front.word (c :: rest) := by
  have hstart := isNameStart_iff.1 h
  have hblank : isBlank c = false := by
    simp [isBlank]
    omega
  have hdigit : c.isDigit = false := by
    rw [Bool.eq_false_iff, ne_eq, Char.isDigit_iff_toNat]
    simp
    omega
  have hne : ∀ d ∈ ['"', '/', '&', '|', '=', '!'], c ≠ d := by
    have hmarks : ['"', '/', '&', '|', '=', '!'].all (fun d => !isNameStart d) = true := by decide
    rintro d hd rfl
    simpa [h] using List.all_eq_true.1 hmarks c hd
  simp only [List.mem_cons, List.not_mem_nil, or_false, forall_eq_or_imp, forall_eq] at hne
  simp [Front.of, hblank, hdigit, h, hne]

/-- A digit begins a number. -/
theorem front_of_digit {c : Char} (h : c.isDigit) (rest : List Char) :
    Front.of c rest = Front.number (c :: rest) := by
  have hrange := Char.isDigit_iff_toNat.1 h
  have hblank : isBlank c = false := by
    simp at hrange
    simp [isBlank]
    omega
  simp [Front.of, hblank, h]

/-- An identifier is one word, if no part of a name follows it. -/
theorem lexes_word {text rest : List Char} {tokens : List Token} (htext : isIdentifier text)
    (hend : ∀ c ∈ rest.head?, isNamePart c = false) (h : Lexes rest tokens) :
    Lexes (text ++ rest) (.word (String.ofList text) :: tokens) := by
  cases text with
  | nil => simp [isIdentifier] at htext
  | cons c tail =>
    simp only [isIdentifier, Bool.and_eq_true, List.all_eq_true] at htext
    have hall : ∀ d ∈ c :: tail, isNamePart d := by
      simpa using ⟨isNamePart_of_isNameStart htext.1, htext.2⟩
    obtain ⟨htake, hdrop⟩ := takeWhile_append_of_head hall hend
    have hfront : Front.of c (tail ++ rest) =
        .token (.word (String.ofList (c :: tail))) (utf8Width (c :: tail)) rest := by
      rw [front_of_nameStart htext.1, Front.word, ← List.cons_append, htake, hdrop]
    exact lexes_of_token hfront (by simp) h

/-- The digits of an integer and, for a `long`, the letter behind them are read as the integer. -/
theorem lexes_integer {n : Nat} {suffix rest : List Char} {tokens : List Token}
    (hn : n < integerLimit)
    (hsuffix : suffix = ['L'] ∨ suffix = [] ∧ ∀ c ∈ rest.head?, isNamePart c = false)
    (h : Lexes rest tokens) :
    Lexes ((toString n).toList ++ suffix ++ rest) (.integer n :: tokens) := by
  have hdigits : ∀ c ∈ Nat.toDigits 10 n, c.isDigit := fun c hc =>
    Nat.isDigit_of_mem_toDigits (by decide) (by decide) hc
  have hend : ∀ c ∈ (suffix ++ rest).head?, c.isDigit = false := by
    rcases hsuffix with rfl | ⟨rfl, hstop⟩
    · simp [Char.isDigit]
    · intro c hc
      rw [Bool.eq_false_iff]
      intro hdigit
      simpa [isNamePart_of_isDigit hdigit] using hstop c hc
  obtain ⟨htake, hdrop⟩ := takeWhile_append_of_head hdigits hend
  have htext : (toString n).toList = Nat.toDigits 10 n := Nat.toList_repr
  rw [htext, List.append_assoc]
  cases hcs : Nat.toDigits 10 n with
  | nil => exact absurd hcs Nat.toDigits_ne_nil
  | cons c tail =>
    have hc : c.isDigit := hdigits c (by simp [hcs])
    have hfront : Front.of c (tail ++ (suffix ++ rest)) =
        .token (.integer n) ((c :: tail).length + suffix.length) rest := by
      rw [front_of_digit hc, Front.number, ← List.cons_append, ← hcs, htake, hdrop,
        Nat.ofDigitChars_ten_toDigits, if_neg (Nat.not_le.2 hn)]
      rcases hsuffix with rfl | ⟨rfl, hstop⟩
      · rfl
      -- Without a suffix the next character is no part of a name, so it is no suffix either.
      · cases rest with
        | nil => rfl
        | cons d rest =>
          have hd := hstop d (by simp)
          have hL : d ≠ 'L' := by rintro rfl; revert hd; decide
          have hl : d ≠ 'l' := by rintro rfl; revert hd; decide
          simp [hL, hl]
    exact lexes_of_token hfront (by simp; omega) h

/-! ## Text literals -/

/-- The escape of a control character gives its code with four digits. -/
theorem unicodeEscape?_of_isControl {c : Char} (h : isControl c) :
    unicodeEscape? ['0', '0', hexDigit (c.toNat / 16), hexDigit (c.toNat % 16)] = some c := by
  have hcodes : ∀ n : Fin 0xa0,
      unicodeEscape? ['0', '0', hexDigit (n.val / 16), hexDigit (n.val % 16)] =
        some (Char.ofNat n.val) := by
    decide +kernel
  have hlt : c.toNat < 0xa0 := by
    simp [isControl] at h
    omega
  simpa using hcodes ⟨c.toNat, hlt⟩

/-- In a text literal, a plain character stands for itself. -/
theorem textBody_plain {c : Char} (hquote : c ≠ '"') (hslash : c ≠ '\\') (hline : c ≠ '\n')
    (read rest : List Char) (offset : Nat) :
    textBody read offset (c :: rest) = textBody (c :: read) (offset + c.utf8Size) rest := by
  rw [textBody.eq_def]
  simp [hquote, hslash, hline]

/-- In a text literal, a backslash and a letter stand for the escaped character. -/
theorem textBody_escape {letter value : Char} (hletter : escapedChar? letter = some value)
    (read rest : List Char) (offset : Nat) :
    textBody read offset ('\\' :: letter :: rest) =
      textBody (value :: read) (offset + 2) rest := by
  have hu : letter ≠ 'u' := by
    rintro rfl
    simp [escapedChar?] at hletter
  rw [textBody.eq_def]
  simp [hu, hletter]

/-- A character is escaped by a letter that stands for it, by its code, or not at all. -/
theorem escapeChar_cases (c : Char) :
    (∃ letter, escapedChar? letter = some c ∧ escapeChar c = ['\\', letter]) ∨
    (isControl c ∧ escapeChar c =
      ['\\', 'u', '0', '0', hexDigit (c.toNat / 16), hexDigit (c.toNat % 16)]) ∨
    (c ≠ '"' ∧ c ≠ '\\' ∧ c ≠ '\n' ∧ ¬ isControl c ∧ escapeChar c = [c]) := by
  unfold escapeChar
  split_ifs with hquote hslash hline _ _ _ _ hcontrol
  any_goals
    subst c
    exact .inl ⟨_, rfl, rfl⟩
  · exact .inr (.inl ⟨hcontrol, rfl⟩)
  · exact .inr (.inr ⟨hquote, hslash, hline, hcontrol, rfl⟩)

/-- The escaped form of a character is read as the character. -/
theorem textBody_escapeChar (c : Char) (read rest : List Char) (offset : Nat) :
    ∃ width, textBody read offset (escapeChar c ++ rest) = textBody (c :: read) width rest := by
  rcases escapeChar_cases c with ⟨letter, hletter, heq⟩ | ⟨hcontrol, heq⟩ | ⟨h₁, h₂, h₃, -, heq⟩
  · exact ⟨_, by rw [heq]; exact textBody_escape hletter read rest offset⟩
  · refine ⟨offset + 6, ?_⟩
    rw [heq, List.cons_append, List.cons_append, textBody.eq_def]
    simp [unicodeEscape?_of_isControl hcontrol]
  · exact ⟨_, by rw [heq]; exact textBody_plain h₁ h₂ h₃ read rest offset⟩

theorem textBody_escaped (value read rest : List Char) (offset : Nat) :
    ∃ width, textBody read offset (value.flatMap escapeChar ++ '"' :: rest) =
      .ok (read.reverse ++ value, width, rest) := by
  induction value generalizing read offset with
  | nil =>
    refine ⟨offset + 1, ?_⟩
    rw [List.flatMap_nil, List.nil_append, textBody.eq_def]
    simp
  | cons c value ih =>
    obtain ⟨width, hwidth⟩ :=
      textBody_escapeChar c read (value.flatMap escapeChar ++ '"' :: rest) offset
    obtain ⟨total, htotal⟩ := ih (c :: read) width
    refine ⟨total, ?_⟩
    rw [List.flatMap_cons, List.append_assoc, hwidth, htotal]
    simp

theorem lexes_quoted {value : String} {rest : List Char} {tokens : List Token}
    (h : Lexes rest tokens) : Lexes ((quote value).toList ++ rest) (.quoted value :: tokens) := by
  obtain ⟨width, hwidth⟩ := textBody_escaped value.toList [] rest 1
  have hfront : Front.of '"' (value.toList.flatMap escapeChar ++ ['"'] ++ rest) =
      .token (.quoted value) width rest := by
    have hof : ∀ cs, Front.of '"' cs = Front.quoted cs := fun cs => by
      simp [Front.of, isBlank, Char.isDigit]
    rw [hof, Front.quoted, List.append_assoc, List.singleton_append, hwidth]
    simp
  simpa [quote] using lexes_of_token hfront (by simp; omega) h

/-! ## Pieces -/

namespace Piece

/-- Whether a piece is over where the character `c` comes next: a word and an integer go on with
every character of a name, and an equals sign turns `=` and `!` into other symbols. -/
def endsAt (c : Char) : Piece → Bool
  | .token (.word _) | .token (.integer _) => !isNamePart c
  | .token (.symbol .assign) | .token (.symbol .bang) => c != '='
  | _ => true

/-- Whether the spelling of a piece can be read back at all. -/
def isReadable : Piece → Bool
  | .token (.word text) => isIdentifier text.toList
  | .token (.integer n) | long n => n < integerLimit
  | _ => true

/-- Whether the second piece may stand right behind the first. -/
def MayPrecede (p q : Piece) : Prop := ∀ c ∈ q.spelling.toList.head?, p.endsAt c = true

/-- Whether every piece may stand right behind this one. -/
def isOpen : Piece → Bool
  | .token (.word _) | .token (.integer _) | .token (.symbol .assign) | .token (.symbol .bang) =>
    false
  | _ => true

/-- Whether this piece may stand right behind every other one. -/
def isClosed : Piece → Bool
  | .token (.word _) | .token (.integer _) | long _ | .token (.symbol .assign)
  | .token (.symbol .equal) => false
  | _ => true

/-- Anything may follow an open piece. -/
theorem mayPrecede_of_isOpen {p : Piece} (h : p.isOpen) (q : Piece) : p.MayPrecede q := by
  intro c _
  revert h
  cases p with
  | token token =>
    cases token with
    | symbol s => cases s <;> simp [isOpen, endsAt]
    | _ => simp [isOpen, endsAt]
  | _ => simp [endsAt]

/-- Anything may stand in front of a closed piece. -/
theorem mayPrecede_of_isClosed {q : Piece} (h : q.isClosed) (p : Piece) : p.MayPrecede q := by
  have hhead : ∀ c ∈ q.spelling.toList.head?, isNamePart c = false ∧ c ≠ '=' := by
    revert h
    cases q with
    | token token =>
      cases token with
      | symbol s => cases s <;> simp [isClosed, spelling, Token.spelling, Symbol.text] <;> decide
      | quoted value =>
        have hquote : isNamePart '"' = false := by decide
        simp [spelling, Token.spelling, quote, hquote]
      | _ => simp [isClosed]
    | long n => simp [isClosed]
    | space => simp [spelling]; decide
    | newline => simp [spelling]; decide
    | indent => simp [spelling]; decide
  intro c hc
  obtain ⟨hpart, hne⟩ := hhead c hc
  unfold endsAt
  split <;> simp [hpart, hne]

end Piece

/-- A mark without an equals sign behind it is read alone. -/
theorem beforeEquals_of_head {alone withEquals : Symbol} {rest : List Char}
    (h : ∀ c ∈ rest.head?, c ≠ '=') :
    Front.beforeEquals alone withEquals rest = .token (.symbol alone) 1 rest := by
  cases rest with
  | nil => rfl
  | cons c rest =>
    have hc : c ≠ '=' := h c (by simp)
    simp [Front.beforeEquals, hc]

theorem lexes_symbol {s : Symbol} {rest : List Char} {tokens : List Token}
    (hend : ∀ c ∈ rest.head?, (Piece.symbol s).endsAt c) (h : Lexes rest tokens) :
    Lexes (s.text.toList ++ rest) (.symbol s :: tokens) := by
  cases s with
  | assign =>
    have hfront : Front.of '=' rest = .token (.symbol .assign) 1 rest :=
      beforeEquals_of_head fun c hc => by simpa [Piece.symbol, Piece.endsAt] using hend c hc
    exact lexes_of_token hfront le_rfl h
  | bang =>
    have hfront : Front.of '!' rest = .token (.symbol .bang) 1 rest :=
      beforeEquals_of_head fun c hc => by simpa [Piece.symbol, Piece.endsAt] using hend c hc
    exact lexes_of_token hfront le_rfl h
  | equal | notEqual | andAnd | orOr =>
    exact @lexes_of_token _ _ rest 2 _ _ rfl (Nat.le_succ _) h
  | _ => exact @lexes_of_token _ _ rest 1 _ _ rfl le_rfl h

/-- A piece that ends where the rest begins is read as its token, and white space as none. -/
theorem lexes_piece {p : Piece} {rest : List Char} {tokens : List Token} (hp : p.isReadable)
    (hend : ∀ c ∈ rest.head?, p.endsAt c) (h : Lexes rest tokens) :
    Lexes (p.spelling.toList ++ rest) (p.token?.toList ++ tokens) := by
  have hblank : ∀ c cs ts, isBlank c → Lexes cs ts → Lexes (c :: cs) ts := by
    intro c cs ts hc hcs
    have hfront : Front.of c cs = .skip c.utf8Size cs := by simp [Front.of, hc]
    exact lexes_of_skip hfront le_rfl hcs
  cases p with
  | space => exact hblank _ _ _ (by decide) h
  | newline => exact hblank _ _ _ (by decide) h
  | indent =>
    have hspace : isBlank ' ' := by decide
    exact hblank _ _ _ hspace <| hblank _ _ _ hspace <| hblank _ _ _ hspace <|
      hblank _ _ _ hspace h
  | long n =>
    have hn : n < integerLimit := by simpa [Piece.isReadable] using hp
    simpa [Piece.spelling, Piece.token?] using lexes_integer hn (.inl rfl) h
  | token token =>
    cases token with
    | word text =>
      have hstop : ∀ c ∈ rest.head?, isNamePart c = false := fun c hc => by
        simpa [Piece.endsAt] using hend c hc
      simpa [Piece.spelling, Token.spelling, Piece.token?] using lexes_word hp hstop h
    | integer n =>
      have hn : n < integerLimit := by simpa [Piece.isReadable] using hp
      have hstop : ∀ c ∈ rest.head?, isNamePart c = false := fun c hc => by
        simpa [Piece.endsAt] using hend c hc
      simpa [Piece.spelling, Token.spelling, Piece.token?] using
        lexes_integer hn (.inr ⟨rfl, hstop⟩) h
    | quoted value => exact lexes_quoted h
    | symbol s => exact lexes_symbol hend h

/-! ## Spaced pieces -/

/-- Pieces that can be read, none of which runs into the next one. -/
def Spaced (pieces : List Piece) : Prop :=
  pieces.IsChain Piece.MayPrecede ∧ ∀ p ∈ pieces, p.isReadable

theorem spelling_ne_nil {p : Piece} (h : p.isReadable) : p.spelling.toList ≠ [] := by
  cases p with
  | token token =>
    cases token with
    | word text =>
      intro hnil
      simp_all [Piece.isReadable, Piece.spelling, Token.spelling, isIdentifier]
    | integer n =>
      have hrepr : n.repr.toList ≠ [] := by rw [Nat.toList_repr]; exact Nat.toDigits_ne_nil
      exact hrepr
    | quoted value => simp [Piece.spelling, Token.spelling, quote]
    | symbol s => cases s <;> simp [Piece.spelling, Token.spelling, Symbol.text]
  | long n => simp [Piece.spelling]
  | _ => simp [Piece.spelling]

theorem lexes_render {pieces : List Piece} (h : Spaced pieces) :
    Lexes (Piece.render pieces).toList (Piece.tokens pieces) := by
  obtain ⟨hchain, hreadable⟩ := h
  rw [Piece.toList_render]
  induction pieces with
  | nil => exact lexes_nil
  | cons p pieces ih =>
    have hp := hreadable p (by simp)
    have hrest := ih hchain.tail fun q hq => hreadable q (by simp [hq])
    have hend : ∀ c ∈ (pieces.flatMap fun q => q.spelling.toList).head?, p.endsAt c := by
      cases pieces with
      | nil => simp
      | cons q pieces =>
        have hq := spelling_ne_nil (hreadable q (by simp))
        intro c hc
        rw [List.flatMap_cons, List.head?_append_of_ne_nil _ hq] at hc
        exact (List.isChain_cons.1 hchain).1 q (by simp) c hc
    have hcons : Piece.tokens (p :: pieces) = p.token?.toList ++ Piece.tokens pieces := by
      cases hp : p.token? <;> simp [Piece.tokens, hp]
    rw [List.flatMap_cons, hcons]
    exact lexes_piece hp hend hrest

/-- The text of spaced pieces has the tokens of the pieces. -/
theorem tokenize_render {pieces : List Piece} (h : Spaced pieces) :
    ∃ placed, tokenize (Piece.render pieces) = .ok placed ∧
      placed.map PlacedToken.token = Piece.tokens pieces :=
  tokenize_of_lexes (lexes_render h)

end Stubwright.Source
