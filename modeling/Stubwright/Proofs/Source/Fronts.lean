import Mathlib.Data.List.Infix
import Mathlib.Data.List.TakeWhile
import Stubwright.Proofs.Source.Lexing

/-!
# What stands at the front of a text

The first character of a text chooses the reader of its front, and there are nine kinds of readers.
Three facts hold of each of them, and so of every front. A token knows its bytes, and it is over
where its text ends, goes on as it did, or goes on with a line end. What is skipped is white space
or a comment. A fault lies between two characters of the text.

## Main definitions

* `Front.Reader` — the readers among which the first character chooses
* `IsGap` — texts of white space and comments
* `MayFollow` — what may stand behind a token in place of what stood there
* `Front.EndsToken`, `Front.SkipsGap`, `Front.FaultsInside` — the three facts

## Main results

* `reader_of` — every front is read by one of the readers
* `endsToken_of`, `skipsGap_of`, `faultsInside_of` — the three facts hold of every front
* `lexes_gap` — white space and comments have no tokens
-/

namespace Stubwright.Source

open Text

/-! ## Widths of characters -/

private theorem utf8Size_of_lt {c : Char} (h : c.toNat < 0x80) : c.utf8Size = 1 := by
  rw [Char.utf8Size_eq_one_iff, UInt32.le_iff_toNat_le]
  exact Nat.le_of_lt_succ h

private theorem utf8Size_of_isDigit {c : Char} (h : c.isDigit) : c.utf8Size = 1 := by
  have hrange := Char.isDigit_iff_toNat.1 h
  simp at hrange
  exact utf8Size_of_lt (by omega)

private theorem utf8Size_of_isHexDigit {c : Char} (h : isHexDigit c) : c.utf8Size = 1 := by
  have hrange : c.isDigit ∨ c.toNat ≤ 0x66 := by
    simp only [isHexDigit, Bool.or_eq_true, Bool.and_eq_true, decide_eq_true_eq] at h
    rcases h with (h | h) | h
    · exact .inl h
    · exact .inr (Char.le_def.1 h.2)
    · exact .inr ((Char.le_def.1 h.2).trans (by decide))
  rcases hrange with h | h
  · exact utf8Size_of_isDigit h
  · exact utf8Size_of_lt (by omega)

private theorem utf8Size_of_ofChar? {c : Char} {s : Symbol} (h : Symbol.ofChar? c = some s) :
    c.utf8Size = 1 := by
  have htext : s.text.toList = [c] := by simpa using List.find?_some h
  have hone : s.text.toList.all fun d => d.utf8Size = 1 := by cases s <;> decide
  rw [htext] at hone
  simpa using hone

private theorem utf8Width_eq_length {cs : List Char} (h : ∀ c ∈ cs, c.isDigit) :
    utf8Width cs = cs.length := by
  induction cs with
  | nil => rfl
  | cons c cs ih =>
    have hc := utf8Size_of_isDigit (h c (by simp))
    have hcs := ih fun d hd => h d (by simp [hd])
    rw [utf8Width_cons, hc, hcs, List.length_cons, Nat.add_comm]

/-! ## The readers -/

namespace Front

/-- The readers of the front of a text, each with the character that it comes behind. -/
inductive Reader : Char → (List Char → Front) → Prop where
  | blank {c : Char} (h : isBlank c) : Reader c fun rest => .skip c.utf8Size rest
  | number {c : Char} (h : c.isDigit) : Reader c fun rest => number (c :: rest)
  | word {c : Char} (h : isNameStart c) : Reader c fun rest => word (c :: rest)
  | quoted : Reader '"' quoted
  | comment : Reader '/' comment
  | doubled {c : Char} (s : Symbol) (h : c.utf8Size = 1) : Reader c (doubled c s)
  | beforeEquals {c : Char} (alone withEquals : Symbol) (h : c.utf8Size = 1) :
      Reader c (beforeEquals alone withEquals)
  | symbol {c : Char} (s : Symbol) (h : c.utf8Size = 1) :
      Reader c fun rest => .token (.symbol s) 1 rest
  | stray (c : Char) : Reader c fun _ => .fault (.strayCharacter c) 0

end Front

/-- Every front is read by one of the readers. -/
theorem reader_of (c : Char) : Front.Reader c (Front.of c) := by
  by_cases hblank : isBlank c
  · have hof : Front.of c = fun rest => .skip c.utf8Size rest := by
      funext rest
      simp [Front.of, hblank]
    rw [hof]
    exact .blank hblank
  by_cases hdigit : c.isDigit
  · rw [funext (front_of_digit hdigit)]
    exact .number hdigit
  by_cases hname : isNameStart c
  · rw [funext (front_of_nameStart hname)]
    exact .word hname
  by_cases hquote : c = '"'
  · subst hquote
    exact .quoted
  by_cases hslash : c = '/'
  · subst hslash
    exact .comment
  by_cases hand : c = '&'
  · subst hand
    exact .doubled .andAnd rfl
  by_cases hor : c = '|'
  · subst hor
    exact .doubled .orOr rfl
  by_cases hequals : c = '='
  · subst hequals
    exact .beforeEquals .assign .equal rfl
  by_cases hbang : c = '!'
  · subst hbang
    exact .beforeEquals .bang .notEqual rfl
  cases hsymbol : Symbol.ofChar? c with
  | some symbol =>
    have hof : Front.of c = fun rest => .token (.symbol symbol) 1 rest := by
      funext rest
      simp [Front.of, hblank, hdigit, hname, hquote, hslash, hand, hor, hequals, hbang, hsymbol]
    rw [hof]
    exact .symbol symbol (utf8Size_of_ofChar? hsymbol)
  | none =>
    have hof : Front.of c = fun _ => .fault (.strayCharacter c) 0 := by
      funext rest
      simp [Front.of, hblank, hdigit, hname, hquote, hslash, hand, hor, hequals, hbang, hsymbol]
    rw [hof]
    exact .stray c

/-! ## Where tokens end -/

/-- What may stand behind a token that has `tail` behind it, so that the token stays the same:
nothing, something that begins like `tail`, or a line end. -/
def MayFollow (tail more : List Char) : Prop := ∀ d ∈ more.head?, d = '\n' ∨ d ∈ tail.head?

private theorem MayFollow.append {tail more : List Char} (h : MayFollow tail more)
    (used : List Char) :
    MayFollow (used ++ tail) (used ++ more) := by
  cases used with
  | nil => exact h
  | cons c used => exact fun d hd => .inr hd

/-- With a line behind it, a text may follow in its own place. -/
theorem mayFollow_line (tail line : List Char) : MayFollow tail (tail ++ '\n' :: line) := by
  cases tail with
  | nil => simp [MayFollow]
  | cons d tail => simp [MayFollow]

/-- The front of a text may follow in its place. -/
theorem mayFollow_of_isPrefix {tail more : List Char} (h : more <+: tail) :
    MayFollow tail more := by
  obtain ⟨behind, rfl⟩ := h
  cases more with
  | nil => simp [MayFollow]
  | cons d more => simp [MayFollow]

/-- Characters of a class that line ends do not belong to are read up to what may follow them. -/
theorem takeWhile_mayFollow {p : Char → Bool} (hline : p '\n' = false) {cs more : List Char}
    (h : MayFollow (cs.dropWhile p) more) :
    (cs.takeWhile p ++ more).takeWhile p = cs.takeWhile p ∧
      (cs.takeWhile p ++ more).dropWhile p = more := by
  refine takeWhile_append_of_head (fun c hc => List.mem_takeWhile_imp hc) fun c hc => ?_
  rcases h c hc with rfl | hdrop
  · exact hline
  · have hhead := List.head?_dropWhile_not p cs
    rw [Option.mem_def.1 hdrop] at hhead
    simpa using hhead

namespace Front

variable {c : Char} {read : List Char → Front}

/-- A reader that knows the bytes of every token that it answers, and answers the same token where
something else stands behind it that may follow. -/
def EndsToken (c : Char) (read : List Char → Front) : Prop :=
  ∀ rest found width tail, read rest = .token found width tail →
    ∃ used, rest = used ++ tail ∧ width = utf8Width (c :: used) ∧
      ∀ more, MayFollow tail more → read (used ++ more) = .token found width more

/-! ### Integers and words -/

/-- An integer token of `width` digits, in front of the letter that may follow them. -/
def suffixed (magnitude width : Nat) (rest : List Char) : Front :=
  match rest with
  | 'L' :: tail | 'l' :: tail => .token (.integer magnitude) (width + 1) tail
  | _ => .token (.integer magnitude) width rest

private theorem suffixed_of_head (magnitude width : Nat) {rest : List Char}
    (h : ∀ d ∈ rest.head?, d ≠ 'L' ∧ d ≠ 'l') :
    suffixed magnitude width rest = .token (.integer magnitude) width rest := by
  unfold suffixed
  split <;> simp_all

private theorem number_eq (h : c.isDigit) (rest : List Char) :
    let digits := c :: rest.takeWhile Char.isDigit
    number (c :: rest) =
      if integerLimit ≤ Nat.ofDigitChars 10 digits 0 then
        .fault (.integerTooLarge (String.ofList digits)) 0
      else suffixed (Nat.ofDigitChars 10 digits 0) digits.length (rest.dropWhile Char.isDigit) := by
  unfold number
  rw [List.takeWhile_cons_of_pos h, List.dropWhile_cons_of_pos h]
  rfl

/-- The letter behind the digits belongs to them. -/
theorem exists_suffixed (magnitude width : Nat) (rest : List Char) :
    ∃ used tail, rest = used ++ tail ∧ ∀ more, MayFollow tail more →
      suffixed magnitude width (used ++ more) =
        .token (.integer magnitude) (width + utf8Width used) more := by
  have hother : (∀ d ∈ rest.head?, d ≠ 'L' ∧ d ≠ 'l') → ∀ more, MayFollow rest more →
      suffixed magnitude width more = .token (.integer magnitude) width more := by
    intro hrest more hmore
    refine suffixed_of_head magnitude width fun d hd => ?_
    rcases hmore d hd with rfl | hd'
    · decide
    · exact hrest d hd'
  rcases rest with _ | ⟨d, rest⟩
  · exact ⟨[], [], rfl, hother (by simp)⟩
  by_cases hL : d = 'L'
  · subst hL
    exact ⟨['L'], rest, rfl, fun _ _ => rfl⟩
  by_cases hl : d = 'l'
  · subst hl
    exact ⟨['l'], rest, rfl, fun _ _ => rfl⟩
  exact ⟨[], d :: rest, rfl, hother (by simp [hL, hl])⟩

private theorem endsToken_number (h : c.isDigit) : EndsToken c fun rest => number (c :: rest) := by
  intro rest found width tail hread
  simp only [number_eq h] at hread ⊢
  split_ifs at hread with hlarge
  obtain ⟨used, tail', hdrop, hused⟩ := exists_suffixed
    (Nat.ofDigitChars 10 (c :: rest.takeWhile Char.isDigit) 0)
    (c :: rest.takeWhile Char.isDigit).length (rest.dropWhile Char.isDigit)
  -- What was read is told by putting back what stood behind it.
  have hself : MayFollow tail' tail' := mayFollow_of_isPrefix (List.prefix_refl _)
  rw [hdrop, hused _ hself] at hread
  obtain ⟨rfl, rfl, rfl⟩ := Front.token.inj hread
  have hwidth : (c :: rest.takeWhile Char.isDigit).length =
      utf8Width (c :: rest.takeWhile Char.isDigit) := by
    refine (utf8Width_eq_length ?_).symm
    simpa [h] using fun d hd => List.mem_takeWhile_imp hd
  refine ⟨rest.takeWhile Char.isDigit ++ used, ?_, ?_, fun more hmore => ?_⟩
  · rw [List.append_assoc, ← hdrop, List.takeWhile_append_dropWhile]
  · rw [hwidth, ← List.cons_append, utf8Width_append]
  · have hfollow : MayFollow (rest.dropWhile Char.isDigit) (used ++ more) := by
      rw [hdrop]
      exact hmore.append used
    obtain ⟨htake, hrest⟩ := takeWhile_mayFollow (p := Char.isDigit) (by decide) hfollow
    rw [List.append_assoc, htake, hrest, if_neg hlarge, hused more hmore]

private theorem endsToken_word (h : isNameStart c) : EndsToken c fun rest => word (c :: rest) := by
  intro rest found width tail hread
  have hpart := isNamePart_of_isNameStart h
  simp only [word, List.takeWhile_cons_of_pos hpart, List.dropWhile_cons_of_pos hpart] at hread ⊢
  obtain ⟨rfl, rfl, rfl⟩ := Front.token.inj hread
  refine ⟨rest.takeWhile isNamePart, List.takeWhile_append_dropWhile.symm, rfl,
    fun more hmore => ?_⟩
  obtain ⟨htake, hrest⟩ := takeWhile_mayFollow (p := isNamePart) (by decide) hmore
  rw [htake, hrest]

/-! ### Text literals -/

private theorem utf8Size_of_escapedChar? {letter value : Char}
    (h : escapedChar? letter = some value) :
    letter.utf8Size = 1 := by
  unfold escapedChar? at h
  split at h <;> first | rfl | cases h

private theorem utf8Width_of_unicodeEscape? {digits : List Char} {value : Char}
    (h : unicodeEscape? digits = some value) : utf8Width digits = digits.length := by
  unfold unicodeEscape? at h
  split_ifs at h with hall
  clear h
  induction digits with
  | nil => rfl
  | cons d digits ih =>
    simp only [List.all_cons, Bool.and_eq_true] at hall
    rw [utf8Width_cons, utf8Size_of_isHexDigit hall.1, ih hall.2, List.length_cons, Nat.add_comm]

private theorem textBody_unicode {d₁ d₂ d₃ d₄ value : Char}
    (h : unicodeEscape? [d₁, d₂, d₃, d₄] = some value) (read rest : List Char) (offset : Nat) :
    textBody read offset ('\\' :: 'u' :: d₁ :: d₂ :: d₃ :: d₄ :: rest) =
      textBody (value :: read) (offset + 6) rest := by
  rw [textBody.eq_def]
  simp [h]

private theorem utf8Width_unicode {d₁ d₂ d₃ d₄ value : Char}
    (h : unicodeEscape? [d₁, d₂, d₃, d₄] = some value) :
    utf8Width ['\\', 'u', d₁, d₂, d₃, d₄] = 6 := by
  have hdigits := utf8Width_of_unicodeEscape? h
  rw [utf8Width_cons, utf8Width_cons, hdigits]
  rfl

private theorem utf8Width_escape {letter value : Char} (h : escapedChar? letter = some value) :
    utf8Width ['\\', letter] = 2 := by
  rw [utf8Width_cons, utf8Width_cons, utf8Size_of_escapedChar? h]
  rfl

/-- A text literal is over at its closing mark, whatever follows. -/
theorem textBody_closed {read cs value tail : List Char} {offset width : Nat}
    (h : textBody read offset cs = .ok (value, width, tail)) :
    ∃ used, cs = used ++ tail ∧ width = offset + utf8Width used ∧
      ∀ more, textBody read offset (used ++ more) = .ok (value, width, more) := by
  fun_induction textBody read offset cs with
  -- The inside ends at its mark, or it goes on behind a code, an escaped letter or any other
  -- character; the remaining cases are faults.
  | case2 read offset rest =>
    obtain ⟨rfl, rfl, rfl⟩ : read.reverse = value ∧ offset + 1 = width ∧ rest = tail := by
      simpa using h
    refine ⟨['"'], rfl, rfl, fun more => ?_⟩
    rw [List.cons_append, textBody.eq_def]
    simp
  | case5 read offset d₁ d₂ d₃ d₄ rest decoded hescape _ _ ih =>
    obtain ⟨used, rfl, rfl, hmore⟩ := ih h
    refine ⟨['\\', 'u', d₁, d₂, d₃, d₄] ++ used, rfl, ?_, fun more => ?_⟩
    · rw [utf8Width_append, utf8Width_unicode hescape, Nat.add_assoc]
    · exact (textBody_unicode hescape read _ offset).trans (hmore more)
  | case8 read offset letter rest _ decoded hescape _ _ ih =>
    obtain ⟨used, rfl, rfl, hmore⟩ := ih h
    refine ⟨['\\', letter] ++ used, rfl, ?_, fun more => ?_⟩
    · rw [utf8Width_append, utf8Width_escape hescape, Nat.add_assoc]
    · exact (textBody_escape hescape read _ offset).trans (hmore more)
  | case10 read offset c rest hquote hline hslash ih =>
    obtain ⟨used, rfl, rfl, hmore⟩ := ih h
    refine ⟨c :: used, rfl, by rw [utf8Width_cons, Nat.add_assoc], fun more => ?_⟩
    exact (textBody_plain hquote hslash hline read _ offset).trans (hmore more)
  | _ => cases h

private theorem endsToken_quoted : EndsToken '"' quoted := by
  intro rest found width tail hread
  unfold quoted at hread
  cases hbody : textBody [] 1 rest with
  | error fault => simp [hbody] at hread
  | ok result =>
    obtain ⟨value, width', tail'⟩ := result
    obtain ⟨used, hrest, hwidth, hmore⟩ := textBody_closed hbody
    rw [hbody] at hread
    obtain ⟨rfl, rfl, rfl⟩ := Front.token.inj hread
    exact ⟨used, hrest, hwidth, fun more _ => by simp only [quoted, hmore]⟩

/-! ### Symbols -/

private theorem endsToken_doubled (s : Symbol) (hc : c.utf8Size = 1) :
    EndsToken c (doubled c s) := by
  intro rest found width tail hread
  rcases rest with _ | ⟨d, rest⟩
  · cases hread
  by_cases hd : d = c
  · subst hd
    rw [doubled, if_pos rfl] at hread
    obtain ⟨rfl, rfl, rfl⟩ := Front.token.inj hread
    exact ⟨[d], rfl, by simp [hc], fun more _ => by simp [doubled]⟩
  · simp [doubled, hd] at hread

private theorem endsToken_beforeEquals (alone withEquals : Symbol) (hc : c.utf8Size = 1) :
    EndsToken c (beforeEquals alone withEquals) := by
  intro rest found width tail hread
  by_cases hequals : rest.head? = some '='
  · obtain ⟨rest, rfl⟩ := List.head?_eq_some_iff.1 hequals
    obtain ⟨rfl, rfl, rfl⟩ := Front.token.inj hread
    exact ⟨['='], rfl, by simp [hc]; rfl, fun _ _ => rfl⟩
  · have hrest : ∀ d ∈ rest.head?, d ≠ '=' := fun d hd heq => hequals (heq ▸ hd)
    rw [beforeEquals_of_head hrest] at hread
    obtain ⟨rfl, rfl, rfl⟩ := Front.token.inj hread
    refine ⟨[], rfl, by simp [hc], fun more hmore => beforeEquals_of_head fun d hd => ?_⟩
    rcases hmore d hd with rfl | hd'
    · decide
    · exact hrest d hd'

private theorem Reader.endsToken (h : Reader c read) : EndsToken c read := by
  cases h with
  | blank => exact fun _ _ _ _ hread => by cases hread
  | number h => exact endsToken_number h
  | word h => exact endsToken_word h
  | quoted => exact endsToken_quoted
  | comment =>
    intro rest found width tail hread
    unfold Front.comment at hread
    split at hread
    · split at hread <;> cases hread
    · split at hread <;> cases hread
    · cases hread
  | doubled s h => exact endsToken_doubled s h
  | beforeEquals alone withEquals h => exact endsToken_beforeEquals alone withEquals h
  | symbol s h =>
    intro rest found width tail hread
    obtain ⟨rfl, rfl, rfl⟩ := Front.token.inj hread
    exact ⟨[], rfl, by simp [h], fun _ _ => rfl⟩
  | stray => exact fun _ _ _ _ hread => by cases hread

end Front

/-- A token that stands at the front of a text knows its bytes and where it ends. -/
theorem endsToken_of (c : Char) : Front.EndsToken c (Front.of c) := (reader_of c).endsToken

/-! ## White space and comments -/

/-- A text of white space and comments. A comment behind two slashes goes to the end of its line or
of the text, a comment behind a slash and a star to the first closing mark. -/
inductive IsGap : List Char → Prop where
  | nil : IsGap []
  | blank {c : Char} {cs : List Char} (hc : isBlank c) (h : IsGap cs) : IsGap (c :: cs)
  | line {comment cs : List Char} (hcomment : '\n' ∉ comment) (h : IsGap cs) :
      IsGap ('/' :: '/' :: (comment ++ '\n' :: cs))
  | lastLine {comment : List Char} (hcomment : '\n' ∉ comment) : IsGap ('/' :: '/' :: comment)
  | block {comment cs : List Char} (hcomment : ¬ ['*', '/'] <:+: comment) (h : IsGap cs) :
      IsGap ('/' :: '*' :: (comment ++ '*' :: '/' :: cs))

/-- A block comment without a closing mark inside ends at the closing mark behind it. -/
theorem commentBody_of_not_infix {last : Char} {comment : List Char}
    (h : ¬ ['*', '/'] <:+: last :: comment) (offset : Nat) (tail : List Char) :
    commentBody last offset (comment ++ '*' :: '/' :: tail) =
      some (offset + utf8Width comment + 2, tail) := by
  induction comment generalizing last offset with
  | nil =>
    have hstar : Char.utf8Size '*' = 1 := rfl
    simp [commentBody, hstar]
  | cons c comment ih =>
    have hopen : ¬ (last = '*' ∧ c = '/') := by
      rintro ⟨rfl, rfl⟩
      exact h ⟨[], comment, rfl⟩
    have htail : ¬ ['*', '/'] <:+: c :: comment := fun hmark => h (List.infix_cons hmark)
    rw [List.cons_append, commentBody, if_neg hopen, ih htail, utf8Width_cons, Nat.add_assoc offset]

/-- The end of a block comment is its first closing mark. -/
theorem exists_of_commentBody {last : Char} {cs tail : List Char} {offset width : Nat}
    (h : commentBody last offset cs = some (width, tail)) :
    ∃ comment, last :: cs = comment ++ '*' :: '/' :: tail ∧ ¬ ['*', '/'] <:+: comment := by
  induction cs generalizing last offset with
  | nil => cases h
  | cons c cs ih =>
    by_cases hclose : last = '*' ∧ c = '/'
    · obtain ⟨rfl, rfl⟩ := hclose
      obtain ⟨-, rfl⟩ : offset + 1 = width ∧ cs = tail := by simpa [commentBody] using h
      exact ⟨[], rfl, by simp⟩
    · rw [commentBody, if_neg hclose] at h
      obtain ⟨comment, hcs, hcomment⟩ := ih h
      refine ⟨last :: comment, by rw [hcs, List.cons_append], fun hmark => ?_⟩
      rcases List.infix_cons_iff.1 hmark with hfirst | hlater
      · -- A closing mark that begins at `last` goes on with `c`.
        obtain ⟨rfl, behind, rfl⟩ : '*' = last ∧ ∃ behind, '/' :: behind = comment := by
          simpa [List.cons_prefix_cons, List.IsPrefix] using hfirst
        exact hclose ⟨rfl, (List.cons.inj hcs).1⟩
      · exact hcomment hlater

namespace Front

variable {c : Char} {read : List Char → Front}

private theorem comment_line {comment : List Char} (h : '\n' ∉ comment) (tail : List Char) :
    Front.comment ('/' :: (comment ++ '\n' :: tail)) = .skip (3 + utf8Width comment) tail := by
  obtain ⟨htake, hdrop⟩ := takeWhile_append_of_not_mem h ('\n' :: tail) (by simp)
  simp only [Front.comment, htake, hdrop]

private theorem comment_lastLine {comment : List Char} (h : '\n' ∉ comment) :
    Front.comment ('/' :: comment) = .skip (2 + utf8Width comment) [] := by
  obtain ⟨htake, hdrop⟩ := takeWhile_append_of_not_mem h [] (by simp)
  rw [List.append_nil] at htake hdrop
  simp only [Front.comment, htake, hdrop]

private theorem comment_block {comment : List Char} (h : ¬ ['*', '/'] <:+: comment)
    (tail : List Char) :
    Front.comment ('*' :: (comment ++ '*' :: '/' :: tail)) =
      .skip (2 + utf8Width comment + 2) tail := by
  have hmark : ¬ ['*', '/'] <:+: '\x00' :: comment := by
    simp [List.infix_cons_iff, List.cons_prefix_cons, h]
  simp only [Front.comment, commentBody_of_not_infix hmark]

/-- The three kinds of comments. -/
theorem comment_cases {rest tail : List Char} {width : Nat}
    (h : Front.comment rest = .skip width tail) :
    ∃ comment, (rest = '/' :: (comment ++ '\n' :: tail) ∧ '\n' ∉ comment) ∨
      (rest = '/' :: comment ∧ '\n' ∉ comment ∧ tail = []) ∨
      (rest = '*' :: (comment ++ '*' :: '/' :: tail) ∧ ¬ ['*', '/'] <:+: comment) := by
  by_cases hslash : ∃ body, rest = '/' :: body
  · obtain ⟨body, rfl⟩ := hslash
    by_cases hline : '\n' ∈ body
    · obtain ⟨comment, behind, rfl, hcomment⟩ := List.eq_append_cons_of_mem hline
      rw [comment_line hcomment] at h
      obtain ⟨-, rfl⟩ := Front.skip.inj h
      exact ⟨comment, .inl ⟨rfl, hcomment⟩⟩
    · rw [comment_lastLine hline] at h
      obtain ⟨-, rfl⟩ := Front.skip.inj h
      exact ⟨body, .inr (.inl ⟨rfl, hline, rfl⟩)⟩
  unfold Front.comment at h
  split at h
  case h_1 body => exact absurd ⟨body, rfl⟩ hslash
  case h_2 body =>
    split at h
    case h_1 hbody =>
      obtain ⟨-, rfl⟩ := Front.skip.inj h
      obtain ⟨comment, hrest, hcomment⟩ := exists_of_commentBody hbody
      rcases comment with _ | ⟨d, comment⟩
      · cases (List.cons.inj hrest).1
      · obtain rfl : body = comment ++ '*' :: '/' :: _ := (List.cons.inj hrest).2
        exact ⟨comment, .inr (.inr ⟨rfl, fun hmark => hcomment (List.infix_cons hmark)⟩)⟩
    case h_2 => cases h
  case h_3 => cases h

/-- A reader that knows the bytes of what it skips, and skips white space or a comment. It skips
the same where a line end and more follow the text, but a comment that goes to the end of the text
takes that line end along. -/
def SkipsGap (c : Char) (read : List Char → Front) : Prop :=
  ∀ rest width tail, read rest = .skip width tail →
    ∃ used, rest = used ++ tail ∧ width = utf8Width (c :: used) ∧
      (∀ gap, gap <+: tail → IsGap gap → IsGap (c :: (used ++ gap))) ∧
      ∀ line, read (rest ++ '\n' :: line) = .skip width (tail ++ '\n' :: line) ∨
        tail = [] ∧ read (rest ++ '\n' :: line) = .skip (width + 1) line

private theorem skipsGap_blank (h : isBlank c) : SkipsGap c fun rest => .skip c.utf8Size rest := by
  intro rest width tail hread
  obtain ⟨rfl, rfl⟩ := Front.skip.inj hread
  exact ⟨[], rfl, rfl, fun _ _ hgap => .blank h hgap, fun _ => .inl rfl⟩

private theorem skipsGap_comment : SkipsGap '/' Front.comment := by
  intro rest width tail hread
  have hslash : Char.utf8Size '/' = 1 := rfl
  have hstar : Char.utf8Size '*' = 1 := rfl
  have hline : Char.utf8Size '\n' = 1 := rfl
  obtain ⟨comment, ⟨rfl, h⟩ | ⟨rfl, h, rfl⟩ | ⟨rfl, h⟩⟩ := comment_cases hread
  · rw [comment_line h] at hread
    obtain ⟨rfl, -⟩ := Front.skip.inj hread
    refine ⟨'/' :: (comment ++ ['\n']), by simp, ?_, fun gap _ hgap => ?_, fun line => .inl ?_⟩
    · simp only [utf8Width_cons, utf8Width_append, utf8Width_nil, hslash, hline]
      omega
    · simpa using IsGap.line h hgap
    · simpa using comment_line h (tail ++ '\n' :: line)
  · rw [comment_lastLine h] at hread
    obtain ⟨rfl, -⟩ := Front.skip.inj hread
    refine ⟨'/' :: comment, by simp, ?_, fun gap hstart _ => ?_, fun line => .inr ⟨rfl, ?_⟩⟩
    · simp only [utf8Width_cons, hslash]
      omega
    · obtain rfl := List.prefix_nil.1 hstart
      simpa using IsGap.lastLine h
    · rw [List.cons_append, comment_line h, Nat.add_right_comm]
  · rw [comment_block h] at hread
    obtain ⟨rfl, -⟩ := Front.skip.inj hread
    refine ⟨'*' :: (comment ++ ['*', '/']), by simp, ?_, fun gap _ hgap => ?_, fun line => .inl ?_⟩
    · simp only [utf8Width_cons, utf8Width_append, utf8Width_nil, hslash, hstar]
      omega
    · simpa using IsGap.block h hgap
    · simpa using comment_block h (tail ++ '\n' :: line)

private theorem Reader.skipsGap (h : Reader c read) : SkipsGap c read := by
  cases h with
  | blank h => exact skipsGap_blank h
  | comment => exact skipsGap_comment
  | number h =>
    intro rest width tail hread
    simp only [number_eq h, suffixed] at hread
    split_ifs at hread
    split at hread <;> cases hread
  | word => exact fun _ _ _ hread => by cases hread
  | quoted =>
    intro rest width tail hread
    unfold Front.quoted at hread
    split at hread <;> cases hread
  | doubled s =>
    intro rest width tail hread
    unfold Front.doubled at hread
    split at hread
    · split_ifs at hread
    · cases hread
  | beforeEquals alone withEquals =>
    intro rest width tail hread
    unfold Front.beforeEquals at hread
    split at hread <;> cases hread
  | symbol => exact fun _ _ _ hread => by cases hread
  | stray => exact fun _ _ _ hread => by cases hread

end Front

/-- What is skipped at the front of a text is white space or a comment. -/
theorem skipsGap_of (c : Char) : Front.SkipsGap c (Front.of c) := (reader_of c).skipsGap

/-- White space and comments have no tokens. -/
theorem lexes_gap {cs : List Char} (h : IsGap cs) : Lexes cs [] := by
  have hslash : ∀ rest, Front.of '/' rest = Front.comment rest := fun rest => by
    simp [Front.of, isBlank, Char.isDigit]
  induction h with
  | nil => exact lexes_nil
  | @blank c cs hc _ ih =>
    have hfront : Front.of c cs = .skip c.utf8Size cs := by simp [Front.of, hc]
    exact lexes_of_skip hfront le_rfl ih
  | line hcomment _ ih =>
    exact lexes_of_skip ((hslash _).trans (Front.comment_line hcomment _)) (by simp; omega) ih
  | lastLine hcomment =>
    exact lexes_of_skip ((hslash _).trans (Front.comment_lastLine hcomment)) (by simp) lexes_nil
  | block hcomment _ ih =>
    exact lexes_of_skip ((hslash _).trans (Front.comment_block hcomment _)) (by simp; omega) ih

/-! ## Where faults lie -/

/-- A fault of a text literal lies where the literal begins, which is said by the offset 0, or
between two characters of its inside. -/
theorem textBody_fault {read cs : List Char} {offset place : Nat} {cause : SyntaxFault}
    (h : textBody read offset cs = .error (cause, place)) :
    place = 0 ∨ ∃ before, before <+: cs ∧ place = offset + utf8Width before := by
  fun_induction textBody read offset cs with
  | case1 => exact .inl (Prod.mk.inj (Except.error.inj h)).2.symm
  | case2 => cases h
  | case3 | case4 =>
    obtain ⟨-, rfl⟩ := Prod.mk.inj (Except.error.inj h)
    exact .inr ⟨[], List.nil_prefix, rfl⟩
  | case6 | case7 | case9 =>
    obtain ⟨-, rfl⟩ := Prod.mk.inj (Except.error.inj h)
    exact .inr ⟨['\\'], by simp, rfl⟩
  | case5 read offset d₁ d₂ d₃ d₄ rest decoded hescape _ _ ih =>
    obtain rfl | ⟨before, hbefore, rfl⟩ := ih h
    · exact .inl rfl
    · refine .inr ⟨['\\', 'u', d₁, d₂, d₃, d₄] ++ before, ?_, ?_⟩
      · exact (List.prefix_append_right_inj ['\\', 'u', d₁, d₂, d₃, d₄]).2 hbefore
      · rw [utf8Width_append, Front.utf8Width_unicode hescape, Nat.add_assoc]
  | case8 read offset letter rest _ decoded hescape _ _ ih =>
    obtain rfl | ⟨before, hbefore, rfl⟩ := ih h
    · exact .inl rfl
    · refine .inr ⟨['\\', letter] ++ before, ?_, ?_⟩
      · exact (List.prefix_append_right_inj ['\\', letter]).2 hbefore
      · rw [utf8Width_append, Front.utf8Width_escape hescape, Nat.add_assoc]
  | case10 read offset c rest _ _ _ ih =>
    obtain rfl | ⟨before, hbefore, rfl⟩ := ih h
    · exact .inl rfl
    · exact .inr ⟨c :: before, List.cons_prefix_cons.2 ⟨rfl, hbefore⟩,
        by rw [utf8Width_cons, Nat.add_assoc]⟩

namespace Front

variable {c : Char} {read : List Char → Front}

/-- A reader whose faults lie where it begins or between two of the characters that follow. -/
def FaultsInside (c : Char) (read : List Char → Front) : Prop :=
  ∀ rest cause offset, read rest = .fault cause offset →
    ∃ before, before <+: c :: rest ∧ offset = utf8Width before

private theorem faultsInside_quoted : FaultsInside '"' quoted := by
  intro rest cause offset hread
  unfold quoted at hread
  split at hread
  case h_1 => cases hread
  case h_2 place hbody =>
    obtain ⟨-, rfl⟩ := Front.fault.inj hread
    obtain rfl | ⟨before, hbefore, rfl⟩ := textBody_fault hbody
    · exact ⟨[], List.nil_prefix, rfl⟩
    · exact ⟨'"' :: before, List.cons_prefix_cons.2 ⟨rfl, hbefore⟩, rfl⟩

private theorem Reader.faultsInside (h : Reader c read) : FaultsInside c read := by
  -- Every reader but the one of text literals puts its faults where it begins.
  have hbegin : (∀ rest cause offset, read rest = .fault cause offset → offset = 0) →
      FaultsInside c read := fun h rest cause offset hread =>
    ⟨[], List.nil_prefix, h rest cause offset hread⟩
  cases h with
  | quoted => exact faultsInside_quoted
  | number h =>
    refine hbegin fun rest cause offset hread => ?_
    simp only [number_eq h, suffixed] at hread
    split_ifs at hread
    · exact (Front.fault.inj hread).2.symm
    · split at hread <;> cases hread
  | comment =>
    refine hbegin fun rest cause offset hread => ?_
    unfold Front.comment at hread
    split at hread
    · split at hread <;> cases hread
    · split at hread
      · cases hread
      · exact (Front.fault.inj hread).2.symm
    · exact (Front.fault.inj hread).2.symm
  | doubled s =>
    refine hbegin fun rest cause offset hread => ?_
    unfold Front.doubled at hread
    split at hread
    · split_ifs at hread
      exact (Front.fault.inj hread).2.symm
    · exact (Front.fault.inj hread).2.symm
  | beforeEquals alone withEquals =>
    refine hbegin fun rest cause offset hread => ?_
    unfold Front.beforeEquals at hread
    split at hread <;> cases hread
  | blank | word | symbol => exact hbegin fun _ _ _ hread => by cases hread
  | stray => exact hbegin fun _ _ _ hread => (Front.fault.inj hread).2.symm

end Front

/-- A fault at the front of a text lies where the text begins or between two of its characters. -/
theorem faultsInside_of (c : Char) : Front.FaultsInside c (Front.of c) :=
  (reader_of c).faultsInside

end Stubwright.Source
