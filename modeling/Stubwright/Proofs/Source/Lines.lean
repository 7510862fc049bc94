import Stubwright.Proofs.Source.Fronts

/-!
# Texts on lines of their own

A text with tokens may be followed by a line end and any other text: every token is over there, and
a comment that goes to the end of its line takes the line end along. So the tokens of texts on lines
of their own are those of the texts, one text after the other.

## Main results

* `front_induction` — induction from what is left behind the front of a text
* `tokensFrom_line` — the lexer goes on behind a line end where it would have stopped
* `lexes_of_tokenize` — the tokens of a text do not depend on what was read before it
* `lexes_line` — the tokens of two texts with a line end between them
-/

namespace Stubwright.Source

open Text

/-! ## Front by front -/

theorem length_le_of_skip {c : Char} {rest tail : List Char} {width : Nat}
    (h : Front.of c rest = .skip width tail) : tail.length ≤ rest.length := by
  obtain ⟨used, rfl, -⟩ := skipsGap_of c rest width tail h
  simp

theorem length_le_of_token {c : Char} {rest tail : List Char} {token : Token} {width : Nat}
    (h : Front.of c rest = .token token width tail) : tail.length ≤ rest.length := by
  obtain ⟨used, rfl, -⟩ := endsToken_of c rest token width tail h
  simp

/-- What holds of the empty text, and of a text when it holds of what is left behind its front,
holds of all texts. -/
theorem front_induction {P : List Char → Prop} (nil : P [])
    (cons : ∀ c rest,
      (∀ width tail, Front.of c rest = .skip width tail → P tail) →
      (∀ token width tail, Front.of c rest = .token token width tail → P tail) → P (c :: rest))
    (cs : List Char) : P cs := by
  induction hn : cs.length using Nat.strongRecOn generalizing cs with
  | ind n ih =>
    cases cs with
    | nil => exact nil
    | cons c rest =>
      rw [List.length_cons] at hn
      refine cons c rest (fun width tail h => ?_) fun token width tail h => ?_
      · have hlength := length_le_of_skip h
        exact ih tail.length (by omega) tail rfl
      · have hlength := length_le_of_token h
        exact ih tail.length (by omega) tail rfl

/-- More rounds than there are characters make no difference. -/
theorem tokensFrom_rounds {cs : List Char} {n m : Nat} (hn : cs.length ≤ n) (hm : cs.length ≤ m)
    (read : List PlacedToken) (pos : Nat) :
    tokensFrom read pos n cs = tokensFrom read pos m cs := by
  induction cs using front_induction generalizing n m read pos with
  | nil => rw [tokensFrom_nil, tokensFrom_nil]
  | cons c rest hskip htoken =>
    obtain ⟨n, rfl⟩ := Nat.exists_eq_add_one.2 (Nat.lt_of_lt_of_le (Nat.succ_pos _) hn)
    obtain ⟨m, rfl⟩ := Nat.exists_eq_add_one.2 (Nat.lt_of_lt_of_le (Nat.succ_pos _) hm)
    rw [List.length_cons] at hn hm
    rw [tokensFrom_cons, tokensFrom_cons]
    cases hfront : Front.of c rest with
    | skip width tail =>
      have hlength := length_le_of_skip hfront
      exact hskip _ _ hfront (by omega) (by omega) _ _
    | token token width tail =>
      have hlength := length_le_of_token hfront
      exact htoken _ _ _ hfront (by omega) (by omega) _ _
    | fault cause offset => rfl

/-- The tokens of a text are those of its front and of what is left behind it. -/
theorem tokensFrom_front (read : List PlacedToken) (pos : Nat) (c : Char) (rest : List Char) :
    tokensFrom read pos (c :: rest).length (c :: rest) =
      match Front.of c rest with
      | .skip width tail => tokensFrom read (pos + width) tail.length tail
      | .token token width tail => tokensFrom (⟨token, pos⟩ :: read) (pos + width) tail.length tail
      | .fault cause offset => .error ⟨cause, pos + offset⟩ := by
  rw [List.length_cons, tokensFrom_cons]
  cases hfront : Front.of c rest with
  | skip width tail => exact tokensFrom_rounds (length_le_of_skip hfront) le_rfl _ _
  | token token width tail => exact tokensFrom_rounds (length_le_of_token hfront) le_rfl _ _
  | fault cause offset => rfl

/-! ## Line by line -/

/-- Behind a text with tokens and a line end, the lexer goes on as if it had stopped between. -/
theorem tokensFrom_line {a : List Char} {read placed : List PlacedToken} {pos : Nat}
    (h : tokensFrom read pos a.length a = .ok placed) (b : List Char) :
    tokensFrom read pos (a ++ '\n' :: b).length (a ++ '\n' :: b) =
      tokensFrom placed.reverse (pos + utf8Width a + 1) b.length b := by
  induction a using front_induction generalizing read pos with
  | nil =>
    rw [tokensFrom_nil] at h
    obtain rfl := Except.ok.inj h
    have hline : Front.of '\n' b = .skip 1 b := rfl
    rw [List.nil_append, tokensFrom_front, hline, List.reverse_reverse]
    rfl
  | cons c rest hskip htoken =>
    have hpos : ∀ used tail : List Char, pos + utf8Width (c :: used) + utf8Width tail + 1 =
        pos + utf8Width (c :: (used ++ tail)) + 1 := fun used tail => by
      rw [← List.cons_append, utf8Width_append, Nat.add_assoc pos]
    rw [tokensFrom_front] at h
    rw [List.cons_append, tokensFrom_front]
    cases hfront : Front.of c rest with
    | skip width tail =>
      simp only [hfront] at h
      obtain ⟨used, rfl, rfl, -, hline⟩ := skipsGap_of c rest width tail hfront
      rcases hline b with hline | ⟨rfl, hline⟩
      · rw [hline, ← hpos]
        exact hskip _ _ hfront h
      · rw [tokensFrom_nil] at h
        obtain rfl := Except.ok.inj h
        rw [hline, ← hpos, List.reverse_reverse]
        rfl
    | token token width tail =>
      simp only [hfront] at h
      obtain ⟨used, rfl, rfl, hmore⟩ := endsToken_of c rest token width tail hfront
      rw [List.append_assoc, hmore _ (mayFollow_line tail b), ← hpos]
      exact htoken _ _ _ hfront h
    | fault cause offset => simp [hfront] at h

theorem lexes_of_tokensFrom {cs : List Char} {read placed : List PlacedToken} {pos : Nat}
    (h : tokensFrom read pos cs.length cs = .ok placed) :
    ∃ new, placed = read.reverse ++ new ∧ Lexes cs (new.map PlacedToken.token) := by
  induction cs using front_induction generalizing read pos with
  | nil =>
    rw [tokensFrom_nil] at h
    exact ⟨[], by simpa [eq_comm] using h, lexes_nil⟩
  | cons c rest hskip htoken =>
    rw [tokensFrom_front] at h
    cases hfront : Front.of c rest with
    | skip width tail =>
      rw [hfront] at h
      obtain ⟨new, hnew, htail⟩ := hskip _ _ hfront h
      exact ⟨new, hnew, lexes_of_skip hfront (length_le_of_skip hfront) htail⟩
    | token token width tail =>
      rw [hfront] at h
      obtain ⟨new, hnew, htail⟩ := htoken _ _ _ hfront h
      refine ⟨⟨token, pos⟩ :: new, by simpa using hnew, ?_⟩
      exact lexes_of_token hfront (length_le_of_token hfront) htail
    | fault cause offset => simp [hfront] at h

/-- The tokens of a text do not depend on what was read before it. -/
theorem lexes_of_tokenize {text : String} {placed : List PlacedToken}
    (h : tokenize text = .ok placed) : Lexes text.toList (placed.map PlacedToken.token) := by
  obtain ⟨new, rfl, hlexes⟩ := lexes_of_tokensFrom h
  exact hlexes

/-- The tokens of two texts with a line end between them. -/
theorem lexes_line {a b : List Char} {us vs : List Token} (ha : Lexes a us) (hb : Lexes b vs) :
    Lexes (a ++ '\n' :: b) (us ++ vs) := by
  intro read pos rounds hrounds
  obtain ⟨first, hfirst, rfl⟩ := ha read pos a.length le_rfl
  obtain ⟨second, hsecond, rfl⟩ :=
    hb (read.reverse ++ first).reverse (pos + utf8Width a + 1) b.length le_rfl
  refine ⟨first ++ second, ?_, List.map_append⟩
  rw [tokensFrom_rounds hrounds le_rfl, tokensFrom_line hfirst, hsecond]
  simp

end Stubwright.Source
