import Mathlib.Data.String.Basic
import Stubwright.Proofs.Source.Lines
import Stubwright.Source.Fragment

/-!
# Where tokens stand

The positions of tokens are byte positions. They cut a text into parts: what stands before the first
token is white space and comments, and every other part is the text of one token with what is
skipped behind it. A line end settles the lexer, so the tokens behind it are those of the lines that
follow, moved on by the bytes in front of them.

## Main definitions

* `CutAt` — characters are cut into parts with one token each
* `boundaries` — where the tokens of a text begin and where the text ends
* `IsPartition` — the tokens of a text cut it into the parts that they are read from
* `PlacedToken.shift`, `SyntaxError.shift` — the same token or error with more text in front

## Main results

* `isPartition_of_tokenize` — the tokens of a text cut it into the parts that they are read from
* `tokenize_line` — the tokens of two texts with a line end between them, with their positions
-/

namespace Stubwright.Source

open Text

/-! ## Bytes of texts -/

private theorem utf8Width_eq_utf8Len (cs : List Char) : utf8Width cs = String.utf8Len cs := by
  induction cs with
  | nil => rfl
  | cons c cs ih => rw [utf8Width_cons, String.utf8Len_cons, ih, Nat.add_comm]

private theorem utf8Width_toList (text : String) : utf8Width text.toList = text.utf8ByteSize := by
  rw [utf8Width_eq_utf8Len, String.utf8Len_toList]

private theorem utf8Width_pos {cs : List Char} (h : cs ≠ []) : 0 < utf8Width cs := by
  cases cs with
  | nil => exact absurd rfl h
  | cons c cs => exact Nat.lt_of_lt_of_le c.utf8Size_pos (Nat.le_add_right _ _)

/-- The part of a text between two byte positions. -/
def slice (text : String) (first last : Nat) : String := String.Pos.Raw.extract text ⟨first⟩ ⟨last⟩

private theorem slice_append (before part after : List Char) :
    slice (String.ofList (before ++ part ++ after)) (utf8Width before)
      (utf8Width before + utf8Width part) = String.ofList part := by
  simpa only [slice, utf8Width_eq_utf8Len] using String.extract_of_valid before part after

/-- The bytes of a part at the front of a text end between two characters or with the text. -/
theorem isValid_of_isPrefix {before cs : List Char} (h : before <+: cs) :
    String.Pos.Raw.IsValid (String.ofList cs) ⟨utf8Width before⟩ := by
  obtain ⟨after, rfl⟩ := h
  refine String.Pos.Raw.isValid_iff_exists_append.2
    ⟨String.ofList before, String.ofList after, String.ofList_append, ?_⟩
  rw [String.rawEndPos_ofList, utf8Width_eq_utf8Len]

/-! ## Parts -/

/-- Characters that begin at byte `pos` are cut into parts, each of which is read by itself as one
of the tokens, and every token stands where its part begins. -/
inductive CutAt : Nat → List Char → List PlacedToken → Prop where
  | nil (pos : Nat) : CutAt pos [] []
  | cons {pos : Nat} {part rest : List Char} {token : Token} {placed : List PlacedToken}
      (hpart : tokenize (String.ofList part) = .ok [⟨token, 0⟩])
      (hrest : CutAt (pos + utf8Width part) rest placed) :
      CutAt pos (part ++ rest) (⟨token, pos⟩ :: placed)

/-- A token that stands at the front of a text is read again when only a part of the white space
and the comments behind it is left. -/
theorem tokenize_part {c : Char} {used tail gap : List Char} {token : Token} {width : Nat}
    (hfront : ∀ more, MayFollow tail more → Front.of c (used ++ more) = .token token width more)
    (hstart : gap <+: tail) (hgap : IsGap gap) :
    tokenize (String.ofList (c :: (used ++ gap))) = .ok [⟨token, 0⟩] := by
  obtain ⟨placed, hplaced, hnone⟩ := lexes_gap hgap [⟨token, 0⟩] (0 + width) gap.length le_rfl
  obtain rfl : placed = [] := List.map_eq_nil_iff.1 hnone
  have hgapFront := hfront gap (mayFollow_of_isPrefix hstart)
  rw [tokenize, String.toList_ofList, tokensFrom_front, hgapFront]
  exact hplaced

/-- What the lexer reads of a text is a gap and parts with a token each. -/
theorem exists_cutAt {cs : List Char} {read placed : List PlacedToken} {pos : Nat}
    (h : tokensFrom read pos cs.length cs = .ok placed) :
    ∃ gap rest new, cs = gap ++ rest ∧ IsGap gap ∧ placed = read.reverse ++ new ∧
      CutAt (pos + utf8Width gap) rest new := by
  induction cs using front_induction generalizing read pos with
  | nil =>
    rw [tokensFrom_nil] at h
    exact ⟨[], [], [], rfl, .nil, by simpa [eq_comm] using h, .nil _⟩
  | cons c rest hskip htoken =>
    rw [tokensFrom_front] at h
    cases hfront : Front.of c rest with
    | skip width tail =>
      simp only [hfront] at h
      obtain ⟨gap, parts, new, rfl, hgap, rfl, hcut⟩ := hskip _ _ hfront h
      obtain ⟨used, rfl, rfl, hmore, -⟩ := skipsGap_of c rest width _ hfront
      refine ⟨c :: (used ++ gap), parts, new, by simp, hmore gap (by simp) hgap, rfl, ?_⟩
      rwa [← List.cons_append, utf8Width_append, ← Nat.add_assoc]
    | token token width tail =>
      simp only [hfront] at h
      obtain ⟨gap, parts, new, rfl, hgap, rfl, hcut⟩ := htoken _ _ _ hfront h
      obtain ⟨used, rfl, rfl, hmore⟩ := endsToken_of c rest token width _ hfront
      refine ⟨[], c :: (used ++ gap) ++ parts, ⟨token, pos⟩ :: new, by simp, .nil, by simp, ?_⟩
      refine .cons (tokenize_part hmore (by simp) hgap) ?_
      rwa [← List.cons_append, utf8Width_append, ← Nat.add_assoc]
    | fault cause offset => simp [hfront] at h

private theorem ne_nil_of_tokenize {part : List Char} {token : PlacedToken}
    (h : tokenize (String.ofList part) = .ok [token]) : part ≠ [] := by
  rintro rfl
  cases h

/-- Where the tokens of characters that begin at byte `pos` stand, and where the characters end. -/
def edges (pos : Nat) (cs : List Char) (placed : List PlacedToken) : List Nat :=
  placed.map PlacedToken.pos ++ [pos + utf8Width cs]

private theorem edges_cons (pos : Nat) (part rest : List Char) (token : Token)
    (placed : List PlacedToken) :
    edges pos (part ++ rest) (⟨token, pos⟩ :: placed) =
      pos :: edges (pos + utf8Width part) rest placed := by
  rw [edges, edges, utf8Width_append, ← Nat.add_assoc]
  rfl

namespace CutAt

variable {pos : Nat} {cs : List Char} {placed : List PlacedToken}

private theorem head?_edges (h : CutAt pos cs placed) : (edges pos cs placed).head? = some pos := by
  cases h with
  | nil => rfl
  | cons => rfl

/-- Every part takes bytes, so its token stands before the next one. -/
theorem pairwise_edges (h : CutAt pos cs placed) :
    (∀ p ∈ edges pos cs placed, pos ≤ p) ∧ (edges pos cs placed).Pairwise (· < ·) := by
  induction h with
  | nil pos => simp [edges]
  | @cons pos part rest token placed hpart hrest ih =>
    obtain ⟨hle, hpairwise⟩ := ih
    have hpos := utf8Width_pos (ne_nil_of_tokenize hpart)
    have hlt : ∀ p ∈ edges (pos + utf8Width part) rest placed, pos < p := fun p hp =>
      Nat.lt_of_lt_of_le (Nat.lt_add_of_pos_right hpos) (hle p hp)
    rw [edges_cons]
    refine ⟨fun p hp => ?_, List.pairwise_cons.2 ⟨hlt, hpairwise⟩⟩
    rcases List.mem_cons.1 hp with rfl | hp
    · exact le_rfl
    · exact (hlt p hp).le

/-- The text in front of a part, the part, and the text behind it. -/
theorem exists_part (h : CutAt pos cs placed) (i : Nat) (hi : i < placed.length) :
    ∃ before part after, cs = before ++ part ++ after ∧
      placed[i].pos = pos + utf8Width before ∧
      (edges pos cs placed)[i + 1]? = some (pos + utf8Width before + utf8Width part) ∧
      tokenize (String.ofList part) = .ok [⟨placed[i].token, 0⟩] := by
  induction h generalizing i with
  | nil => simp at hi
  | @cons pos part rest token placed hpart hrest ih =>
    rw [edges_cons, List.getElem?_cons_succ]
    cases i with
    | zero =>
      refine ⟨[], part, rest, rfl, rfl, ?_, hpart⟩
      rw [← List.head?_eq_getElem?, hrest.head?_edges]
      rfl
    | succ i =>
      obtain ⟨before, part', after, rfl, hpos, hnext, htoken⟩ := ih i (by simpa using hi)
      refine ⟨part ++ before, part', after, by simp, ?_, ?_, htoken⟩
      · rw [utf8Width_append, ← Nat.add_assoc]
        exact hpos
      · rw [utf8Width_append, ← Nat.add_assoc]
        exact hnext

/-- Every edge lies behind a part of the characters. -/
theorem exists_prefix_of_mem_edges (h : CutAt pos cs placed) {p : Nat}
    (hp : p ∈ edges pos cs placed) : ∃ before, before <+: cs ∧ p = pos + utf8Width before := by
  rcases List.mem_append.1 hp with hp | hp
  · obtain ⟨token, htoken, rfl⟩ := List.mem_map.1 hp
    obtain ⟨i, hi, rfl⟩ := List.getElem_of_mem htoken
    obtain ⟨before, part, after, rfl, hplace, -⟩ := h.exists_part i hi
    exact ⟨before, ⟨part ++ after, by simp⟩, hplace⟩
  · exact ⟨cs, List.prefix_refl _, List.mem_singleton.1 hp⟩

end CutAt

/-! ## The partition of a text -/

/-- The byte positions where the tokens of a text begin, and the one where the text ends. -/
def boundaries (text : String) (placed : List PlacedToken) : List Nat :=
  placed.map PlacedToken.pos ++ [text.utf8ByteSize]

/-- A parser that has tokens left stands where the first of them begins, and otherwise where the
text ends. -/
theorem getElem?_boundaries (text : String) (placed : List PlacedToken) {i : Nat}
    (hi : i ≤ placed.length) :
    (boundaries text placed)[i]? =
      some (positionOf placed text.utf8ByteSize (placed.length - i)) := by
  rw [boundaries, positionOf, Nat.sub_sub_self hi]
  rcases Nat.lt_or_eq_of_le hi with hlt | rfl
  · rw [List.getElem?_append_left (by simpa using hlt), List.getElem?_map]
    simp [hlt]
  · simp

/-- The tokens of a text cut it into the parts that they are read from. -/
structure IsPartition (text : String) (placed : List PlacedToken) : Prop where
  /-- Every boundary is the end of the text or lies in front of the next one. -/
  increasing : (boundaries text placed).Pairwise (· < ·)
  /-- Where no token is left, the text ends. -/
  ends : (boundaries text placed).getLast? = some (positionOf placed text.utf8ByteSize 0) ∧
    positionOf placed text.utf8ByteSize 0 = text.utf8ByteSize
  /-- No boundary lies inside a character. -/
  isValid : ∀ pos ∈ boundaries text placed, String.Pos.Raw.IsValid text ⟨pos⟩
  /-- Only white space and comments stand before the first token. -/
  gap : ∃ first, (boundaries text placed).head? = some first ∧ IsGap (slice text 0 first).toList
  /-- The part from a token to the next boundary is read by itself as that token. -/
  part : ∀ i (hi : i < placed.length), ∃ next, (boundaries text placed)[i + 1]? = some next ∧
    tokenize (slice text placed[i].pos next) = .ok [⟨placed[i].token, 0⟩]

/-- A text with tokens begins with white space and comments, and what follows is cut by the
tokens. -/
theorem exists_gap_of_tokenize {text : String} {placed : List PlacedToken}
    (h : tokenize text = .ok placed) :
    ∃ gap rest, text = String.ofList (gap ++ rest) ∧ IsGap gap ∧ CutAt (utf8Width gap) rest placed ∧
      boundaries text placed = edges (utf8Width gap) rest placed := by
  obtain ⟨gap, rest, new, hcs, hgap, hplaced, hcut⟩ := exists_cutAt h
  obtain rfl : placed = new := hplaced
  rw [Nat.zero_add] at hcut
  have htext : text = String.ofList (gap ++ rest) := by rw [← hcs, String.ofList_toList]
  refine ⟨gap, rest, htext, hgap, hcut, ?_⟩
  rw [boundaries, edges, ← utf8Width_toList, hcs, utf8Width_append]

/-- No token of a text begins inside a character, nor does the text end inside one. -/
theorem isValid_of_mem_boundaries {text : String} {placed : List PlacedToken}
    (h : tokenize text = .ok placed) {pos : Nat} (hpos : pos ∈ boundaries text placed) :
    String.Pos.Raw.IsValid text ⟨pos⟩ := by
  obtain ⟨gap, rest, rfl, -, hcut, hboundaries⟩ := exists_gap_of_tokenize h
  rw [hboundaries] at hpos
  obtain ⟨before, hbefore, rfl⟩ := hcut.exists_prefix_of_mem_edges hpos
  rw [← utf8Width_append]
  exact isValid_of_isPrefix ((List.prefix_append_right_inj gap).2 hbefore)

/-- The tokens of every text cut it into the parts that they are read from. -/
theorem isPartition_of_tokenize {text : String} {placed : List PlacedToken}
    (h : tokenize text = .ok placed) : IsPartition text placed := by
  obtain ⟨gap, rest, rfl, hgap, hcut, hboundaries⟩ := exists_gap_of_tokenize h
  have hend : ∀ size, positionOf placed size 0 = size := fun size => by simp [positionOf]
  refine ⟨?_, ⟨?_, hend _⟩, fun _ => isValid_of_mem_boundaries h, ⟨utf8Width gap, ?_, ?_⟩,
    fun i hi => ?_⟩
  · rw [hboundaries]
    exact hcut.pairwise_edges.2
  · rw [hend, boundaries, List.getLast?_concat]
  · rw [hboundaries, hcut.head?_edges]
  · have hslice := slice_append [] gap rest
    rw [utf8Width_nil, Nat.zero_add, List.nil_append] at hslice
    rwa [hslice, String.toList_ofList]
  · obtain ⟨before, part, after, rfl, hplace, hnext, htoken⟩ := hcut.exists_part i hi
    have hslice := slice_append (gap ++ before) part after
    rw [utf8Width_append] at hslice
    refine ⟨_, hboundaries ▸ hnext, ?_⟩
    rw [hplace, ← htoken, ← hslice]
    simp only [List.append_assoc]

/-- Comments, text literals and characters of several bytes are cut in the same way. -/
theorem isPartition_of_comments :
    IsPartition "/* é */ x=42L // ü\n==\"€\\n\"" [⟨.word "x", 9⟩, ⟨.symbol .assign, 10⟩,
      ⟨.integer 42, 11⟩, ⟨.symbol .equal, 21⟩, ⟨.quoted "€\n", 23⟩] :=
  isPartition_of_tokenize (by decide +kernel)

/-! ## Lines -/

/-- The same token with `bytes` more in front. -/
def PlacedToken.shift (bytes : Nat) (placed : PlacedToken) : PlacedToken :=
  { placed with pos := placed.pos + bytes }

/-- The same error with `bytes` more in front. -/
def SyntaxError.shift (bytes : Nat) (error : SyntaxError) : SyntaxError :=
  { error with pos := error.pos + bytes }

/-- What the lexer reads does not depend on how many bytes and which tokens came before. -/
theorem tokensFrom_shift (bytes : Nat) (earlier read : List PlacedToken) (pos rounds : Nat)
    (cs : List Char) :
    tokensFrom (read.map (PlacedToken.shift bytes) ++ earlier) (pos + bytes) rounds cs =
      match tokensFrom read pos rounds cs with
      | .ok placed => .ok (earlier.reverse ++ placed.map (PlacedToken.shift bytes))
      | .error error => .error (error.shift bytes) := by
  have hread : ∀ read : List PlacedToken, (read.map (PlacedToken.shift bytes) ++ earlier).reverse =
      earlier.reverse ++ read.reverse.map (PlacedToken.shift bytes) := fun read => by simp
  induction rounds generalizing read pos cs with
  | zero => exact congrArg Except.ok (hread read)
  | succ rounds ih =>
    cases cs with
    | nil =>
      rw [tokensFrom_nil, tokensFrom_nil]
      exact congrArg Except.ok (hread read)
    | cons c rest =>
      rw [tokensFrom_cons, tokensFrom_cons]
      -- The front is the same on both sides: it is read without a position.
      cases hfront : Front.of c rest with
      | skip width tail =>
        have hpos : pos + bytes + width = pos + width + bytes := Nat.add_right_comm ..
        simp only [hpos]
        exact ih read (pos + width) tail
      | token token width tail =>
        have hpos : pos + bytes + width = pos + width + bytes := Nat.add_right_comm ..
        simp only [hpos]
        exact ih (⟨token, pos⟩ :: read) (pos + width) tail
      | fault cause offset =>
        have hpos : pos + bytes + offset = pos + offset + bytes := Nat.add_right_comm ..
        simp only [hpos]
        rfl

/-- Behind a text with tokens and a line end, another text has the tokens or the error that it has
by itself, moved on by the bytes in front of it. -/
theorem tokenize_line {a : String} {placed : List PlacedToken} (h : tokenize a = .ok placed)
    (b : String) :
    tokenize (a ++ "\n" ++ b) =
      match tokenize b with
      | .ok more => .ok (placed ++ more.map (PlacedToken.shift (a.utf8ByteSize + 1)))
      | .error error => .error (error.shift (a.utf8ByteSize + 1)) := by
  have hline := tokensFrom_line h b.toList
  have hshift :=
    tokensFrom_shift (a.utf8ByteSize + 1) placed.reverse [] 0 b.toList.length b.toList
  rw [List.map_nil, List.nil_append, List.reverse_reverse] at hshift
  rw [utf8Width_toList, Nat.add_assoc] at hline
  have hcs : (a ++ "\n" ++ b).toList = a.toList ++ '\n' :: b.toList := by simp
  rw [tokenize, hcs]
  exact hline.trans hshift

/-- An open comment is over at the line end, and an error behind it is found where it is. -/
theorem tokenize_line_of_comment :
    tokenize ("x // é" ++ "\n" ++ "42L \"€\"") =
      .ok [⟨.word "x", 0⟩, ⟨.integer 42, 8⟩, ⟨.quoted "€", 12⟩] ∧
    tokenize ("x // é" ++ "\n" ++ "y \"open") = .error ⟨.unclosedText, 10⟩ := by
  have hcomment : tokenize "x // é" = .ok [⟨.word "x", 0⟩] := by decide +kernel
  have hmore : tokenize "42L \"€\"" = .ok [⟨.integer 42, 0⟩, ⟨.quoted "€", 4⟩] := by decide +kernel
  have herror : tokenize "y \"open" = .error ⟨.unclosedText, 2⟩ := by decide +kernel
  rw [tokenize_line hcomment, tokenize_line hcomment, hmore, herror]
  decide

end Stubwright.Source
