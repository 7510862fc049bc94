import Mathlib.Algebra.Ring.Int.Defs
import Mathlib.Algebra.Ring.Nat
import Mathlib.Data.List.Basic
import Stubwright.Source.Parser.Basic

/-!
# What a parser reads

Two views of a parser over tokens. `Takes` says what stands behind a success: the tokens that were
read, and how they are related to the value. `Reaches` says what a run comes to on tokens of a known
shape, and that it fails where they nest too deep.

## Main definitions

* `Parser.Takes` — the tokens that a parser reads, related to its values
* `Parser.Advances` — a step that reads a token whenever it answers a value
* `Parser.Reaches` — a run that goes on in a known way as long as it fits

## Main results

* `many_eq`, `extend_eq` — repetition without a bound on its rounds
* `many_takes`, `extend_takes` — what repetition reads
-/

namespace Stubwright.Source.Parser

variable {α β ι : Type} {tokens : ι → List Token} {value : ι → α} {P : ι → Prop}

/-! ## Success of the basic parsers -/

/-- The second parser goes on with what the first one has left. -/
theorem bind_apply (p : Parser α) (f : α → Parser β) (ts : List Token) :
    (p >>= f) ts = match p ts with
      | .ok (a, rest) => f a rest
      | .error failure => .error failure := by
  simp only [bind, StateT.bind, Except.bind]
  cases p ts <;> rfl

/-- Two parsers answer one after another when each of them does. -/
theorem bind_eq_ok {p : Parser α} {f : α → Parser β} {ts : List Token} {r : β × List Token} :
    (p >>= f) ts = .ok r ↔ ∃ a rest, p ts = .ok (a, rest) ∧ f a rest = .ok r := by
  rw [bind_apply]
  cases p ts with
  | error failure => simp
  | ok result =>
    obtain ⟨a, rest⟩ := result
    grind

/-- A value is answered without reading anything. -/
theorem pure_eq_ok {a b : α} {ts rest : List Token} :
    (pure a : Parser α) ts = .ok (b, rest) ↔ b = a ∧ rest = ts := by
  have hpure : (pure a : Parser α) ts = .ok (a, ts) := rfl
  rw [hpure, Except.ok.injEq, Prod.mk.injEq]
  exact and_congr eq_comm eq_comm

/-- What is made of a value is read from the same tokens. -/
theorem map_eq_ok {f : α → β} {p : Parser α} {ts rest : List Token} {b : β} :
    (f <$> p) ts = .ok (b, rest) ↔ ∃ a, p ts = .ok (a, rest) ∧ b = f a := by
  rw [map_eq_pure_bind, bind_eq_ok]
  simp [pure_eq_ok]

/-- A token is taken when it comes next, and otherwise nothing is read. -/
theorem take?_eq_ok {token : Token} {found : Bool} {ts rest : List Token} :
    take? token ts = .ok (found, rest) ↔
      (found = true ∧ ts = token :: rest) ∨
        (found = false ∧ rest = ts ∧ ts.head? ≠ some token) := by
  unfold take?
  cases ts <;> grind

/-- A symbol is taken when it comes next, and otherwise nothing is read. -/
theorem symbol?_eq_ok {s : Symbol} {found : Bool} {ts rest : List Token} :
    symbol? s ts = .ok (found, rest) ↔
      (found = true ∧ ts = .symbol s :: rest) ∨
        (found = false ∧ rest = ts ∧ ts.head? ≠ some (.symbol s)) := take?_eq_ok

/-- A word is taken when it comes next, and otherwise nothing is read. -/
theorem word?_eq_ok {text : String} {found : Bool} {ts rest : List Token} :
    word? text ts = .ok (found, rest) ↔
      (found = true ∧ ts = .word text :: rest) ∨
        (found = false ∧ rest = ts ∧ ts.head? ≠ some (.word text)) := take?_eq_ok

/-- Looking at the next token reads nothing. -/
theorem peek_eq_ok {next : Option Token} {ts rest : List Token} :
    peek ts = .ok (next, rest) ↔ next = ts.head? ∧ rest = ts := by
  unfold peek
  grind

/-- Looking at the token behind the next one reads nothing. -/
theorem peekSecond_eq_ok {next : Option Token} {ts rest : List Token} :
    peekSecond ts = .ok (next, rest) ↔ next = ts[1]? ∧ rest = ts := by
  unfold peekSecond
  grind

/-- Looking for a symbol reads nothing. -/
theorem atSymbol_eq_ok {s : Symbol} {found : Bool} {ts rest : List Token} :
    atSymbol s ts = .ok (found, rest) ↔
      found = decide (ts.head? = some (.symbol s)) ∧ rest = ts := by
  unfold atSymbol
  simp [map_eq_ok, peek_eq_ok]
  grind

theorem skip_eq_ok {u : Unit} {ts rest : List Token} :
    skip ts = .ok (u, rest) ↔ rest = ts.drop 1 := by
  unfold skip
  grind

theorem skip_cons (t : Token) (ts : List Token) : skip (t :: ts) = .ok ((), ts) := rfl

theorem remaining_eq_ok {n : Nat} {ts rest : List Token} :
    remaining ts = .ok (n, rest) ↔ n = ts.length ∧ rest = ts := by
  unfold remaining
  grind

/-- A failure answers nothing. -/
theorem fail_ne_ok {fault : SyntaxFault} {ts : List Token} {r : α × List Token} :
    (fail fault : Parser α) ts ≠ .ok r := by simp [fail]

theorem failAt_ne_ok {n : Nat} {fault : SyntaxFault} {ts : List Token} {r : α × List Token} :
    (failAt n fault : Parser α) ts ≠ .ok r := by simp [failAt]

theorem unexpected_ne_ok {what : String} {ts : List Token} {r : α × List Token} :
    (unexpected what : Parser α) ts ≠ .ok r := by simp [unexpected]

/-- A symbol that is expected has to come next, and is read. -/
theorem expect_eq_ok {s : Symbol} {what : String} {u : Unit} {ts rest : List Token} :
    expect s what ts = .ok (u, rest) ↔ ts = .symbol s :: rest := by
  unfold expect
  simp only [bind_eq_ok, symbol?_eq_ok]
  constructor
  · rintro ⟨found, ts', (⟨rfl, rfl⟩ | ⟨rfl, -, -⟩), h⟩
    · simp [pure_eq_ok] at h
      simp [h]
    · simp [unexpected_ne_ok] at h
  · rintro rfl
    exact ⟨true, rest, .inl ⟨rfl, rfl⟩, by simp [pure_eq_ok]⟩

/-! ## Repetition -/

/-- A step that reads a token whenever it answers a value. -/
def Advances (item : Parser (Option α)) : Prop :=
  ∀ ts a rest, item ts = .ok (some a, rest) → rest.length < ts.length

/-- More rounds than there are tokens make no difference. -/
theorem manyUpTo_eq {item : Parser (Option α)} (hitem : Advances item) {n m : Nat}
    {ts : List Token} (hn : ts.length < n) (hm : ts.length < m) :
    manyUpTo item n ts = manyUpTo item m ts := by
  induction n generalizing m ts with
  | zero => omega
  | succ n ih =>
    cases m with
    | zero => omega
    | succ m =>
      simp only [manyUpTo, bind_apply]
      cases h : item ts with
      | error failure => rfl
      | ok result =>
        obtain ⟨_ | a, rest⟩ := result
        · rfl
        · have hrest := hitem ts a rest h
          have hrounds : manyUpTo item n rest = manyUpTo item m rest := ih (by omega) (by omega)
          simp only [bind_apply, hrounds]

/-- Repetition carries out its step, and goes on when the step answers a value. -/
theorem many_eq {item : Parser (Option α)} (hitem : Advances item) (ts : List Token) :
    many item ts = match item ts with
      | .ok (some a, rest) => (List.cons a <$> many item) rest
      | .ok (none, rest) => .ok ([], rest)
      | .error failure => .error failure := by
  rw [many, manyUpTo, bind_apply]
  cases h : item ts with
  | error failure => rfl
  | ok result =>
    obtain ⟨_ | a, rest⟩ := result
    · rfl
    · have hrest := hitem ts a rest h
      simp only [bind_pure_comp]
      rw [map_eq_pure_bind, map_eq_pure_bind, bind_apply, bind_apply, many,
        manyUpTo_eq hitem hrest (Nat.lt_succ_self _)]

/-- More rounds than there are tokens make no difference. -/
theorem extendUpTo_eq {step : α → Parser (Option α)} (hstep : ∀ a, Advances (step a)) {n m : Nat}
    {ts : List Token} {a : α} (hn : ts.length < n) (hm : ts.length < m) :
    extendUpTo step n a ts = extendUpTo step m a ts := by
  induction n generalizing m ts a with
  | zero => omega
  | succ n ih =>
    cases m with
    | zero => omega
    | succ m =>
      simp only [extendUpTo, bind_apply]
      cases h : step a ts with
      | error failure => rfl
      | ok result =>
        obtain ⟨_ | b, rest⟩ := result
        · rfl
        · have hrest := hstep a ts b rest h
          exact ih (by omega) (by omega)

/-- Extension carries out its step, and goes on when the step answers a new value. -/
theorem extend_eq {step : α → Parser (Option α)} (hstep : ∀ a, Advances (step a)) (a : α)
    (ts : List Token) :
    extend step a ts = match step a ts with
      | .ok (some b, rest) => extend step b rest
      | .ok (none, rest) => .ok (a, rest)
      | .error failure => .error failure := by
  rw [extend, extendUpTo, bind_apply]
  cases h : step a ts with
  | error failure => rfl
  | ok result =>
    obtain ⟨_ | b, rest⟩ := result
    · rfl
    · exact extendUpTo_eq hstep (hstep a ts b rest h) (Nat.lt_succ_self _)

/-! ## The tokens that a parser reads -/

/-- What a parser reads is related by `R` to the value that it answers. -/
def Takes (p : Parser α) (R : List Token → α → Prop) : Prop :=
  ∀ ts a rest, p ts = .ok (a, rest) → ∃ us, ts = us ++ rest ∧ R us a

/-- What an optional step reads: nothing without a value, and tokens related to its value. -/
def OrNothing (R : List Token → α → Prop) (us : List Token) (found : Option α) : Prop :=
  found.elim (us = []) (R us)

/-- What is known of the tokens that were read may be weakened. -/
theorem Takes.imp {p : Parser α} {R S : List Token → α → Prop} (hp : Takes p R)
    (h : ∀ us a, R us a → S us a) : Takes p S := fun ts a rest hok => by
  obtain ⟨us, rfl, hR⟩ := hp ts a rest hok
  exact ⟨us, rfl, h us a hR⟩

/-- A reader of items that are not nothing leaves fewer tokens with each item. -/
theorem Takes.advances {item : Parser (Option α)} {R : List Token → α → Prop}
    (hitem : Takes item (OrNothing R)) (hR : ∀ a, ¬ R [] a) : Advances item := by
  intro ts a rest hok
  obtain ⟨us, rfl, h⟩ := hitem ts _ rest hok
  cases us with
  | nil => exact absurd h (hR a)
  | cons t us =>
    simp only [List.cons_append, List.length_cons, List.length_append]
    omega

/-- Repetition reads the tokens of one value after another. -/
theorem many_takes {item : Parser (Option α)}
    (hitem : Takes item (OrNothing fun us a => ∃ i, P i ∧ us = tokens i ∧ a = value i)) :
    Takes (many item) fun us as =>
      ∃ is : List ι, (∀ i ∈ is, P i) ∧ us = is.flatMap tokens ∧ as = is.map value := by
  -- The number of rounds is generalized, since each step uses one up whatever it reads.
  have hrounds : ∀ n, Takes (manyUpTo item n) fun us as =>
      ∃ is : List ι, (∀ i ∈ is, P i) ∧ us = is.flatMap tokens ∧ as = is.map value := by
    intro n
    induction n with
    | zero =>
      intro ts as rest h
      obtain ⟨rfl, rfl⟩ := pure_eq_ok.1 h
      exact ⟨[], rfl, [], by simp, rfl, rfl⟩
    | succ n ih =>
      intro ts as rest h
      obtain ⟨found, rest', hfound, h⟩ := bind_eq_ok.1 h
      obtain ⟨us, rfl, hus⟩ := hitem _ _ _ hfound
      cases found with
      | none =>
        obtain ⟨rfl, rfl⟩ := pure_eq_ok.1 h
        obtain rfl : us = [] := hus
        exact ⟨[], rfl, [], by simp, rfl, rfl⟩
      | some a =>
        simp only [bind_pure_comp] at h
        obtain ⟨as', hmany, rfl⟩ := map_eq_ok.1 h
        obtain ⟨_, rfl, is, his, rfl, rfl⟩ := ih _ _ _ hmany
        obtain ⟨i, hi, rfl, rfl⟩ := hus
        refine ⟨tokens i ++ is.flatMap tokens, by simp, i :: is, ?_, rfl, rfl⟩
        simpa using ⟨hi, his⟩
  exact fun ts as rest h => hrounds _ ts as rest h

/-- Repetition ends with what its last step reads without a value. -/
theorem many_takes_until {item : Parser (Option α)} {last : List Token → Prop}
    (hadvances : Advances item)
    (hitem : Takes item fun us found =>
      found.elim (last us) fun a => ∃ i, P i ∧ us = tokens i ∧ a = value i) :
    Takes (many item) fun us as => ∃ (is : List ι) (vs : List Token), (∀ i ∈ is, P i) ∧ last vs ∧
      us = is.flatMap tokens ++ vs ∧ as = is.map value := by
  intro ts
  induction hn : ts.length using Nat.strongRecOn generalizing ts with
  | ind n ih =>
    intro as rest h
    rw [many_eq hadvances] at h
    cases hstep : item ts with
    | error failure => simp [hstep] at h
    | ok result =>
      obtain ⟨found, rest'⟩ := result
      obtain ⟨us, rfl, hus⟩ := hitem _ _ _ hstep
      cases found with
      | none =>
        obtain ⟨rfl, rfl⟩ : [] = as ∧ rest' = rest := by simpa [hstep] using h
        exact ⟨us, rfl, [], us, by simp, hus, rfl, rfl⟩
      | some a =>
        have hshorter := hadvances _ _ _ hstep
        simp only [hstep] at h
        obtain ⟨as', hmany, rfl⟩ := map_eq_ok.1 h
        obtain ⟨_, rfl, is, vs, his, hvs, rfl, rfl⟩ := ih _ (by omega) _ rfl _ _ hmany
        obtain ⟨i, hi, rfl, rfl⟩ := hus
        refine ⟨tokens i ++ (is.flatMap tokens ++ vs), by simp, i :: is, vs, ?_, hvs, by simp, rfl⟩
        simpa using ⟨hi, his⟩

/-- Extension keeps a relation between a value and the tokens read for it, which every step
keeps. -/
theorem extend_takes {step : α → Parser (Option α)} {R : List Token → α → Prop}
    (hstep : ∀ us a, R us a → Takes (step a) (OrNothing fun vs b => R (us ++ vs) b))
    {us : List Token} {a : α} (ha : R us a) : Takes (extend step a) fun vs b => R (us ++ vs) b := by
  -- The value and the tokens read for it change from round to round, so both are generalized.
  have hrounds : ∀ n us a, R us a → Takes (extendUpTo step n a) fun vs b => R (us ++ vs) b := by
    intro n
    induction n with
    | zero =>
      intro us a ha ts b rest h
      obtain ⟨rfl, rfl⟩ := pure_eq_ok.1 h
      exact ⟨[], rfl, by simpa using ha⟩
    | succ n ih =>
      intro us a ha ts b rest h
      obtain ⟨found, rest', hfound, h⟩ := bind_eq_ok.1 h
      obtain ⟨vs, rfl, hvs⟩ := hstep us a ha _ _ _ hfound
      cases found with
      | none =>
        obtain ⟨rfl, rfl⟩ := pure_eq_ok.1 h
        obtain rfl : vs = [] := hvs
        exact ⟨[], rfl, by simpa using ha⟩
      | some a' =>
        obtain ⟨ws, rfl, hws⟩ := ih _ a' hvs _ _ _ h
        exact ⟨vs ++ ws, by simp, by simpa using hws⟩
  exact fun ts b rest h => hrounds _ us a ha ts b rest h


/-! ## Lists with commas -/

/-- The tokens of several items with commas between them. -/
def commaTokens (tokens : ι → List Token) : List ι → List Token
  | [] => []
  | i :: is => tokens i ++ is.flatMap fun j => .symbol .comma :: tokens j

@[simp] theorem commaTokens_nil : commaTokens tokens [] = [] := rfl

@[simp] theorem commaTokens_cons (i : ι) (is : List ι) :
    commaTokens tokens (i :: is) =
      tokens i ++ is.flatMap fun j => .symbol .comma :: tokens j := rfl

/-- A comma and the item after it, the step of a list with commas. -/
def commaItem (item : Parser α) : Parser (Option α) := do
  if ← symbol? .comma then some <$> item else pure none

theorem commaItem_takes {item : Parser α} {R : List Token → α → Prop} (hitem : Takes item R) :
    Takes (commaItem item) (OrNothing fun us a => ∃ vs, us = .symbol .comma :: vs ∧ R vs a) := by
  intro ts found rest h
  obtain ⟨comma, ts', hcomma, hthen⟩ := bind_eq_ok.1 h
  obtain ⟨rfl, rfl⟩ | ⟨rfl, rfl, -⟩ := symbol?_eq_ok.1 hcomma
  · obtain ⟨a, ha, rfl⟩ := map_eq_ok.1 hthen
    obtain ⟨us, rfl, hR⟩ := hitem _ _ _ ha
    exact ⟨.symbol .comma :: us, rfl, us, rfl, hR⟩
  · obtain ⟨rfl, rfl⟩ := pure_eq_ok.1 hthen
    exact ⟨[], rfl, rfl⟩

theorem commaItem_advances {item : Parser α} {R : List Token → α → Prop} (hitem : Takes item R) :
    Advances (commaItem item) := (commaItem_takes hitem).advances fun _ => by simp

/-- A list with commas reads its items and a comma before each but the first. -/
theorem commaSeparated_takes {item : Parser α}
    (hitem : Takes item fun us a => ∃ i, P i ∧ us = tokens i ∧ a = value i) :
    Takes (commaSeparated item) fun us as =>
      ∃ is : List ι, is ≠ [] ∧ (∀ i ∈ is, P i) ∧ us = commaTokens tokens is ∧
        as = is.map value := by
  intro ts as rest h
  obtain ⟨first, ts', hfirst, h⟩ := bind_eq_ok.1 h
  obtain ⟨_, rfl, i, hi, rfl, rfl⟩ := hitem _ _ _ hfirst
  obtain ⟨more, ts'', hmore, h⟩ := bind_eq_ok.1 h
  obtain ⟨rfl, rfl⟩ := pure_eq_ok.1 h
  have hcomma : Takes (commaItem item) (OrNothing fun us a =>
      ∃ i, P i ∧ us = Token.symbol .comma :: tokens i ∧ a = value i) := by
    refine (commaItem_takes hitem).imp fun us found h => ?_
    cases found with
    | none => exact h
    | some a =>
      obtain ⟨_, rfl, i, hi, rfl, rfl⟩ := h
      exact ⟨i, hi, rfl, rfl⟩
  obtain ⟨_, rfl, is, his, rfl, rfl⟩ := many_takes hcomma _ _ _ hmore
  exact ⟨commaTokens tokens (i :: is), by simp, i :: is, by simp, by simpa using ⟨hi, his⟩, rfl,
    rfl⟩

/-- Items up to a closing symbol are none, or a list with commas. -/
theorem upTo_takes {close : Symbol} {what : String} {item : Parser α}
    (hitem : Takes item fun us a => ∃ i, P i ∧ us = tokens i ∧ a = value i) :
    Takes (upTo close what item) fun us as =>
      ∃ is : List ι, (∀ i ∈ is, P i) ∧ us = commaTokens tokens is ++ [.symbol close] ∧
        as = is.map value := by
  intro ts as rest h
  obtain ⟨closed, ts', hclosed, hthen⟩ := bind_eq_ok.1 h
  obtain ⟨rfl, rfl⟩ | ⟨rfl, rfl, -⟩ := symbol?_eq_ok.1 hclosed
  · obtain ⟨rfl, rfl⟩ := pure_eq_ok.1 hthen
    exact ⟨[.symbol close], rfl, [], by simp, rfl, rfl⟩
  · obtain ⟨items, ts'', hitems, hlast⟩ := bind_eq_ok.1 hthen
    obtain ⟨_, rfl, is, -, his, rfl, rfl⟩ := commaSeparated_takes hitem _ _ _ hitems
    obtain ⟨_, ts₃, hclose, hdone⟩ := bind_eq_ok.1 hlast
    obtain rfl := expect_eq_ok.1 hclose
    obtain ⟨rfl, rfl⟩ := pure_eq_ok.1 hdone
    exact ⟨_, by simp, is, his, rfl, rfl⟩

/-! ## What a run comes to -/

/-- A run that comes to `next` when it fits, and otherwise fails because of nesting. -/
def Reaches (fits : Prop) (run next : Except ParseFailure α) : Prop :=
  (fits → run = next) ∧ (¬ fits → ∃ left, run = .error ⟨.tooDeep, left⟩)

namespace Reaches

variable {fits fits' : Prop} {run mid next : Except ParseFailure α}

/-- Under a condition that holds, a run reaches what it comes to. -/
theorem of_eq (hfits : fits) (h : run = next) : Reaches fits run next :=
  ⟨fun _ => h, fun hnot => absurd hfits hnot⟩

/-- The condition of a run may be put in other words. -/
theorem congr (h : Reaches fits run next) (hiff : fits' ↔ fits) : Reaches fits' run next := by
  rwa [propext hiff]

/-- A run that reaches the next one reaches its end, under both conditions. -/
theorem trans (h : Reaches fits run mid) (h' : Reaches fits' mid next) :
    Reaches (fits ∧ fits') run next := by
  refine ⟨fun ⟨hfits, hfits'⟩ => (h.1 hfits).trans (h'.1 hfits'), fun hnot => ?_⟩
  by_cases hfits : fits
  · rw [h.1 hfits]
    exact h'.2 fun hfits' => hnot ⟨hfits, hfits'⟩
  · exact h.2 hfits

/-- Two parsers reach the end one after another, under both conditions. -/
theorem bind {p : Parser α} {f : α → Parser β} {ts rest : List Token} {a : α}
    {next : Except ParseFailure (β × List Token)} (hp : Reaches fits (p ts) (.ok (a, rest)))
    (hf : Reaches fits' (f a rest) next) : Reaches (fits ∧ fits') ((p >>= f) ts) next := by
  refine ⟨fun ⟨hfits, hfits'⟩ => ?_, fun hnot => ?_⟩
  · rw [bind_apply, hp.1 hfits]
    exact hf.1 hfits'
  · by_cases hfits : fits
    · rw [bind_apply, hp.1 hfits]
      exact hf.2 fun hfits' => hnot ⟨hfits, hfits'⟩
    · obtain ⟨left, hleft⟩ := hp.2 hfits
      exact ⟨left, by rw [bind_apply, hleft]⟩

/-- A run goes on where its first parser ends. -/
theorem step {p : Parser α} {f : α → Parser β} {ts rest : List Token} {a : α}
    {next : Except ParseFailure (β × List Token)} (hp : p ts = .ok (a, rest))
    (hf : Reaches fits (f a rest) next) : Reaches fits ((p >>= f) ts) next := by
  have hrun : (p >>= f) ts = f a rest := by rw [bind_apply, hp]
  rwa [hrun]

/-- A run whose last step cannot fail comes to what that step answers. -/
theorem finish {p : Parser α} {f : α → Parser β} {ts rest : List Token} {a : α}
    {next : Except ParseFailure (β × List Token)} (hp : Reaches fits (p ts) (.ok (a, rest)))
    (hf : f a rest = next) : Reaches fits ((p >>= f) ts) next :=
  (hp.bind (.of_eq trivial hf)).congr (and_true _).symm.to_iff

/-- What is made of a value is reached under the same condition. -/
theorem map {p : Parser α} {ts rest : List Token} {a : α} (f : α → β)
    (hp : Reaches fits (p ts) (.ok (a, rest))) :
    Reaches fits ((f <$> p) ts) (.ok (f a, rest)) := by
  rw [map_eq_pure_bind]
  exact hp.finish rfl

end Reaches

/-- Repetition reads item after item where each can be followed by the next one. -/
theorem many_reaches {item : Parser (Option α)} {fits : ι → Prop} (follows : List Token → Prop)
    (hadvances : Advances item) {is : List ι} {rest tail : List Token}
    (hitem : ∀ i ∈ is, ∀ rest, follows rest →
      Reaches (fits i) (item (tokens i ++ rest)) (.ok (some (value i), rest)))
    (hnext : ∀ i ∈ is, ∀ rest, follows (tokens i ++ rest)) (hrest : follows rest)
    (hend : item rest = .ok (none, tail)) :
    Reaches (∀ i ∈ is, fits i) (many item (is.flatMap tokens ++ rest))
      (.ok (is.map value, tail)) := by
  induction is with
  | nil => exact .of_eq (by simp) (by simp [many_eq hadvances, hend])
  | cons i is ih =>
    have hmore := ih (fun j hj => hitem j (by simp [hj])) (fun j hj => hnext j (by simp [hj]))
    have hfollows : follows (is.flatMap tokens ++ rest) := by
      cases is with
      | nil => exact hrest
      | cons j is => simpa using hnext j (by simp) (is.flatMap tokens ++ rest)
    have hfirst := hitem i (by simp) _ hfollows
    rw [List.flatMap_cons, List.append_assoc, many_eq hadvances]
    have hiff : (∀ j ∈ i :: is, fits j) ↔ fits i ∧ ∀ j ∈ is, fits j := by simp
    refine Reaches.congr ⟨?_, ?_⟩ hiff
    · rintro ⟨hfits, hall⟩
      simp only [hfirst.1 hfits]
      exact (hmore.map (List.cons (value i))).1 hall
    · intro hnot
      by_cases hfits : fits i
      · simp only [hfirst.1 hfits]
        exact (hmore.map (List.cons (value i))).2 fun hall => hnot ⟨hfits, hall⟩
      · obtain ⟨left, hleft⟩ := hfirst.2 hfits
        exact ⟨left, by simp only [hleft]⟩

/-- Extension goes on with the value of its step. -/
theorem extend_reaches {step : α → Parser (Option α)} (hstep : ∀ a, Advances (step a))
    {fits : Prop} {a b : α} {ts rest : List Token}
    (h : Reaches fits (step a ts) (.ok (some b, rest))) :
    Reaches fits (extend step a ts) (extend step b rest) := by
  rw [extend_eq hstep]
  refine ⟨fun hfits => by simp only [h.1 hfits], fun hnot => ?_⟩
  obtain ⟨left, hleft⟩ := h.2 hnot
  exact ⟨left, by simp only [hleft]⟩

/-- A list with commas reads its items where each may be followed by a comma, and stops where no
comma follows. -/
theorem commaSeparated_reaches {item : Parser α} {R : List Token → α → Prop} {fits : ι → Prop}
    (follows : List Token → Prop) (htakes : Takes item R) {is : List ι} {rest : List Token}
    (hne : is ≠ [])
    (hitem : ∀ i ∈ is, ∀ rest, follows rest →
      Reaches (fits i) (item (tokens i ++ rest)) (.ok (value i, rest)))
    (hcomma : ∀ rest, follows (.symbol .comma :: rest)) (hrest : follows rest)
    (hend : rest.head? ≠ some (.symbol .comma)) :
    Reaches (∀ i ∈ is, fits i) (commaSeparated item (commaTokens tokens is ++ rest))
      (.ok (is.map value, rest)) := by
  cases is with
  | nil => exact absurd rfl hne
  | cons i is =>
    have hmore : Reaches (∀ j ∈ is, fits j)
        (many (commaItem item) (is.flatMap (fun j => .symbol .comma :: tokens j) ++ rest))
        (.ok (is.map value, rest)) := by
      refine many_reaches follows (commaItem_advances htakes) ?_ ?_ hrest ?_
      · intro j hj rest hrest
        refine .step (symbol?_eq_ok.2 (.inl ⟨rfl, rfl⟩)) ?_
        exact (hitem j (by simp [hj]) rest hrest).map some
      · exact fun j _ rest => hcomma _
      · exact bind_eq_ok.2 ⟨false, rest, symbol?_eq_ok.2 (.inr ⟨rfl, rfl, hend⟩), rfl⟩
    have hfollows : follows (is.flatMap (fun j => .symbol .comma :: tokens j) ++ rest) := by
      cases is with
      | nil => exact hrest
      | cons j is => exact hcomma _
    rw [commaTokens_cons, List.append_assoc]
    refine .congr (.bind (hitem i (by simp) _ hfollows) (hmore.finish rfl)) (by simp)

/-- Items up to a closing symbol, none of which begins with that symbol. -/
theorem upTo_reaches {close : Symbol} {what : String} {item : Parser α}
    {R : List Token → α → Prop} {fits : ι → Prop} (follows : List Token → Prop)
    (htakes : Takes item R) {is : List ι} {rest : List Token}
    (hitem : ∀ i ∈ is, ∀ rest, follows rest →
      Reaches (fits i) (item (tokens i ++ rest)) (.ok (value i, rest)))
    (hcomma : ∀ rest, follows (.symbol .comma :: rest))
    (hclose : follows (.symbol close :: rest)) (hne : close ≠ .comma)
    (hstart : ∀ i ∈ is, ∀ rest, (tokens i ++ rest).head? ≠ some (.symbol close)) :
    Reaches (∀ i ∈ is, fits i)
      (upTo close what item (commaTokens tokens is ++ .symbol close :: rest))
      (.ok (is.map value, rest)) := by
  cases his : is with
  | nil =>
    exact .of_eq (by simp) (bind_eq_ok.2 ⟨true, rest, symbol?_eq_ok.2 (.inl ⟨rfl, rfl⟩), rfl⟩)
  | cons i is' =>
    rw [← his]
    -- The list is not taken for an empty one, since no item begins with the closing symbol.
    have hopen : symbol? close (commaTokens tokens is ++ .symbol close :: rest) =
        .ok (false, commaTokens tokens is ++ .symbol close :: rest) := by
      refine symbol?_eq_ok.2 (.inr ⟨rfl, rfl, ?_⟩)
      rw [his, commaTokens_cons, List.append_assoc]
      exact hstart i (by simp [his]) _
    refine .step hopen ?_
    refine (commaSeparated_reaches follows htakes (by simp [his]) hitem hcomma hclose ?_).finish ?_
    · simpa using hne
    · exact bind_eq_ok.2 ⟨(), rest, expect_eq_ok.2 rfl, rfl⟩

end Stubwright.Source.Parser
