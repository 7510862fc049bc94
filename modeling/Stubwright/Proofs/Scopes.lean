import Mathlib.Data.List.Infix
import Stubwright.Proofs.Trace

/-!
# Nested scopes

The markers in a list of entries say which scopes are open at each point. They are well nested when
every marker that opens a scope has one marker that closes it, with nothing but the inside of this
scope between them. What a trace leaves in a log is well nested, and the path of each of its entries
can be told from the markers before it.

## Main definitions

* `openScopes` — the scopes that are open behind entries
* `scopePaths` — the scopes around each of the entries
* `Closes` — a marker closes the scope that another one opens
* `WellNested` — markers in pairs, none of which overlap

## Main results

* `Trace.wellNested_entries` — the entries of a trace are well nested
* `Trace.map_path_entries` — the paths of a trace are told by the markers before each entry
-/

namespace Stubwright

/-! ## Open scopes -/

namespace LogEntry

/-- The scopes that are open behind an entry, when `scopes` are open in front of it. -/
def openBehind (scopes : List String) (entry : LogEntry) : List String :=
  match entry.event with
  | .push => scopes ++ [entry.text]
  | .pop => scopes.dropLast
  | .message _ => scopes

/-- The scopes around an entry, when `scopes` are open in front of it. A marker stands inside of the
scope that it opens or closes. -/
def enclosing (scopes : List String) (entry : LogEntry) : List String :=
  match entry.event with
  | .push => scopes ++ [entry.text]
  | .pop | .message _ => scopes

end LogEntry

/-- The scopes that are open behind entries, when `scopes` are open in front of them. -/
def openScopes (scopes : List String) (entries : List LogEntry) : List String :=
  entries.foldl LogEntry.openBehind scopes

/-- The scopes around each of the entries, when `scopes` are open in front of them. Only the markers
are asked, and each of them only for the name of its scope. -/
def scopePaths (scopes : List String) : List LogEntry → List (List String)
  | [] => []
  | entry :: rest => entry.enclosing scopes :: scopePaths (entry.openBehind scopes) rest

@[simp] theorem openScopes_nil (scopes : List String) : openScopes scopes [] = scopes := rfl

@[simp] theorem openScopes_cons (scopes : List String) (entry : LogEntry)
    (rest : List LogEntry) :
    openScopes scopes (entry :: rest) = openScopes (entry.openBehind scopes) rest := rfl

@[simp] theorem openScopes_append (scopes : List String) (first second : List LogEntry) :
    openScopes scopes (first ++ second) = openScopes (openScopes scopes first) second :=
  List.foldl_append

@[simp] theorem scopePaths_append (scopes : List String) (first second : List LogEntry) :
    scopePaths scopes (first ++ second) =
      scopePaths scopes first ++ scopePaths (openScopes scopes first) second := by
  induction first generalizing scopes with
  | nil => rfl
  | cons entry rest ih => exact congrArg (_ :: ·) (ih _)

/-! ## Pairs of markers -/

/-- The marker at `j` closes the scope that the marker at `i` opens: both name the same scope at the
same depth, and every entry between them lies in this scope, the markers in a deeper one. -/
structure Closes (entries : List LogEntry) (i j : Nat) : Prop where
  lt : i < j
  markers : ∃ opening closing, entries[i]? = some opening ∧ opening.event = .push ∧
    entries[j]? = some closing ∧ closing.event = .pop ∧ closing.path = opening.path ∧
      ∀ k entry, i < k → k < j → entries[k]? = some entry →
        opening.path <+: entry.path ∧ (entry.isMarker → entry.path ≠ opening.path)

/-- Every marker has a partner, and no two pairs of partners overlap. -/
structure WellNested (entries : List LogEntry) : Prop where
  closed : ∀ i entry, entries[i]? = some entry → entry.event = .push → ∃! j, Closes entries i j
  opened : ∀ j entry, entries[j]? = some entry → entry.event = .pop → ∃! i, Closes entries i j
  nested : ∀ i j k l, Closes entries i j → Closes entries k l → i < k → k < j → l < j

namespace Closes

variable {entries : List LogEntry} {i j k l : Nat}

/-- What closes a scope comes before anything else that could close it. -/
theorem not_lt_of_opening (h : Closes entries i j) (h' : Closes entries i k) : ¬ j < k := by
  intro hlt
  obtain ⟨opening, closing, hopening, -, hclosing, hpop, hpath, -⟩ := h.markers
  obtain ⟨opening', -, hopening', -, -, -, -, hbetween⟩ := h'.markers
  obtain rfl : opening = opening' := Option.some.inj (hopening.symm.trans hopening')
  have hmarker : closing.isMarker = true := by simp [LogEntry.isMarker, hpop]
  exact (hbetween j closing h.lt hlt hclosing).2 hmarker hpath

/-- What opens a scope comes behind anything else that could open it. -/
theorem not_lt_of_closing (h : Closes entries i k) (h' : Closes entries j k) : ¬ i < j := by
  intro hlt
  obtain ⟨opening, closing, -, -, hclosing, -, hpath, hbetween⟩ := h.markers
  obtain ⟨opening', closing', hopening', hpush, hclosing', -, hpath', -⟩ := h'.markers
  obtain rfl : closing = closing' := Option.some.inj (hclosing.symm.trans hclosing')
  have hmarker : opening'.isMarker = true := by simp [LogEntry.isMarker, hpush]
  exact (hbetween j opening' hlt h'.lt hopening').2 hmarker (hpath'.symm.trans hpath)

theorem unique_closing (h : Closes entries i j) (h' : Closes entries i k) : j = k :=
  le_antisymm (not_lt.1 (h'.not_lt_of_opening h)) (not_lt.1 (h.not_lt_of_opening h'))

theorem unique_opening (h : Closes entries i k) (h' : Closes entries j k) : i = j :=
  le_antisymm (not_lt.1 (h'.not_lt_of_closing h)) (not_lt.1 (h.not_lt_of_closing h'))

/-- A scope that is opened inside of another one is closed inside of it. -/
theorem lt_of_lt (h : Closes entries i j) (h' : Closes entries k l) (hik : i < k) (hkj : k < j) :
    l < j := by
  by_contra hjl
  obtain ⟨opening, closing, -, -, hclosing, hpop, hpath, hbetween⟩ := h.markers
  obtain ⟨opening', closing', hopening', hpush, hclosing', hpop', hpath', hbetween'⟩ := h'.markers
  have hmarker : opening'.isMarker = true := by simp [LogEntry.isMarker, hpush]
  obtain ⟨hextends, hne⟩ := hbetween k opening' hik hkj hopening'
  -- If it were still open where the outer one is closed, the paths would extend each other.
  rcases Nat.lt_or_eq_of_le (not_lt.1 hjl) with hlt | rfl
  · obtain ⟨hextends', -⟩ := hbetween' j closing hkj hlt hclosing
    rw [hpath] at hextends'
    exact hne hmarker (hextends'.eq_of_length_le hextends.length_le)
  · obtain rfl : closing = closing' := Option.some.inj (hclosing.symm.trans hclosing')
    exact hne hmarker (hpath'.symm.trans hpath)

/-- Partners stay partners among further entries. -/
theorem within (h : Closes entries i j) (before after : List LogEntry) :
    Closes (before ++ entries ++ after) (before.length + i) (before.length + j) := by
  obtain ⟨hlt, opening, closing, hopening, hpush, hclosing, hpop, hpath, hbetween⟩ := h
  have hj : j < entries.length := (List.getElem?_eq_some_iff.1 hclosing).1
  have hat : ∀ k, k < entries.length →
      (before ++ entries ++ after)[before.length + k]? = entries[k]? := by
    intro k hk
    rw [List.append_assoc, List.getElem?_append_right (Nat.le_add_right _ _),
      Nat.add_sub_cancel_left, List.getElem?_append_left hk]
  refine ⟨by omega, opening, closing, (hat i (by omega)).trans hopening, hpush,
    (hat j hj).trans hclosing, hpop, hpath, fun k entry hik hkj hentry => ?_⟩
  obtain ⟨k, rfl⟩ : ∃ k', k = before.length + k' := ⟨k - before.length, by omega⟩
  rw [hat k (by omega)] at hentry
  exact hbetween k entry (by omega) (by omega) hentry

end Closes

/-- It is enough to find a partner for every marker: there is never a second one. -/
theorem wellNested_of_partners {entries : List LogEntry}
    (h : ∀ i entry, entries[i]? = some entry →
      (entry.event = .push → ∃ j, Closes entries i j) ∧
        (entry.event = .pop → ∃ j, Closes entries j i)) : WellNested entries where
  closed i entry hentry hpush := by
    obtain ⟨j, hj⟩ := (h i entry hentry).1 hpush
    exact ⟨j, hj, fun k hk => hk.unique_closing hj⟩
  opened j entry hentry hpop := by
    obtain ⟨i, hi⟩ := (h j entry hentry).2 hpop
    exact ⟨i, hi, fun k hk => hk.unique_opening hi⟩
  nested _ _ _ _ houter hinner := houter.lt_of_lt hinner

namespace WellNested

variable {first second entries : List LogEntry}

theorem nil : WellNested [] := wellNested_of_partners fun i entry hentry => by simp at hentry

/-- A message has no partner. -/
theorem singleton {entry : LogEntry} (h : entry.isMarker = false) : WellNested [entry] := by
  refine wellNested_of_partners fun i found hfound => ?_
  obtain rfl : found = entry := List.mem_singleton.1 (List.mem_of_getElem? hfound)
  unfold LogEntry.isMarker at h
  constructor <;> intro hevent <;> simp [hevent] at h

theorem append (h : WellNested first) (h' : WellNested second) : WellNested (first ++ second) := by
  refine wellNested_of_partners fun i entry hentry => ?_
  rcases Nat.lt_or_ge i first.length with hi | hi
  · rw [List.getElem?_append_left hi] at hentry
    have hwithin : ∀ {j k}, Closes first j k → Closes (first ++ second) j k := fun hpair => by
      simpa using hpair.within [] second
    constructor <;> intro hevent
    · obtain ⟨j, hj, -⟩ := h.closed i entry hentry hevent
      exact ⟨j, hwithin hj⟩
    · obtain ⟨j, hj, -⟩ := h.opened i entry hentry hevent
      exact ⟨j, hwithin hj⟩
  · obtain ⟨i, rfl⟩ := Nat.exists_eq_add_of_le hi
    rw [List.getElem?_append_right hi, Nat.add_sub_cancel_left] at hentry
    have hwithin : ∀ {j k}, Closes second j k →
        Closes (first ++ second) (first.length + j) (first.length + k) := fun hpair => by
      simpa using hpair.within first []
    constructor <;> intro hevent
    · obtain ⟨j, hj, -⟩ := h'.closed i entry hentry hevent
      exact ⟨_, hwithin hj⟩
    · obtain ⟨j, hj, -⟩ := h'.opened i entry hentry hevent
      exact ⟨_, hwithin hj⟩

/-- A scope around entries that lie inside of it. -/
theorem inScope {opening closing : LogEntry} (h : WellNested entries)
    (hpush : opening.event = .push) (hpop : closing.event = .pop)
    (hpath : closing.path = opening.path) (hinside : ∀ entry ∈ entries,
      opening.path <+: entry.path ∧ (entry.isMarker → entry.path ≠ opening.path)) :
    WellNested (opening :: entries ++ [closing]) := by
  have hclosing : (opening :: entries ++ [closing])[entries.length + 1]? = some closing := by simp
  have hpair : Closes (opening :: entries ++ [closing]) 0 (entries.length + 1) := by
    refine ⟨Nat.succ_pos _, opening, closing, rfl, hpush, hclosing, hpop, hpath, ?_⟩
    intro k entry hpos hlt hentry
    obtain ⟨k, rfl⟩ := Nat.exists_eq_succ_of_ne_zero hpos.ne'
    rw [List.cons_append, List.getElem?_cons_succ,
      List.getElem?_append_left (Nat.lt_of_succ_lt_succ hlt)] at hentry
    exact hinside entry (List.mem_of_getElem? hentry)
  have hwithin : ∀ {j k}, Closes entries j k →
      Closes (opening :: entries ++ [closing]) (1 + j) (1 + k) := fun hpair =>
    hpair.within [opening] [closing]
  refine wellNested_of_partners fun i entry hentry => ?_
  rcases i with - | i
  · obtain rfl : opening = entry := Option.some.inj hentry
    exact ⟨fun _ => ⟨_, hpair⟩, fun hevent => by simp [hpush] at hevent⟩
  rw [List.cons_append, List.getElem?_cons_succ] at hentry
  rcases Nat.lt_trichotomy i entries.length with hi | rfl | hi
  · rw [List.getElem?_append_left hi] at hentry
    rw [Nat.add_comm]
    constructor <;> intro hevent
    · obtain ⟨j, hj, -⟩ := h.closed i entry hentry hevent
      exact ⟨_, hwithin hj⟩
    · obtain ⟨j, hj, -⟩ := h.opened i entry hentry hevent
      exact ⟨_, hwithin hj⟩
  · obtain rfl : closing = entry := by simpa using hentry
    exact ⟨fun hevent => by simp [hpop] at hevent, fun _ => ⟨_, hpair⟩⟩
  · have hlt := (List.getElem?_eq_some_iff.1 hentry).1
    rw [List.length_append, List.length_singleton] at hlt
    omega

end WellNested

/-! ## The entries of a trace -/

namespace Trace

variable {entry : LogEntry}

/-- Every entry of a trace lies in the scopes that the trace is logged in, and every marker deeper.
-/
theorem path_of_mem (trace : Trace) {path : List String} (h : entry ∈ trace.entries path) :
    path <+: entry.path ∧ (entry.isMarker → entry.path ≠ path) := by
  induction trace generalizing path with
  | done => cases h
  | message level text rest ih =>
    rcases List.mem_cons.1 h with rfl | hrest
    · exact ⟨List.prefix_rfl, fun hmarker => by cases hmarker⟩
    · exact ih hrest
  | scope name inner rest ihInner ihRest =>
    have hdeeper : path ++ [name] <+: entry.path →
        path <+: entry.path ∧ (entry.isMarker → entry.path ≠ path) := by
      intro hextends
      refine ⟨(List.prefix_append path [name]).trans hextends, fun _ heq => ?_⟩
      have hlength := hextends.length_le
      rw [heq, List.length_append, List.length_singleton] at hlength
      omega
    simp only [entries, List.cons_append, List.mem_cons, List.mem_append] at h
    rcases h with rfl | hinner | rfl | hrest
    · exact hdeeper List.prefix_rfl
    · exact hdeeper (ihInner hinner).1
    · exact hdeeper List.prefix_rfl
    · exact ihRest hrest

/-- The markers of a trace come in pairs around what is logged between them. -/
theorem wellNested_entries (trace : Trace) (path : List String) :
    WellNested (trace.entries path) := by
  induction trace generalizing path with
  | done => exact .nil
  | message level text rest ih =>
    have hmessage : WellNested [⟨level, path, .message text⟩] := .singleton rfl
    exact hmessage.append (ih path)
  | scope name inner rest ihInner ihRest =>
    let opening : LogEntry := ⟨.debug, path ++ [name], .push⟩
    let closing : LogEntry := ⟨.debug, path ++ [name], .pop⟩
    have hscope : WellNested (opening :: inner.entries (path ++ [name]) ++ [closing]) :=
      (ihInner _).inScope rfl rfl rfl fun entry hentry => inner.path_of_mem hentry
    simpa [entries] using hscope.append (ihRest path)

/-- A trace leaves the open scopes as they were. -/
theorem openScopes_entries (trace : Trace) (path scopes : List String) :
    openScopes scopes (trace.entries path) = scopes := by
  induction trace generalizing path scopes with
  | done => rfl
  | message level text rest ih => exact ih path scopes
  | scope name inner rest ihInner ihRest =>
    simp [entries, LogEntry.openBehind, LogEntry.text, ihInner, ihRest]

/-- The paths of a trace tell nothing but the scopes around it and its own markers. -/
theorem map_path_entries (trace : Trace) (outer scopes : List String) :
    (trace.entries (outer ++ scopes)).map (·.path) =
      (scopePaths scopes (trace.entries (outer ++ scopes))).map (outer ++ ·) := by
  induction trace generalizing scopes with
  | done => rfl
  | message level text rest ih => exact congrArg (_ :: ·) (ih scopes)
  | scope name inner rest ihInner ihRest =>
    simp [entries, scopePaths, LogEntry.enclosing, LogEntry.openBehind, LogEntry.text,
      openScopes_entries, ihInner, ihRest]

end Trace

end Stubwright
