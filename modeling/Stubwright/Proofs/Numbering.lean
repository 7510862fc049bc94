import Mathlib.Order.Interval.Finset.Nat
import Stubwright.Proofs.Naming

/-!
# Numbering names

A base whose name is taken is numbered: the numbers are counted from 2 on until one makes the name
free. Nothing in the count bounds it. It comes to an end all the same, since the names in use are
finitely many and every number makes another name.

Bases are named in turn, and a name is in use as soon as it is given. A base that is written like a
numbered name may therefore find its own name taken, and gets a number as well.

## Main definitions

* `CountsTo` — a count of the numbers from one on, up to the first that makes the name free
* `NameFor` — the name of a base beside the names in use
* `InTurn` — bases that get their names one after another

## Main results

* `CountsTo.isLeast` — a count ends with the least number that makes the name free
* `CountsTo.le_card` — no more numbers are counted than there are names in use
* `uniqueNames_inTurn` — bases that are made distinct get their names in turn
-/

namespace Stubwright.Naming

/-! ## Counting -/

/-- Counting from `k` on, `n` is the first number that makes the name of the base free. -/
inductive CountsTo (base : String) (used : Finset String) : Nat → Nat → Prop
  | free {k : Nat} (h : numbered base k ∉ used) : CountsTo base used k k
  | taken {k n : Nat} (h : numbered base k ∈ used) (rest : CountsTo base used (k + 1) n) :
      CountsTo base used k n

theorem numbered_ne (base : String) (k : Nat) : numbered base k ≠ base := by
  intro h
  have hlength := congrArg (·.toList.length) h
  simp [numbered, Nat.toString_eq_repr, Nat.toList_repr, Nat.toDigits_ne_nil] at hlength

namespace CountsTo

variable {base : String} {used : Finset String} {k n : Nat}

/-- A count passes the numbers whose names are taken. -/
theorem of_forall_lt {d : Nat} (htaken : ∀ j < d, numbered base (k + j) ∈ used)
    (hfree : numbered base (k + d) ∉ used) : CountsTo base used k (k + d) := by
  induction d generalizing k with
  | zero => exact .free hfree
  | succ d ih =>
    rw [Nat.add_comm d, ← Nat.add_assoc] at hfree ⊢
    refine .taken (htaken 0 (Nat.succ_pos d)) (ih (fun j hj => ?_) hfree)
    rw [Nat.add_assoc, Nat.add_comm 1]
    exact htaken (j + 1) (Nat.succ_lt_succ hj)

theorem isLeast (h : CountsTo base used k n) : IsLeast {m | k ≤ m ∧ numbered base m ∉ used} n := by
  induction h with
  | free hfree => exact ⟨⟨le_rfl, hfree⟩, fun m hm => hm.1⟩
  | taken htaken rest ih =>
    obtain ⟨⟨hle, hfree⟩, hleast⟩ := ih
    refine ⟨⟨Nat.le_of_succ_le hle, hfree⟩, fun m ⟨hm, hfreem⟩ => hleast ⟨?_, hfreem⟩⟩
    exact Nat.lt_of_le_of_ne hm fun heq => hfreem (heq ▸ htaken)

/-- The names that a count passes are in use, each of them once, and the base is in use besides. -/
theorem le_card (h : CountsTo base used 2 n) (hbase : base ∈ used) : n ≤ used.card + 1 := by
  have htaken : insert base ((Finset.Ico 2 n).image (numbered base)) ⊆ used := by
    refine Finset.insert_subset hbase (Finset.image_subset_iff.2 fun m hm => ?_)
    obtain ⟨hm, hlt⟩ := Finset.mem_Ico.1 hm
    by_contra hfree
    exact absurd (h.isLeast.2 ⟨hm, hfree⟩) (Nat.not_le_of_lt hlt)
  have hcard := Finset.card_le_card htaken
  rw [Finset.card_insert_of_notMem (by simp [numbered_ne]),
    Finset.card_image_of_injective _ (numbered_injective base), Nat.card_Ico] at hcard
  omega

end CountsTo

/-! ## Names in turn -/

/-- The name that a base gets while `used` are in use: the base itself when it is free, and
otherwise the base with the least number from 2 on that makes it free. A count from 2 comes to this
number. -/
structure NameFor (used : Finset String) (base name : String) : Prop where
  notMem : name ∉ used
  eq_of_free : base ∉ used → name = base
  numbered_of_taken : base ∈ used → ∃ k, name = numbered base k ∧ CountsTo base used 2 k ∧
    IsLeast {m | 2 ≤ m ∧ numbered base m ∉ used} k ∧ k ≤ used.card + 1

theorem nameFor_uniqueName (base : String) (used : List String) :
    NameFor used.toFinset base (uniqueName base used) where
  notMem h := uniqueName_notMem base used (List.mem_toFinset.1 h)
  eq_of_free h := by
    rw [uniqueName, if_neg (by simpa using h)]
  numbered_of_taken h := by
    obtain ⟨k, hname, hfree, htaken⟩ := exists_firstFree base used
    -- The candidates that were passed over are the numbers that a count passes.
    have hcount : CountsTo base used.toFinset 2 (2 + k) := by
      refine .of_forall_lt (fun j hj => ?_) ?_
      · rw [Nat.add_comm, List.mem_toFinset]
        exact htaken j hj
      · rwa [Nat.add_comm, List.mem_toFinset]
    refine ⟨2 + k, ?_, hcount, hcount.isLeast, hcount.le_card h⟩
    rw [uniqueName, if_pos (by simpa using h), hname, Nat.add_comm]

/-- Bases get their names one after another. A name is in use as soon as it is given, and nothing
else comes into use. -/
inductive InTurn : Finset String → List String → List String → Finset String → Prop
  | nil (used : Finset String) : InTurn used [] [] used
  | cons {used after : Finset String} {base name : String} {bases names : List String}
      (h : NameFor used base name) (rest : InTurn (insert name used) bases names after) :
      InTurn used (base :: bases) (name :: names) after

/-- Whatever the bases are and whichever names are in use, the bases get their names in turn. At the
end these names are in use beside those that were. They differ from those and from each other. -/
theorem uniqueNames_inTurn (used bases : List String) :
    let names := uniqueNames used bases
    InTurn used.toFinset bases names (names.toFinset ∪ used.toFinset) ∧
      names.Nodup ∧ ∀ name ∈ names, name ∉ used := by
  refine ⟨?_, nodup_uniqueNames used bases⟩
  induction bases generalizing used with
  | nil => simpa [uniqueNames] using InTurn.nil used.toFinset
  | cons base rest ih =>
    have hrest := ih (uniqueName base used :: used)
    rw [List.toFinset_cons, Finset.union_insert, ← Finset.insert_union] at hrest
    rw [uniqueNames, List.toFinset_cons]
    exact .cons (nameFor_uniqueName base used) hrest

/-- Bases that end in digits: `v` leaves `v2` to be numbered, and `v3` is passed because it is in
use. -/
theorem uniqueNames_inTurn_digits :
    let used := ["v", "v3"]
    let names := ["v2", "v22", "v4", "v23"]
    uniqueNames used ["v", "v2", "v", "v2"] = names ∧
      InTurn used.toFinset ["v", "v2", "v", "v2"] names (names.toFinset ∪ used.toFinset) ∧
      names.Nodup ∧ "v22" ∈ names ∧ "v22" ∉ used := by
  intro used names
  have hnames : uniqueNames used ["v", "v2", "v", "v2"] = names := by decide +kernel
  have hturn := uniqueNames_inTurn used ["v", "v2", "v", "v2"]
  rw [hnames] at hturn
  obtain ⟨hinTurn, hnodup, hfree⟩ := hturn
  have hmem : "v22" ∈ names := by decide
  exact ⟨hnames, hinTurn, hnodup, hmem, hfree "v22" hmem⟩

end Stubwright.Naming
