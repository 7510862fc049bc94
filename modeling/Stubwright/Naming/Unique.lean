/-!
# Distinct names

A name that is taken gets the least number from 2 on that makes it free.
-/

namespace Stubwright.Naming

/-- `base` followed by the number `k`. -/
def numbered (base : String) (k : Nat) : String := base ++ toString k

/-- The least name `base2`, `base3`, … that is not used. Among more candidates than there are used
names, one is free. -/
def firstFree (base : String) (used : List String) : String :=
  let candidates := (List.range (used.length + 1)).map fun k => numbered base (k + 2)
  (candidates.find? fun name => !used.contains name).getD base

/-- The base itself when it is free, and otherwise the least numbered name that is. -/
def uniqueName (base : String) (used : List String) : String :=
  if used.contains base then firstFree base used else base

/-- Gives every base in turn a name of its own, apart from the used ones as well. -/
def uniqueNames (used : List String) : List String → List String
  | [] => []
  | base :: rest =>
    let name := uniqueName base used
    name :: uniqueNames (name :: used) rest

/-- The first item that is among those seen or stands earlier in the list. -/
def firstRepeat? {α : Type} [DecidableEq α] (seen : List α) : List α → Option α
  | [] => none
  | item :: rest => if item ∈ seen then some item else firstRepeat? (item :: seen) rest

@[simp] theorem length_uniqueNames (used bases : List String) :
    (uniqueNames used bases).length = bases.length := by
  induction bases generalizing used with
  | nil => rfl
  | cons base rest ih => simp [uniqueNames, ih]

/-- Nothing repeats exactly when the items differ from each other and from those seen. -/
theorem firstRepeat?_eq_none_iff {α : Type} [DecidableEq α] {seen items : List α} :
    firstRepeat? seen items = none ↔ items.Nodup ∧ ∀ item ∈ items, item ∉ seen := by
  induction items generalizing seen with
  | nil => simp [firstRepeat?]
  | cons item rest ih =>
    by_cases h : item ∈ seen
    · simp [firstRepeat?, h]
    · simp only [firstRepeat?, h, if_false, ih, List.nodup_cons, List.mem_cons, not_or]
      grind

end Stubwright.Naming
