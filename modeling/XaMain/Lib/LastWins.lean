import Mathlib.Algebra.Group.Defs
import Mathlib.Data.List.Dedup

/-!
# Updates of which the last wins

A monoid of updates acts on states, and `q * p` is the update `p` and then `q`.  In a monoid with
`LastWins` an update that is made again later need not have been made before.  Overwriting a value
is like that, and so is raising a maximum, and so is any product of such updates.

## What is here

* `total f l` — the updates of the items of `l`, the first one first, as one update.
* `total_dedup` — of an item that occurs more than once only the last occurrence matters.
* `total_overwritten` and `total_raised` — a component that is overwritten has the last value it was
  given, and one that is raised the largest.
-/

set_option autoImplicit false

/-- An update that is made again later need not have been made before. -/
class LastWins (M : Type*) [Monoid M] : Prop where
  mul_again : ∀ p q : M, p * q * p = p * q

namespace LastWins

variable {M ι : Type*} [Monoid M]

/-- The updates of the items of a list, one after the other. -/
def total (f : ι → M) : List ι → M
  | [] => 1
  | i :: l => total f l * f i

theorem total_map {κ : Type*} (f : ι → M) (g : κ → ι) (l : List κ) :
    total f (l.map g) = total (fun k ↦ f (g k)) l := by
  induction l with
  | nil => rfl
  | cons k l ih => rw [List.map_cons, total, total, ih]

section Again

variable [LastWins M]

/-- An update that is made twice in a row might as well be made once. -/
theorem mul_self (p : M) : p * p = p := by
  have h := mul_again p 1
  rwa [mul_one] at h

/-- An item that comes later need not come first. -/
theorem total_mul_of_mem (f : ι → M) {i : ι} {l : List ι} (h : i ∈ l) :
    total f l * f i = total f l := by
  induction l with
  | nil => exact absurd h List.not_mem_nil
  | cons j l ih =>
    rw [total]
    rcases List.mem_cons.mp h with rfl | h
    · rw [mul_assoc, mul_self]
    · calc total f l * f j * f i
          = total f l * f i * f j * f i := by rw [ih h]
        _ = total f l * (f i * f j * f i) := by simp only [mul_assoc]
        _ = total f l * (f i * f j) := by rw [mul_again]
        _ = total f l * f i * f j := (mul_assoc _ _ _).symm
        _ = total f l * f j := by rw [ih h]

/-- **Only the last occurrence of an item matters.** -/
theorem total_dedup [DecidableEq ι] (f : ι → M) (l : List ι) : total f l.dedup = total f l := by
  induction l with
  | nil => rfl
  | cons i l ih =>
    by_cases h : i ∈ l
    · rw [List.dedup_cons_of_mem h, ih, total, total_mul_of_mem f h]
    · rw [List.dedup_cons_of_notMem h, total, total, ih]

end Again

/-! ## Components -/

/-- A component that is overwritten has the last value it was given. -/
theorem total_overwritten {α : Type*} {g : M → Option α} (hone : g 1 = none)
    (hmul : ∀ q p, g (q * p) = (g q).or (g p)) (f : ι → M) (l : List ι) :
    g (total f l) = l.reverse.findSome? fun i ↦ g (f i) := by
  induction l with
  | nil => exact hone
  | cons i l ih =>
    rw [total, hmul, ih, List.reverse_cons, List.findSome?_append, List.findSome?_singleton]

/-- A component that is raised has the largest value it was raised to. -/
theorem total_raised {g : M → Nat} (hone : g 1 = 0) (hmul : ∀ q p, g (q * p) = max (g p) (g q))
    (f : ι → M) (l : List ι) : g (total f l) = (l.map fun i ↦ g (f i)).foldr max 0 := by
  induction l with
  | nil => exact hone
  | cons i l ih => rw [total, hmul, ih, List.map_cons, List.foldr_cons]

end LastWins
