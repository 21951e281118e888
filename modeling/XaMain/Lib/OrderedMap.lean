import Mathlib.Order.Lattice
import Mathlib.Data.List.Pairwise

/-!
# Ordered maps

A map whose entries are kept in ascending key order, held as the list of its entries.  All writing
is one function, `upsert k f`: a single pass that gives the key `k` the value `f` computes from the
value `k` had, if it had one.  Adding a key only if it is absent, overwriting it, and changing a
value in place are three choices of `f`, so the lemmas about `upsert` serve all of them.

The functions are on plain lists, because a recursive type can hold its own values in a
`List (κ × β)` but not in a structure with a proof about that list.  `OrderedMap` is the structure,
for the maps that are not part of a recursive type.
-/

set_option autoImplicit false

open scoped List

namespace OrderedMap

variable {κ β : Type} [LinearOrder κ]

/-- The entries are in strictly ascending key order. -/
def Sorted (m : List (κ × β)) : Prop := m.Pairwise fun p q ↦ p.1 < q.1

/-- Give `k` the value `f` computes from the value it has, in one pass. -/
def upsert (k : κ) (f : Option β → β) : List (κ × β) → List (κ × β)
  | [] => [(k, f none)]
  | (k', b) :: m =>
    if k < k' then (k, f none) :: (k', b) :: m
    else if k = k' then (k, f (some b)) :: m
    else (k', b) :: upsert k f m

/-- Add `k` with the value `b`, unless it is there already. -/
def emplace (k : κ) (b : β) (m : List (κ × β)) : List (κ × β) := upsert k (·.getD b) m

/-- Give `k` the value `b`, whatever it had before. -/
def assign (k : κ) (b : β) (m : List (κ × β)) : List (κ × β) := upsert k (fun _ ↦ b) m

/-! ## Reading what was written -/

theorem lookup_cons_ne {k k' : κ} (h : k ≠ k') (b : β) (m : List (κ × β)) :
    ((k', b) :: m).lookup k = m.lookup k := by
  rw [List.lookup_cons, beq_false_of_ne h]

/-- In an ordered list a key below the first one is absent. -/
theorem lookup_eq_none_of_lt {k k' : κ} {b : β} {m : List (κ × β)}
    (hm : Sorted ((k', b) :: m)) (h : k < k') : m.lookup k = none := by
  rw [List.lookup_eq_none_iff]
  intro p hp
  have := List.rel_of_pairwise_cons hm hp
  simpa using (h.trans this).ne

theorem lookup_upsert_self {m : List (κ × β)} (hm : Sorted m) (k : κ) (f : Option β → β) :
    (upsert k f m).lookup k = some (f (m.lookup k)) := by
  induction m with
  | nil => simp [upsert]
  | cons p m ih =>
    obtain ⟨k', b⟩ := p
    rw [upsert]
    split_ifs with h1 h2
    · rw [List.lookup_cons_self, lookup_cons_ne h1.ne, lookup_eq_none_of_lt hm h1]
    · rw [h2, List.lookup_cons_self, List.lookup_cons_self]
    · rw [lookup_cons_ne h2, lookup_cons_ne h2, ih hm.of_cons]

/-- The key that was overwritten has its new value, in a list in any order. -/
theorem lookup_assign_self (k : κ) (b : β) (m : List (κ × β)) :
    (assign k b m).lookup k = some b := by
  rw [assign]
  induction m with
  | nil => simp [upsert]
  | cons p m ih =>
    obtain ⟨k', b'⟩ := p
    rw [upsert]
    split_ifs with h1 h2
    · rw [List.lookup_cons_self]
    · rw [List.lookup_cons_self]
    · rw [lookup_cons_ne h2, ih]

theorem lookup_upsert_ne {k k' : κ} (h : k ≠ k') (f : Option β → β) (m : List (κ × β)) :
    (upsert k' f m).lookup k = m.lookup k := by
  induction m with
  | nil => rw [upsert, lookup_cons_ne h]
  | cons p m ih =>
    obtain ⟨k₁, b⟩ := p
    rw [upsert]
    split_ifs with h1 h2
    · rw [lookup_cons_ne h]
    · rw [lookup_cons_ne h, lookup_cons_ne (h2 ▸ h)]
    · rw [List.lookup_cons, List.lookup_cons, ih]

/-- A value that is found belongs to an entry. -/
theorem mem_of_lookup {m : List (κ × β)} {k : κ} {b : β} (h : m.lookup k = some b) :
    (k, b) ∈ m := by
  obtain ⟨m₁, m₂, rfl, -⟩ := List.lookup_eq_some_iff.mp h
  exact List.mem_append_right m₁ List.mem_cons_self

/-- What an entry of the written map is: the key that was written, or an entry from before. -/
theorem mem_upsert {k : κ} {f : Option β → β} {m : List (κ × β)} {p : κ × β}
    (h : p ∈ upsert k f m) : p = (k, f none) ∨ (∃ b, (k, b) ∈ m ∧ p = (k, f (some b))) ∨ p ∈ m := by
  induction m with
  | nil => exact Or.inl (by simpa [upsert] using h)
  | cons q m ih =>
    obtain ⟨k', b⟩ := q
    rw [upsert] at h
    split_ifs at h with h1 h2
    · rcases List.mem_cons.mp h with h | h
      · exact Or.inl h
      · exact Or.inr (Or.inr h)
    · rcases List.mem_cons.mp h with h | h
      · exact Or.inr (Or.inl ⟨b, by simp [h2], h⟩)
      · exact Or.inr (Or.inr (List.mem_cons_of_mem _ h))
    · rcases List.mem_cons.mp h with h | h
      · exact Or.inr (Or.inr (by simp [h]))
      · rcases ih h with h | ⟨b', hb', h⟩ | h
        · exact Or.inl h
        · exact Or.inr (Or.inl ⟨b', List.mem_cons_of_mem _ hb', h⟩)
        · exact Or.inr (Or.inr (List.mem_cons_of_mem _ h))

/-! ## The order is kept -/

theorem sorted_nil : Sorted ([] : List (κ × β)) := List.Pairwise.nil

theorem sorted_upsert {m : List (κ × β)} (hm : Sorted m) (k : κ) (f : Option β → β) :
    Sorted (upsert k f m) := by
  induction m with
  | nil => exact List.pairwise_singleton _ _
  | cons p m ih =>
    obtain ⟨k', b⟩ := p
    rw [upsert]
    split_ifs with h1 h2
    · refine hm.cons fun q hq ↦ ?_
      rcases List.mem_cons.mp hq with rfl | hq
      · exact h1
      · exact h1.trans (List.rel_of_pairwise_cons hm hq)
    · subst h2
      exact hm.of_cons.cons fun q hq ↦ List.rel_of_pairwise_cons hm hq
    · have hlt : k' < k := lt_of_le_of_ne (not_lt.mp h1) (Ne.symm h2)
      refine (ih hm.of_cons).cons fun q hq ↦ ?_
      rcases mem_upsert hq with rfl | ⟨b', _, rfl⟩ | hq
      · exact hlt
      · exact hlt
      · exact List.rel_of_pairwise_cons hm hq

theorem Sorted.nodup {m : List (κ × β)} (hm : Sorted m) : (m.map Prod.fst).Nodup :=
  List.pairwise_map.mpr (hm.imp fun hlt ↦ hlt.ne)

/-- An order of the keys leaves no choice for the order of the entries. -/
theorem eq_of_perm {m m' : List (κ × β)} (hm : Sorted m) (hm' : Sorted m') (h : m.Perm m') :
    m = m' :=
  List.Perm.eq_of_pairwise (fun _ _ _ _ hlt hgt ↦ absurd hlt hgt.not_gt) hm hm' h

/-! ## Writing twice, and writing a new key -/

theorem upsert_upsert (k : κ) (f g : Option β → β) (m : List (κ × β)) :
    upsert k g (upsert k f m) = upsert k (fun o ↦ g (some (f o))) m := by
  induction m with
  | nil => simp [upsert]
  | cons p m ih =>
    obtain ⟨k', b⟩ := p
    by_cases h1 : k < k'
    · simp [upsert, h1]
    · by_cases h2 : k = k'
      · subst h2; simp [upsert]
      · simp [upsert, h1, h2, ih]

/-- A new key adds one entry and leaves the others as they are. -/
theorem perm_upsert {k : κ} {m : List (κ × β)} (h : m.lookup k = none) (f : Option β → β) :
    (upsert k f m).Perm ((k, f none) :: m) := by
  induction m with
  | nil => exact List.Perm.refl _
  | cons p m ih =>
    obtain ⟨k', b⟩ := p
    rw [upsert]
    split_ifs with h1 h2
    · exact List.Perm.refl _
    · subst h2
      simp at h
    · rw [lookup_cons_ne h2] at h
      exact ((ih h).cons _).trans (List.Perm.swap _ _ _)

/-! ## Writing many keys -/

/-- Write the entries of `l` one after the other. -/
def assignAll (l m : List (κ × β)) : List (κ × β) := l.foldl (fun m p ↦ assign p.1 p.2 m) m

theorem sorted_assignAll {m : List (κ × β)} (hm : Sorted m) (l : List (κ × β)) :
    Sorted (assignAll l m) := by
  induction l generalizing m with
  | nil => exact hm
  | cons p l ih => exact ih (sorted_upsert hm p.1 _)

/-- Distinct new keys are added as they are. -/
theorem perm_assignAll {l m : List (κ × β)} (hl : (l.map Prod.fst).Nodup)
    (h : ∀ p ∈ l, m.lookup p.1 = none) : (assignAll l m).Perm (l ++ m) := by
  induction l generalizing m with
  | nil => exact List.Perm.refl _
  | cons p l ih =>
    rw [List.map_cons, List.nodup_cons] at hl
    have hnew : m.lookup p.1 = none := h p List.mem_cons_self
    have hrest : ∀ q ∈ l, (assign p.1 p.2 m).lookup q.1 = none := by
      intro q hq
      have hne : q.1 ≠ p.1 := fun he ↦ hl.1 (he ▸ List.mem_map_of_mem hq)
      rw [assign, lookup_upsert_ne hne]
      exact h q (List.mem_cons_of_mem _ hq)
    calc assignAll (p :: l) m = assignAll l (assign p.1 p.2 m) := rfl
      _ ~ l ++ assign p.1 p.2 m := ih hl.2 hrest
      _ ~ l ++ p :: m := (perm_upsert hnew _).append_left l
      _ ~ p :: l ++ m := List.perm_middle

end OrderedMap

/-- A map kept in ascending key order. -/
structure OrderedMap (κ β : Type) [LinearOrder κ] where
  /-- The entries, one for each key. -/
  entries : List (κ × β)
  /-- They are in ascending key order. -/
  sorted : OrderedMap.Sorted entries

namespace OrderedMap

variable {κ β : Type} [LinearOrder κ]

/-- The value of a key. -/
def find? (m : OrderedMap κ β) (k : κ) : Option β := m.entries.lookup k

/-- Add `k` with the value `b`, unless it is there already. -/
def insertNew (m : OrderedMap κ β) (k : κ) (b : β) : OrderedMap κ β :=
  ⟨emplace k b m.entries, sorted_upsert m.sorted k _⟩

theorem find?_insertNew_self (m : OrderedMap κ β) (k : κ) (b : β) :
    (m.insertNew k b).find? k = some ((m.find? k).getD b) :=
  lookup_upsert_self m.sorted k _

theorem find?_insertNew_ne (m : OrderedMap κ β) {k k' : κ} (h : k ≠ k') (b : β) :
    (m.insertNew k' b).find? k = m.find? k :=
  lookup_upsert_ne h _ m.entries

end OrderedMap
