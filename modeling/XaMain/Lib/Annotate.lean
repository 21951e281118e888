import Mathlib.Data.List.Basic

/-!
# Annotations in a text

A text with something inserted at some of its places.  A place of `t` is told by what stands before
it, and is counted only if that is not empty.  `annotated note b t` is `t` with `note` inserted at
each place, where `b` stands before `t`; `marks mark b t` are the places that have a mark, with
their marks, from left to right.

If the notes are those of the marks, `annotated_pieces` takes the two apart again.  A text that
stands behind another one is annotated as it would be alone if the notes are the same
(`annotated_congr`), and differently if one of them is longer and none is shorter
(`length_annotated_lt`).
-/

set_option autoImplicit false

variable {α ν : Type}

/-- `t` with `note` inserted at each of its places. -/
def annotated (note : List α → List α) (b : List α) : List α → List α
  | [] => []
  | c :: t => c :: (note (b ++ [c]) ++ annotated note (b ++ [c]) t)

/-- The places of `t` that have a mark. -/
def marks (mark : List α → Option ν) (b : List α) : List α → List (List α × ν)
  | [] => []
  | c :: t => (mark (b ++ [c])).toList.map (b ++ [c], ·) ++ marks mark (b ++ [c]) t

section Annotate

variable {note : List α → List α} {mark : List α → Option ν} {b : List α}

theorem annotated_append (u t : List α) :
    annotated note b (u ++ t) = annotated note b u ++ annotated note (b ++ u) t := by
  induction u generalizing b with
  | nil => rw [List.nil_append, List.append_nil, annotated, List.nil_append]
  | cons c u ih =>
    rw [List.cons_append, annotated, ih, annotated, List.append_assoc b, List.singleton_append,
      List.cons_append, List.append_assoc]

theorem marks_append (u t : List α) :
    marks mark b (u ++ t) = marks mark b u ++ marks mark (b ++ u) t := by
  induction u generalizing b with
  | nil => rw [List.nil_append, List.append_nil, marks, List.nil_append]
  | cons c u ih =>
    rw [List.cons_append, marks, ih, marks, List.append_assoc b, List.singleton_append,
      List.append_assoc]

/-- Only the notes of the places matter. -/
theorem annotated_congr {note' : List α → List α} {b' t : List α}
    (h : ∀ y z, t = y ++ z → y ≠ [] → note (b ++ y) = note' (b' ++ y)) :
    annotated note b t = annotated note' b' t := by
  induction t generalizing b b' with
  | nil => rfl
  | cons c t ih =>
    rw [annotated, annotated, h [c] t rfl (List.cons_ne_nil c []), ih fun y z ht _ ↦ ?_]
    rw [List.append_assoc, List.append_assoc]
    exact h (c :: y) z (by rw [ht, List.cons_append]) (List.cons_ne_nil c y)

/-- Longer notes make the text longer. -/
theorem length_annotated_le {note' : List α → List α} {b' t : List α}
    (h : ∀ y z, t = y ++ z → y ≠ [] → (note (b ++ y)).length ≤ (note' (b' ++ y)).length) :
    (annotated note b t).length ≤ (annotated note' b' t).length := by
  induction t generalizing b b' with
  | nil => exact Nat.le_refl _
  | cons c t ih =>
    have hfirst := h [c] t rfl (List.cons_ne_nil c [])
    have hrest : (annotated note (b ++ [c]) t).length ≤ (annotated note' (b' ++ [c]) t).length := by
      refine ih fun y z ht _ ↦ ?_
      rw [List.append_assoc, List.append_assoc]
      exact h (c :: y) z (by rw [ht, List.cons_append]) (List.cons_ne_nil c y)
    rw [annotated, annotated, List.length_cons, List.length_cons, List.length_append,
      List.length_append]
    omega

/-- The length up to a place, with its note, and behind it. -/
theorem length_annotated_concat (u z : List α) (c : α) :
    (annotated note b (u ++ [c] ++ z)).length = (annotated note b u).length + 1 +
      (note (b ++ (u ++ [c]))).length + (annotated note (b ++ (u ++ [c])) z).length := by
  rw [annotated_append, annotated_append, annotated, annotated, List.append_nil,
    List.append_assoc b, List.length_append, List.length_append, List.length_cons]
  omega

/-- One longer note is enough. -/
theorem length_annotated_lt {note' : List α → List α} {b' y z : List α} (hy : y ≠ [])
    (h : ∀ u v, y ++ z = u ++ v → u ≠ [] → (note (b ++ u)).length ≤ (note' (b' ++ u)).length)
    (hlt : (note (b ++ y)).length < (note' (b' ++ y)).length) :
    (annotated note b (y ++ z)).length < (annotated note' b' (y ++ z)).length := by
  obtain ⟨u, c, rfl⟩ : ∃ u c, y = u ++ [c] := ⟨_, _, (List.dropLast_concat_getLast hy).symm⟩
  have hu : (annotated note b u).length ≤ (annotated note' b' u).length :=
    length_annotated_le fun x v hx ↦ h x (v ++ [c] ++ z) (by rw [hx]; simp only [List.append_assoc])
  have hz : (annotated note (b ++ (u ++ [c])) z).length
      ≤ (annotated note' (b' ++ (u ++ [c])) z).length := by
    refine length_annotated_le fun x v hx _ ↦ ?_
    have hx' := h (u ++ [c] ++ x) v (by rw [hx]; simp only [List.append_assoc]) (by simp)
    simpa only [List.append_assoc] using hx'
  rw [length_annotated_concat, length_annotated_concat]
  omega

/-- With no notes a text stays as it is. -/
theorem annotated_of_empty {t : List α} (h : ∀ y z, t = y ++ z → y ≠ [] → note (b ++ y) = []) :
    annotated note b t = t := by
  induction t generalizing b with
  | nil => rfl
  | cons c t ih =>
    have hc : note (b ++ [c]) = [] := h [c] t rfl (List.cons_ne_nil c [])
    rw [annotated, hc, List.nil_append, ih]
    intro y z ht _
    rw [List.append_assoc]
    exact h (c :: y) z (by rw [ht, List.cons_append]) (List.cons_ne_nil c y)

theorem marks_of_none {t : List α} (h : ∀ y z, t = y ++ z → y ≠ [] → mark (b ++ y) = none) :
    marks mark b t = [] := by
  induction t generalizing b with
  | nil => rfl
  | cons c t ih =>
    have hc : mark (b ++ [c]) = none := h [c] t rfl (List.cons_ne_nil c [])
    rw [marks, hc, Option.toList_none, List.map_nil, List.nil_append, ih]
    intro y z ht _
    rw [List.append_assoc]
    exact h (c :: y) z (by rw [ht, List.cons_append]) (List.cons_ne_nil c y)

/-- With one note only, at its end, a text is followed by that note. -/
theorem annotated_of_last {t : List α} (ht : t ≠ [])
    (h : ∀ y z, t = y ++ z → y ≠ [] → z ≠ [] → note (b ++ y) = []) :
    annotated note b t = t ++ note (b ++ t) := by
  obtain ⟨u, c, rfl⟩ : ∃ u c, t = u ++ [c] := ⟨_, _, (List.dropLast_concat_getLast ht).symm⟩
  have hu : annotated note b u = u := annotated_of_empty fun y z hy hne ↦
    h y (z ++ [c]) (by rw [hy, List.append_assoc]) hne (by simp)
  rw [annotated_append, hu, annotated, annotated, List.append_nil, List.append_assoc b]
  simp

theorem marks_of_last {t : List α} (ht : t ≠ [])
    (h : ∀ y z, t = y ++ z → y ≠ [] → z ≠ [] → mark (b ++ y) = none) :
    marks mark b t = (mark (b ++ t)).toList.map (b ++ t, ·) := by
  obtain ⟨u, c, rfl⟩ : ∃ u c, t = u ++ [c] := ⟨_, _, (List.dropLast_concat_getLast ht).symm⟩
  have hu : marks mark b u = [] := marks_of_none fun y z hy hne ↦
    h y (z ++ [c]) (by rw [hy, List.append_assoc]) hne (by simp)
  rw [marks_append, hu, marks, marks, List.append_nil, List.append_assoc b, List.nil_append]

/-- The marks are those of the places of the text. -/
theorem mem_marks {t : List α} {p : List α × ν} :
    p ∈ marks mark b t ↔ ∃ y z, t = y ++ z ∧ y ≠ [] ∧ p.1 = b ++ y ∧ mark p.1 = some p.2 := by
  induction t generalizing b with
  | nil =>
    refine iff_of_false List.not_mem_nil ?_
    rintro ⟨y, z, ht, hne, -⟩
    exact hne (List.append_eq_nil_iff.mp ht.symm).1
  | cons c t ih =>
    rw [marks, List.mem_append, ih, List.mem_map]
    constructor
    · rintro (⟨n, hn, rfl⟩ | ⟨y, z, rfl, -, hp, hmark⟩)
      · exact ⟨[c], t, rfl, List.cons_ne_nil c [], rfl, Option.mem_toList.mp hn⟩
      · exact ⟨c :: y, z, rfl, List.cons_ne_nil c y, by rw [hp, List.append_assoc]; rfl, hmark⟩
    · rintro ⟨y, z, ht, hne, hp, hmark⟩
      rcases List.cons_eq_append_iff.mp ht with ⟨rfl, -⟩ | ⟨y, rfl, rfl⟩
      · exact absurd rfl hne
      · rcases y with _ | ⟨d, y⟩
        · rw [hp] at hmark
          exact Or.inl ⟨p.2, Option.mem_toList.mpr hmark, by rw [← hp]⟩
        · exact Or.inr ⟨d :: y, z, rfl, List.cons_ne_nil d y, by rw [hp, List.append_assoc]; rfl,
            hmark⟩

/-- They are listed from left to right, each once. -/
theorem marks_pairwise (t : List α) :
    (marks mark b t).Pairwise fun p q ↦ p.1.length < q.1.length := by
  induction t generalizing b with
  | nil => exact List.Pairwise.nil
  | cons c t ih =>
    rw [marks, List.pairwise_append]
    refine ⟨?_, ih, ?_⟩
    · cases mark (b ++ [c]) <;> simp
    · intro p hp q hq
      obtain ⟨n, -, rfl⟩ := List.mem_map.mp hp
      obtain ⟨y, z, -, hne, hq, -⟩ := mem_marks.mp hq
      have hpos : 0 < y.length := List.length_pos_iff.mpr hne
      simp only [hq, List.length_append]
      omega

/-- The text comes in pieces, with the note of one mark behind each and the rest behind them all. -/
theorem annotated_pieces (mark : List α → Option ν) (f : ν → List α) (b t : List α) :
    ∃ (pieces : List (List α)) (rest : List α),
      pieces.length = (marks mark b t).length ∧ t = pieces.flatten ++ rest ∧
      annotated (fun b ↦ (mark b).elim [] f) b t
        = (pieces.zipWith (fun p m ↦ p ++ f m.2) (marks mark b t)).flatten ++ rest := by
  induction t generalizing b with
  | nil => exact ⟨[], [], rfl, rfl, rfl⟩
  | cons c t ih =>
    obtain ⟨pieces, rest, hlen, ht, hout⟩ := ih (b ++ [c])
    rw [annotated, marks, hout]
    cases mark (b ++ [c]) with
    | some n =>
      -- a piece ends here
      exact ⟨[c] :: pieces, rest, by simp [hlen], by simp [ht], by simp⟩
    | none =>
      -- the first piece, or the rest, becomes longer
      cases pieces with
      | nil =>
        have hmarks : marks mark (b ++ [c]) t = [] := List.length_eq_zero_iff.mp hlen.symm
        exact ⟨[], c :: rest, by simp [hmarks], by simp [ht], by simp⟩
      | cons p pieces =>
        obtain ⟨m, ms, hmarks⟩ := List.exists_cons_of_length_eq_add_one hlen.symm
        rw [hmarks] at hlen ⊢
        exact ⟨(c :: p) :: pieces, rest, by simpa using hlen, by simp [ht], by simp⟩

end Annotate
