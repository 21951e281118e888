import XaMain.Common.PrettyDatetime

/-!
# Texts that are annotated in pieces

`to_pretty_datetime` is given a whole text.  A text that comes in two pieces can be annotated piece
by piece unless a timestamp begins in the first piece and ends in the second one
(`toPrettyDatetime_append_iff`): that one is annotated only if the pieces are put together first.
Pieces that end with a character that is in no timestamp, such as lines, can always be annotated one
by one (`toPrettyDatetime_lines`).
-/

set_option autoImplicit false

namespace XaMain
namespace Utils

/-- A timestamp begins in `x` and ends in the text behind it. -/
def Straddles (x t : List Char) : Prop :=
  ∃ p ds q, x ++ t = p ++ (secLabel ++ (ds ++ q)) ∧ IsSeconds ds ∧ p.length < x.length ∧
    x.length < (p ++ (secLabel ++ ds)).length

section Pieces

variable {x t : List Char}

/-- A timestamp is one whatever stands before it. -/
theorem timestampAt_behind {y : List Char} {n : Int} (h : timestampAt y = some n) :
    timestampAt (x ++ y) = some n := by
  obtain ⟨p, ds, rfl, hds, hn⟩ := timestampAt_eq_some_iff.mp h
  exact timestampAt_eq_some_iff.mpr ⟨x ++ p, ds, (List.append_assoc x p _).symm, hds, hn⟩

theorem timestampAt_of_short {y : List Char} (h : y.length < 18) : timestampAt y = none := by
  rw [Option.eq_none_iff_forall_ne_some]
  intro n hn
  obtain ⟨p, ds, rfl, hds, -⟩ := timestampAt_eq_some_iff.mp hn
  rw [List.length_append, List.length_append, length_secLabel, hds.1] at h
  omega

/-- There is one timestamp more behind `x` exactly if one begins in `x`. -/
theorem straddles_iff : Straddles x t ↔ ∃ y z n, t = y ++ z ∧ y ≠ [] ∧
    timestampAt (x ++ y) = some n ∧ timestampAt y = none := by
  constructor
  · rintro ⟨p, ds, q, hsplit, hds, hbegins, hends⟩
    rw [← List.append_assoc secLabel, ← List.append_assoc p] at hsplit
    obtain ⟨y, hy, rfl⟩ : ∃ y, p ++ (secLabel ++ ds) = x ++ y ∧ t = y ++ q := by
      rcases List.append_eq_append_iff.mp hsplit with ⟨y, hy, ht⟩ | ⟨y, hx, -⟩
      · exact ⟨y, hy, ht⟩
      · rw [hx, List.length_append] at hends
        omega
    have hlength := congrArg List.length hy
    rw [List.length_append, List.length_append, List.length_append, length_secLabel,
      hds.1] at hlength
    rw [hy, List.length_append] at hends
    refine ⟨y, q, _, rfl, List.length_pos_iff.mp (by omega), hy ▸ timestampAt_seconds hds p,
      timestampAt_of_short (by omega)⟩
  · rintro ⟨y, z, n, rfl, hy, hsome, hnone⟩
    obtain ⟨p, ds, hsplit, hds, -⟩ := timestampAt_eq_some_iff.mp hsome
    refine ⟨p, ds, z, ?_, hds, ?_, ?_⟩
    · rw [← List.append_assoc, hsplit]
      simp only [List.append_assoc]
    · by_contra hle
      obtain ⟨a, rfl⟩ : x <+: p := List.prefix_of_prefix_length_le (hsplit ▸ List.prefix_append x y)
        (List.prefix_append p _) (not_lt.mp hle)
      rw [List.append_assoc, List.append_cancel_left_eq] at hsplit
      rw [hsplit, timestampAt_seconds hds] at hnone
      cases hnone
    · have hpos : 0 < y.length := List.length_pos_iff.mpr hy
      rw [← hsplit, List.length_append]
      omega

variable (toStr : Int → String)

/-- An annotation is not empty. -/
theorem timeNote_pos (n : Int) : 0 < (timeNote toStr n).length := Nat.succ_pos _

/-- Without such a timestamp, the text is annotated as it would be alone. -/
theorem annotated_behind (h : ¬ Straddles x t) :
    annotated (noteAt toStr) x t = annotated (noteAt toStr) [] t := by
  refine annotated_congr fun y z ht hy ↦ ?_
  have hsame : timestampAt (x ++ y) = timestampAt y := by
    cases hnone : timestampAt y with
    | some n => exact timestampAt_behind hnone
    | none =>
      by_contra hne
      obtain ⟨n, hn⟩ := Option.ne_none_iff_exists'.mp hne
      exact h (straddles_iff.mpr ⟨y, z, n, ht, hy, hn, hnone⟩)
  rw [List.nil_append, noteAt, noteAt, hsame]

/-- With one, it becomes longer. -/
theorem length_annotated_behind (h : Straddles x t) :
    (annotated (noteAt toStr) [] t).length < (annotated (noteAt toStr) x t).length := by
  obtain ⟨y, z, n, rfl, hy, hsome, hnone⟩ := straddles_iff.mp h
  refine length_annotated_lt hy (fun u v _ _ ↦ ?_) ?_
  · rw [List.nil_append, noteAt, noteAt]
    cases hu : timestampAt u with
    | none => exact Nat.zero_le _
    | some m => rw [timestampAt_behind hu]
  · rw [List.nil_append, noteAt, noteAt, hnone, hsome]
    exact timeNote_pos toStr n

theorem annotated_append_iff : annotated (noteAt toStr) [] (x ++ t)
    = annotated (noteAt toStr) [] x ++ annotated (noteAt toStr) [] t ↔ ¬ Straddles x t := by
  rw [annotated_append, List.nil_append, List.append_cancel_left_eq]
  refine ⟨fun heq h ↦ ?_, annotated_behind toStr⟩
  have hlt := length_annotated_behind toStr h
  rw [heq] at hlt
  exact absurd hlt (Nat.lt_irrefl _)

end Pieces

theorem toPrettyDatetime_pieces (toStr : Int → String) {s t out out' : String}
    (hs : (toPrettyDatetime toStr s).1 = .returned out)
    (ht : (toPrettyDatetime toStr t).1 = .returned out') :
    (toPrettyDatetime toStr (s ++ t)).1 = .returned (out ++ out') ↔
      ¬ Straddles s.toList t.toList := by
  obtain ⟨_, hrun, -⟩ := toPrettyDatetime_run toStr s
  obtain ⟨_, hrun', -⟩ := toPrettyDatetime_run toStr t
  obtain ⟨_, hall, -⟩ := toPrettyDatetime_run toStr (s ++ t)
  rw [hrun] at hs
  rw [hrun'] at ht
  rw [hall, ← annotated_append_iff toStr, ← String.toList_append, ← Outcome.returned.inj hs,
    ← Outcome.returned.inj ht, ← String.ofList_append, Outcome.returned.injEq, String.ofList_inj]

/-- **When a text can be annotated in two pieces**: exactly if no timestamp begins in the first and
ends in the second. -/
theorem toPrettyDatetime_append_iff (toStr : Int → String) (s t : String) : ∃ out out',
    (toPrettyDatetime toStr s).1 = .returned out ∧ (toPrettyDatetime toStr t).1 = .returned out' ∧
      ((toPrettyDatetime toStr (s ++ t)).1 = .returned (out ++ out') ↔
        ¬ Straddles s.toList t.toList) := by
  obtain ⟨_, hs, -⟩ := toPrettyDatetime_run toStr s
  obtain ⟨_, ht, -⟩ := toPrettyDatetime_run toStr t
  exact ⟨_, _, congrArg Prod.fst hs, congrArg Prod.fst ht,
    toPrettyDatetime_pieces toStr (congrArg Prod.fst hs) (congrArg Prod.fst ht)⟩

/-! ## Lines -/

/-- A character that is in no timestamp ends a piece. -/
theorem not_straddles {u t : List Char} {c : Char} (hlabel : c ∉ secLabel)
    (hdigit : c.isDigit = false) : ¬ Straddles (u ++ [c]) t := by
  rintro ⟨p, ds, q, hsplit, hds, hbegins, hends⟩
  rw [List.length_append, List.length_singleton] at hbegins hends
  have hpu : p <+: u := List.prefix_of_prefix_length_le (List.prefix_append p _)
    (hsplit ▸ (List.prefix_append u [c]).trans (List.prefix_append _ t)) (by omega)
  obtain ⟨a, rfl⟩ := hpu
  have hinside : a ++ ([c] ++ t) = secLabel ++ ds ++ q := by
    simpa only [List.append_assoc, List.append_cancel_left_eq] using hsplit
  have hlength : (a ++ [c]).length ≤ (secLabel ++ ds).length := by
    simp only [List.length_append, List.length_singleton] at hends ⊢
    omega
  have hstart : a ++ [c] <+: secLabel ++ ds ++ q := by
    rw [← hinside, ← List.append_assoc]
    exact List.prefix_append _ t
  have hstamp := List.prefix_of_prefix_length_le hstart (List.prefix_append _ q) hlength
  rcases List.mem_append.mp (hstamp.subset (List.mem_append_right a (List.mem_singleton_self c)))
    with h | h
  · exact hlabel h
  · rw [hds.2 c h] at hdigit
    cases hdigit

/-- **A text can be annotated line by line.** -/
theorem toPrettyDatetime_lines (toStr : Int → String) (lines : List String) : ∃ outs,
    List.Forall₂ (fun l out ↦ (toPrettyDatetime toStr (l ++ "\n")).1 = .returned out) lines outs ∧
      (toPrettyDatetime toStr (String.join (lines.map (· ++ "\n")))).1
        = .returned (String.join outs) := by
  induction lines with
  | nil => exact ⟨[], .nil, rfl⟩
  | cons l lines ih =>
    obtain ⟨outs, hlines, hrest⟩ := ih
    obtain ⟨_, hrun, -⟩ := toPrettyDatetime_run toStr (l ++ "\n")
    have hline := congrArg Prod.fst hrun
    have hnewline (t : List Char) : ¬ Straddles (l ++ "\n").toList t := by
      rw [String.toList_append]
      exact not_straddles (by decide) (by decide)
    refine ⟨_ :: outs, .cons hline hlines, ?_⟩
    rw [List.map_cons, String.join_cons, String.join_cons]
    exact (toPrettyDatetime_pieces toStr hline hrest).mpr (hnewline _)

end Utils
end XaMain
