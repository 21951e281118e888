import XaMain.Rpc.Replies
import Mathlib.Data.List.Perm.Basic
import Mathlib.Tactic.Tauto

/-!
# The HTTP status of a batch

The status of a batch should be the most severe one of its items, whatever order they come in.  The
loop raises it for a request, but an item that is not a request sets it to 400, over the 404 of an
unknown method before it.  So it comes out right as long as no such item follows the last unknown
method (`foldl_batchStep_eq_severest_iff`), and in every order only if a batch does not have both
(`batchStatus_iff`).
-/

set_option autoImplicit false

open scoped List

namespace XaMain
namespace Rpc

open Json Json.Value

/-! ## The statuses of single items -/

/-- A request for a method the server does not have. -/
def IsUnknown (r : Value) : Prop := IsRequest r ∧ isPing r = false

theorem answer_404_iff (r : Value) : (answer r).1 = 404 ↔ IsUnknown r := by
  by_cases h : IsRequest r
  · cases hping : isPing r with
    | true =>
      rw [answer_ping h hping]
      exact ⟨fun h ↦ absurd h (by simp), fun hu ↦ absurd (hping.symm.trans hu.2) (by decide)⟩
    | false =>
      rw [answer_unknown h hping]
      exact ⟨fun _ ↦ ⟨h, hping⟩, fun _ ↦ rfl⟩
  · rw [answer_invalid h]
    exact ⟨fun h ↦ absurd h (by simp), fun hu ↦ absurd hu.1 h⟩

/-- One of the statuses of a batch. -/
def IsStatus (n : Nat) : Prop := n = 200 ∨ n = 400 ∨ n = 404

/-- The most severe status of the items, and 200. -/
def severest (rs : List Value) : Nat := (rs.map fun r ↦ (answer r).1).foldr max 200

theorem severest_cons (r : Value) (rs : List Value) :
    severest (r :: rs) = max (answer r).1 (severest rs) := rfl

theorem severest_isStatus (rs : List Value) : IsStatus (severest rs) := by
  induction rs with
  | nil => exact Or.inl rfl
  | cons r rs ih =>
    have hr := answer_status r
    rw [severest_cons]
    rw [IsStatus] at ih ⊢
    omega

theorem severest_404_iff (rs : List Value) : severest rs = 404 ↔ ∃ u ∈ rs, IsUnknown u := by
  induction rs with
  | nil => simp [severest]
  | cons r rs ih =>
    have hrs := severest_isStatus rs
    have hr := answer_status r
    rw [severest_cons, List.exists_mem_cons_iff, ← answer_404_iff, ← ih]
    rw [IsStatus] at hrs
    omega

theorem severest_200_iff (rs : List Value) :
    severest rs = 200 ↔ ∀ r ∈ rs, (answer r).1 = 200 := by
  induction rs with
  | nil => simp [severest]
  | cons r rs ih =>
    have hrs := severest_isStatus rs
    have hr := answer_status r
    rw [severest_cons, List.forall_mem_cons, ← ih]
    rw [IsStatus] at hrs
    omega

theorem severest_perm {rs rs' : List Value} (h : rs ~ rs') : severest rs = severest rs' :=
  (h.map _).foldr_eq _

/-! ## The status of the loop -/

theorem batchStep_isStatus {code : Nat} (hcode : IsStatus code) (r : Value) :
    IsStatus (batchStep code r) := by
  have hr := answer_status r
  rw [batchStep]
  rw [IsStatus] at hcode ⊢
  split_ifs <;> omega

theorem foldl_batchStep_isStatus (rs : List Value) {code : Nat} (hcode : IsStatus code) :
    IsStatus (rs.foldl batchStep code) := by
  induction rs generalizing code with
  | nil => exact hcode
  | cons r rs ih => exact ih (batchStep_isStatus hcode r)

theorem batchStep_404_iff {code : Nat} (hcode : IsStatus code) (r : Value) :
    batchStep code r = 404 ↔ IsUnknown r ∨ code = 404 ∧ IsRequest r := by
  rw [batchStep, ← answer_404_iff]
  rw [IsStatus] at hcode
  have hr := answer_status r
  by_cases h : IsRequest r
  · rw [if_pos ((isValidReq_iff r).mpr h)]
    simp only [h, and_true]
    omega
  · rw [if_neg fun hv ↦ h ((isValidReq_iff r).mp hv), answer_invalid h]
    simp [h]

/-- There is an unknown method with nothing but requests after it. -/
def EndsUnknown (rs : List Value) : Prop :=
  ∃ before u after, rs = before ++ u :: after ∧ IsUnknown u ∧ ∀ r ∈ after, IsRequest r

theorem endsUnknown_cons (r : Value) (rs : List Value) :
    EndsUnknown (r :: rs) ↔ (IsUnknown r ∧ ∀ q ∈ rs, IsRequest q) ∨ EndsUnknown rs := by
  constructor
  · rintro ⟨before, u, after, hsplit, hu, hafter⟩
    cases before with
    | nil =>
      rw [List.nil_append, List.cons.injEq] at hsplit
      obtain ⟨rfl, rfl⟩ := hsplit
      exact Or.inl ⟨hu, hafter⟩
    | cons q before =>
      rw [List.cons_append, List.cons.injEq] at hsplit
      exact Or.inr ⟨before, u, after, hsplit.2, hu, hafter⟩
  · rintro (⟨hu, hrs⟩ | ⟨before, u, after, rfl, hu, hafter⟩)
    · exact ⟨[], r, rs, rfl, hu, hrs⟩
    · exact ⟨r :: before, u, after, rfl, hu, hafter⟩

theorem EndsUnknown.exists_mem {rs : List Value} (h : EndsUnknown rs) : ∃ u ∈ rs, IsUnknown u := by
  obtain ⟨before, u, after, rfl, hu, -⟩ := h
  exact ⟨u, by simp, hu⟩

/-- The loop ends with 404 if it had 404 and saw requests only, or if it ends with an unknown method
and requests after it. -/
theorem foldl_batchStep_404_iff (rs : List Value) {code : Nat} (hcode : IsStatus code) :
    rs.foldl batchStep code = 404 ↔ (code = 404 ∧ ∀ r ∈ rs, IsRequest r) ∨ EndsUnknown rs := by
  induction rs generalizing code with
  | nil =>
    have hnil : ¬ EndsUnknown [] := fun h ↦ by
      obtain ⟨u, hu, -⟩ := h.exists_mem
      exact List.not_mem_nil hu
    simp [hnil]
  | cons r rs ih =>
    rw [List.foldl_cons, ih (batchStep_isStatus hcode r), batchStep_404_iff hcode, endsUnknown_cons,
      List.forall_mem_cons]
    tauto

/-- **When the status of the loop is the most severe one**: no unknown method, or nothing but
requests after one. -/
theorem foldl_batchStep_eq_severest_iff (rs : List Value) :
    rs.foldl batchStep 200 = severest rs ↔ ((∃ u ∈ rs, IsUnknown u) → EndsUnknown rs) := by
  have hstatus := foldl_batchStep_isStatus rs (show IsStatus 200 from Or.inl rfl)
  have h404 : rs.foldl batchStep 200 = 404 ↔ EndsUnknown rs := by
    rw [foldl_batchStep_404_iff rs (Or.inl rfl)]
    simp
  have h200 : rs.foldl batchStep 200 = 200 ↔ severest rs = 200 := by
    rw [foldl_batchStep_ok_iff rs (Nat.le_refl _), severest_200_iff]
    simp
  by_cases hunknown : ∃ u ∈ rs, IsUnknown u
  · rw [(severest_404_iff rs).mpr hunknown, h404]
    exact ⟨fun h _ ↦ h, fun h ↦ h hunknown⟩
  · have hnot404 : severest rs ≠ 404 := fun h ↦ hunknown ((severest_404_iff rs).mp h)
    have hnot404' : rs.foldl batchStep 200 ≠ 404 := fun h ↦ hunknown (h404.mp h).exists_mem
    have hsevere := severest_isStatus rs
    refine ⟨fun _ h ↦ absurd h hunknown, fun _ ↦ ?_⟩
    rw [IsStatus] at hstatus hsevere
    omega

/-! ## Every order -/

/-- A batch with both an item that is no request and an unknown method. -/
def Mixed (rs : List Value) : Prop := (∃ r ∈ rs, ¬ IsRequest r) ∧ ∃ u ∈ rs, IsUnknown u

theorem Mixed.perm {rs rs' : List Value} (h : Mixed rs) (hperm : rs ~ rs') : Mixed rs' := by
  obtain ⟨⟨r, hr, hinvalid⟩, u, hu, hunknown⟩ := h
  exact ⟨⟨r, hperm.mem_iff.mp hr, hinvalid⟩, u, hperm.mem_iff.mp hu, hunknown⟩

/-- A batch that is not mixed gets the most severe status. -/
theorem foldl_batchStep_of_not_mixed {rs : List Value} (h : ¬ Mixed rs) :
    rs.foldl batchStep 200 = severest rs := by
  refine (foldl_batchStep_eq_severest_iff rs).mpr fun hunknown ↦ ?_
  have hvalid : ∀ r ∈ rs, IsRequest r := by
    intro r hr
    by_contra hinvalid
    exact h ⟨⟨r, hr, hinvalid⟩, hunknown⟩
  obtain ⟨u, hu, hu'⟩ := hunknown
  obtain ⟨before, after, rfl⟩ := List.append_of_mem hu
  exact ⟨before, u, after, rfl, hu', fun r hr ↦ hvalid r (by simp [hr])⟩

/-- A mixed batch has an order in which it gets 400, and not the 404 of its unknown method. -/
theorem Mixed.exists_perm {rs : List Value} (h : Mixed rs) :
    ∃ rs', rs' ~ rs ∧ rs'.foldl batchStep 200 ≠ severest rs := by
  obtain ⟨⟨r, hr, hinvalid⟩, hunknown⟩ := h
  obtain ⟨before, after, rfl⟩ := List.append_of_mem hr
  refine ⟨before ++ after ++ [r], ?_, ?_⟩
  · rw [List.append_assoc]
    exact (List.perm_append_singleton r after).append_left before
  · have hlast : (before ++ after ++ [r]).foldl batchStep 200 = 400 := by
      rw [List.foldl_append, List.foldl_cons, List.foldl_nil, batchStep,
        if_neg fun hv ↦ hinvalid ((isValidReq_iff r).mp hv)]
    rw [hlast, (severest_404_iff _).mpr hunknown]
    decide

/-! ## The status of a batch -/

/-- The reply to the batch `rs` has the most severe of the statuses its items get alone, and 200. -/
def StatusIsSeverest (allowCors : Bool) (rs : List Value) : Prop :=
  ∃ json statuses, List.Forall₂ (fun r status ↦ ∃ json, Replied allowCors (some r) status json)
      rs statuses ∧ Replied allowCors (some (array rs)) (statuses.foldr max 200) json

/-- The reply to the batch `rs` has the same status in every order of the items. -/
def StatusIsStable (allowCors : Bool) (rs : List Value) : Prop :=
  ∀ rs', rs' ~ rs → ∃ status json json', Replied allowCors (some (array rs)) status json ∧
    Replied allowCors (some (array rs')) status json'

theorem statusIsSeverest_iff (allowCors : Bool) {rs : List Value}
    (hitems : ∀ r ∈ rs, r.isArray = false) :
    StatusIsSeverest allowCors rs ↔ rs.foldl batchStep 200 = severest rs := by
  constructor
  · rintro ⟨json, statuses, halone, hbatch⟩
    have hstatuses : statuses = rs.map fun r ↦ (answer r).1 := by
      clear hbatch
      induction halone with
      | nil => rfl
      | @cons r status rs statuses hr _ ih =>
        obtain ⟨json', hjson'⟩ := hr
        rw [replied_iff, reply_of_not_isArray (hitems r List.mem_cons_self)] at hjson'
        rw [List.map_cons, ← hjson', ih fun q hq ↦ hitems q (List.mem_cons_of_mem _ hq)]
    rw [replied_iff, hstatuses] at hbatch
    exact (congrArg Prod.fst hbatch).symm
  · intro h
    refine ⟨_, rs.map fun r ↦ (answer r).1, ?_, replied_iff.mpr (Prod.ext ?_ rfl)⟩
    · rw [List.forall₂_map_right_iff, List.forall₂_same]
      intro r hr
      exact ⟨(answer r).2, replied_iff.mpr (reply_of_not_isArray (hitems r hr)).symm⟩
    · exact h.symm

theorem statusIsStable_iff (allowCors : Bool) (rs : List Value) :
    StatusIsStable allowCors rs ↔
      ∀ rs', rs' ~ rs → rs'.foldl batchStep 200 = rs.foldl batchStep 200 := by
  refine forall₂_congr fun rs' _ ↦ ⟨?_, fun h ↦ ?_⟩
  · rintro ⟨status, json, json', hrs, hrs'⟩
    rw [replied_iff] at hrs hrs'
    exact (congrArg Prod.fst hrs').symm.trans (congrArg Prod.fst hrs)
  · exact ⟨_, _, _, replied allowCors (some (array rs)),
      replied_iff.mpr (Prod.ext h.symm rfl)⟩

/-- **When the status of a batch is right.**  It is the most severe one of its items iff no item
that is not a request comes after the last unknown method; and it is that in every order iff the
batch does not have both. -/
theorem batchStatus_iff (allowCors : Bool) (rs : List Value)
    (hitems : ∀ r ∈ rs, r.isArray = false) :
    (StatusIsSeverest allowCors rs ↔ ((∃ u ∈ rs, IsUnknown u) → EndsUnknown rs)) ∧
    (StatusIsSeverest allowCors rs ∧ StatusIsStable allowCors rs ↔
      ¬ ((∃ r ∈ rs, ¬ IsRequest r) ∧ ∃ u ∈ rs, IsUnknown u)) := by
  rw [statusIsSeverest_iff allowCors hitems, statusIsStable_iff]
  refine ⟨foldl_batchStep_eq_severest_iff rs, ?_, fun h ↦ ?_⟩
  · rintro ⟨hsevere, hstable⟩ hmixed
    obtain ⟨rs', hperm, hne⟩ := Mixed.exists_perm hmixed
    exact hne ((hstable rs' hperm).trans hsevere)
  · have hsevere := foldl_batchStep_of_not_mixed h
    refine ⟨hsevere, fun rs' hperm ↦ ?_⟩
    rw [foldl_batchStep_of_not_mixed fun hm ↦ h (hm.perm hperm), hsevere, severest_perm hperm]

/-- A request for the method `pong`. -/
def pongRequest : Value :=
  object [("id", int 1), ("jsonrpc", string "2.0"), ("method", string "pong")]

theorem batchStatus_iff_sample : StatusIsSeverest false [null, pongRequest] ∧
    ¬ (StatusIsSeverest false [null, pongRequest] ∧ StatusIsStable false [null, pongRequest]) := by
  have hpong : IsUnknown pongRequest := ⟨(isValidReq_iff _).mp (by decide), by decide⟩
  have hnull : ¬ IsRequest null := not_isRequest_of_not_isObject rfl
  obtain ⟨hsevere, hboth⟩ := batchStatus_iff false [null, pongRequest] (by decide)
  refine ⟨hsevere.mpr fun _ ↦ ⟨[null], pongRequest, [], rfl, hpong, by simp⟩, fun h ↦ ?_⟩
  exact hboth.mp h ⟨⟨null, by simp, hnull⟩, pongRequest, by simp, hpong⟩

/-- An unknown method and then an item that is not a request: the status is 400, and not 404. -/
theorem not_statusIsSeverest : ¬ ∀ (allowCors : Bool) (rs : List Value),
    (∀ r ∈ rs, r.isArray = false) → StatusIsSeverest allowCors rs := by
  intro h
  have hbatch := h false [pongRequest, null] (by decide)
  rw [statusIsSeverest_iff false (by decide)] at hbatch
  exact absurd hbatch (by decide)

end Rpc
end XaMain
