import XaMain.Rpc.Response
import Mathlib.Data.List.Forall2

/-!
# The replies of the JSON-RPC server

Three results about the reply to a POST of any body at all: a batch is answered as its items would
be one by one (`batch_answers`), every response is a response object of JSON-RPC 2.0 to its request
(`replies_wellFormed`), and the HTTP status says whether there is an error among them, and so
whether the body, or every item of a batch, is a request for `ping` (`status_ok_iff`).
-/

set_option autoImplicit false

namespace XaMain
namespace Rpc

open Json Json.Value

/-! ## A batch and its items -/

/-- The item `r` of a batch is answered with `res`: as it would be alone, or, if it is an array,
which alone would be a batch of its own, as an invalid request. -/
def ItemAnswered (allowCors : Bool) (r res : Value) : Prop :=
  (r.isArray = false → ∃ status, Replied allowCors (some r) status res) ∧
    (r.isArray = true → res = errorObject (-32600) "Invalid Request" null)

theorem itemAnswered_answer (allowCors : Bool) (r : Value) :
    ItemAnswered allowCors r (answer r).2 := by
  refine ⟨fun h ↦ ⟨(answer r).1, ?_⟩, fun h ↦ ?_⟩
  · rw [replied_iff, reply_of_not_isArray h]
  · have hobject : r.isObject = false := by cases r <;> first | rfl | cases h
    rw [answer_invalid (not_isRequest_of_not_isObject hobject)]
    rfl

/-- **A batch answers exactly like its items sent one by one.**  The reply is an array with one
response for each item, in the same order. -/
theorem batch_answers (allowCors : Bool) (rs : List Value) :
    ∃ status results, Replied allowCors (some (array rs)) status (array results) ∧
      List.Forall₂ (ItemAnswered allowCors) rs results := by
  refine ⟨_, _, replied allowCors (some (array rs)), ?_⟩
  rw [List.forall₂_map_right_iff]
  exact List.forall₂_same.mpr fun r _ ↦ itemAnswered_answer allowCors r

/-! ## Response objects -/

/-- A response object of JSON-RPC 2.0. -/
structure IsResponse (v : Value) : Prop where
  object : v.isObject = true
  jsonrpc : v.find? "jsonrpc" = some (string "2.0")
  id : (v.find? "id").isSome = true
  /-- There is either a result or an error. -/
  result_xor_error : Xor ((v.find? "result").isSome = true) ((v.find? "error").isSome = true)
  /-- There are no other members. -/
  names : ∀ k ∈ v.memberNames, k ∈ ["jsonrpc", "id", "result", "error"]
  /-- An error has an integer code and a message. -/
  error : ∀ e, v.find? "error" = some e → ∃ code message,
    e.find? "code" = some (int code) ∧ e.find? "message" = some (string message)

theorem errorObject_result (code : Int) (message : String) (id : Value) :
    (errorObject code message id).find? "result" = none := rfl

theorem errorObject_error (code : Int) (message : String) (id : Value) :
    (errorObject code message id).find? "error"
      = some (.object [("code", int code), ("message", string message)]) := rfl

theorem pingObject_error (params id : Value) : (pingObject params id).find? "error" = none := rfl

theorem errorObject_isResponse (code : Int) (message : String) (id : Value) :
    IsResponse (errorObject code message id) where
  object := rfl
  jsonrpc := rfl
  id := rfl
  result_xor_error := Or.inr ⟨rfl, by rw [errorObject_result]; decide⟩
  names := by simp [errorObject, memberNames]
  error := by
    intro e he
    obtain rfl := Option.some.inj he
    exact ⟨code, message, rfl, rfl⟩

theorem pingObject_isResponse (params id : Value) : IsResponse (pingObject params id) where
  object := rfl
  jsonrpc := rfl
  id := rfl
  result_xor_error := Or.inl ⟨rfl, by rw [pingObject_error]; decide⟩
  names := by simp [pingObject, memberNames]
  error := by
    intro e he
    rw [pingObject_error] at he
    cases he

/-- **`res` is the response to the request `r`.** -/
structure Answers (r res : Value) : Prop extends IsResponse res where
  id_request : IsRequest r → res.find? "id" = r.find? "id"
  id_invalid : ¬ IsRequest r → res.find? "id" = some null
  result_iff : IsRequest r →
    ((res.find? "result").isSome = true ↔ r.find? "method" = some (string "ping"))
  result_params : IsRequest r → ∀ v, res.find? "result" = some v →
    v.find? "params" = some (r.member "params")

theorem IsRequest.id_member {r : Value} (h : IsRequest r) :
    some (r.member "id") = r.find? "id" := by
  obtain ⟨id, hid⟩ := h.id
  rw [member, hid, Option.getD_some]

theorem isPing_iff {r : Value} (h : IsRequest r) :
    isPing r = true ↔ r.find? "method" = some (string "ping") := by
  obtain ⟨m, hm⟩ := h.method
  rw [isPing, equals_iff, member, hm, Option.getD_some, Option.some.injEq]

theorem answer_answers (r : Value) : Answers r (answer r).2 := by
  by_cases h : IsRequest r
  · cases hping : isPing r with
    | true =>
      rw [answer_ping h hping]
      refine { pingObject_isResponse _ _ with
        id_request := fun _ ↦ h.id_member
        id_invalid := fun hn ↦ absurd h hn
        result_iff := fun _ ↦ ⟨fun _ ↦ (isPing_iff h).mp hping, fun _ ↦ rfl⟩
        result_params := fun _ v hv ↦ ?_ }
      obtain rfl := Option.some.inj hv
      rfl
    | false =>
      rw [answer_unknown h hping]
      refine { errorObject_isResponse _ _ _ with
        id_request := fun _ ↦ h.id_member
        id_invalid := fun hn ↦ absurd h hn
        result_iff := fun _ ↦ ⟨fun hres ↦ ?_, fun hm ↦ ?_⟩
        result_params := fun _ v hv ↦ ?_ }
      · rw [errorObject_result] at hres
        cases hres
      · rw [(isPing_iff h).mpr hm] at hping
        cases hping
      · rw [errorObject_result] at hv
        cases hv
  · rw [answer_invalid h]
    exact { errorObject_isResponse _ _ _ with
      id_request := fun hr ↦ absurd hr h
      id_invalid := fun _ ↦ rfl
      result_iff := fun hr ↦ absurd hr h
      result_params := fun hr ↦ absurd hr h }

/-- **Every reply is a well-formed response to its request.**  A body that cannot be read gets an
error without an id, a batch an array with the responses to its items, and any other value the
response to it. -/
theorem replies_wellFormed (allowCors : Bool) (parsed : Option Value) :
    ∃ status json, Replied allowCors parsed status json ∧
      match parsed with
      | none => IsResponse json ∧ json.find? "id" = some null
      | some (array rs) => ∃ results, json = array results ∧ List.Forall₂ Answers rs results
      | some r => Answers r json := by
  refine ⟨_, _, replied allowCors parsed, ?_⟩
  rcases parsed with _ | r
  · exact ⟨errorObject_isResponse _ _ _, rfl⟩
  · cases r with
    | array rs =>
      refine ⟨_, rfl, ?_⟩
      rw [List.forall₂_map_right_iff]
      exact List.forall₂_same.mpr fun r _ ↦ answer_answers r
    | _ => exact answer_answers _

/-! ## The status and the body -/

/-- The response objects of a reply. -/
def responses : Value → List Value
  | array results => results
  | v => [v]

theorem responses_of_isObject {v : Value} (h : v.isObject = true) : responses v = [v] := by
  cases v with
  | array items => cases h
  | _ => rfl

/-- The statuses of single answers. -/
theorem answer_status (r : Value) :
    (answer r).1 = 200 ∨ (answer r).1 = 400 ∨ (answer r).1 = 404 := by
  by_cases h : IsRequest r
  · cases hping : isPing r with
    | true => rw [answer_ping h hping]; exact Or.inl rfl
    | false => rw [answer_unknown h hping]; exact Or.inr (Or.inr rfl)
  · rw [answer_invalid h]; exact Or.inr (Or.inl rfl)

theorem answer_ok_iff (r : Value) : (answer r).1 = 200 ↔ (answer r).2.find? "error" = none := by
  by_cases h : IsRequest r
  · cases hping : isPing r with
    | true => rw [answer_ping h hping]; exact ⟨fun _ ↦ rfl, fun _ ↦ rfl⟩
    | false =>
      rw [answer_unknown h hping]
      rw [errorObject_error]
      exact ⟨fun h ↦ (by cases h), fun h ↦ (by cases h)⟩
  · rw [answer_invalid h, errorObject_error]
    exact ⟨fun h ↦ (by cases h), fun h ↦ (by cases h)⟩

/-- The requests that are answered with success. -/
theorem answer_200_iff (r : Value) : (answer r).1 = 200 ↔ IsRequest r ∧ isPing r = true := by
  by_cases h : IsRequest r
  · cases hping : isPing r with
    | true =>
      rw [answer_ping h hping]
      exact ⟨fun _ ↦ ⟨h, rfl⟩, fun _ ↦ rfl⟩
    | false =>
      rw [answer_unknown h hping]
      exact ⟨fun hok ↦ absurd hok (by simp), fun hr ↦ absurd hr.2 (by decide)⟩
  · rw [answer_invalid h]
    exact ⟨fun hok ↦ absurd hok (by simp), fun hr ↦ absurd hr.1 h⟩

theorem batchStep_ge {code : Nat} (hcode : 200 ≤ code) (r : Value) : 200 ≤ batchStep code r := by
  rw [batchStep]
  split_ifs
  · exact le_max_of_le_left hcode
  · decide

/-- One item leaves the status at 200 only if it was 200 and the item is answered so. -/
theorem batchStep_ok_iff {code : Nat} (hcode : 200 ≤ code) (r : Value) :
    batchStep code r = 200 ↔ code = 200 ∧ (answer r).1 = 200 := by
  rw [batchStep]
  by_cases h : IsRequest r
  · rw [if_pos ((isValidReq_iff r).mpr h)]
    have hge : 200 ≤ (answer r).1 := by
      rcases answer_status r with h | h | h <;> rw [h] <;> decide
    omega
  · rw [if_neg fun hv ↦ h ((isValidReq_iff r).mp hv), answer_invalid h]
    exact ⟨fun h ↦ absurd h (by decide), fun h ↦ absurd h.2 (by decide)⟩

/-- **The loop keeps track of errors**: the status is 200 as long as every answer was a success. -/
theorem foldl_batchStep_ok_iff (rs : List Value) {code : Nat} (hcode : 200 ≤ code) :
    rs.foldl batchStep code = 200 ↔ code = 200 ∧ ∀ r ∈ rs, (answer r).1 = 200 := by
  induction rs generalizing code with
  | nil => simp
  | cons r rs ih =>
    rw [List.foldl_cons, ih (batchStep_ge hcode r), batchStep_ok_iff hcode r, and_assoc,
      List.forall_mem_cons]

/-- **HTTP status and JSON-RPC body never contradict each other**: the status is 200 iff no response
of the reply has an error.  It is for a request for `ping` and for no other single value, and for a
batch iff every item of it, wherever it stands, is such a request; so no item is masked by those
after it, and a batch of successes, or without any item, does not fail. -/
theorem status_ok_iff (allowCors : Bool) (parsed : Option Value) :
    ∃ status json, Replied allowCors parsed status json ∧
      (status = 200 ↔ ∀ v ∈ responses json, v.find? "error" = none) ∧
      (parsed = none → status ≠ 200) ∧
      (∀ r, parsed = some r → r.isArray = false →
        (status = 200 ↔ IsRequest r ∧ isPing r = true)) ∧
      ∀ rs, parsed = some (array rs) →
        (status = 200 ↔ ∀ r ∈ rs, IsRequest r ∧ isPing r = true) := by
  refine ⟨_, _, replied allowCors parsed, ?_, ?_, ?_, ?_⟩
  · rcases parsed with _ | r
    · refine ⟨fun h ↦ absurd h (by decide), fun h ↦ ?_⟩
      have herror := h (errorObject errorParseError "Parse Error" null) List.mem_cons_self
      rw [errorObject_error] at herror
      cases herror
    · cases harray : r.isArray with
      | false =>
        rw [reply_of_not_isArray harray, responses_of_isObject (answer_answers r).object,
          List.forall_mem_singleton]
        exact answer_ok_iff r
      | true =>
        cases r with
        | array rs =>
          show rs.foldl batchStep 200 = 200 ↔
            ∀ v ∈ rs.map fun r ↦ (answer r).2, v.find? "error" = none
          rw [foldl_batchStep_ok_iff rs (Nat.le_refl _), List.forall_mem_map]
          simp only [true_and, answer_ok_iff]
        | _ => cases harray
  · rintro rfl
    decide
  · rintro r rfl harray
    rw [reply_of_not_isArray harray]
    exact answer_200_iff r
  · rintro rs rfl
    show rs.foldl batchStep 200 = 200 ↔ _
    rw [foldl_batchStep_ok_iff rs (Nat.le_refl _)]
    simp only [true_and, answer_200_iff]

end Rpc
end XaMain
