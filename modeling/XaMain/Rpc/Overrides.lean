import XaMain.Rpc.Routing

/-!
# Servers with any `serve`

A class that derives from `rpc_base` overrides one function, `serve`, and may do anything with the
response there.  Beside `pca::rpc` there is the echo server of the tests.  This file is about any
such class whose `serve` is a function of the request and the response.

* `serve_envelope` — what the handler makes of a response that `serve` has left: the id and the
  version are set whatever was there, and there is an error whenever `serve` returned `false`, even
  if it has made none.
* `batch_any` — a batch is answered iff each of its items can be, and then with their answers; and
  an exception of one item is an exception of the handler, so that the whole batch gets no reply.
-/

set_option autoImplicit false

namespace XaMain
namespace Rpc

open Json Json.Value

/-! ## Two classes -/

/-- `rpc_base::serve_unimplemented` -/
def serveUnimplemented (_params : Value) : Comp Value Exception Bool := do
  atMember "error" (assign (object []))
  atMember "error" (atMember "code" (assign (int errorInternalError)))
  atMember "error" (atMember "message" (assign (string "Not Implemented")))
  return false

/-- `rpc_echo` -/
def rpcEcho : RpcBase where
  serve req := do
    atMember "result" (assign req)
    return true

/-! ## Members -/

/-- A value that `operator[]` can add members to. -/
def Buildable (v : Value) : Prop := v = null ∨ v.isObject = true

theorem atMember_buildable {α : Type} {v : Value} (hv : Buildable v) (key : String)
    (c : Comp Value Exception α) : ∃ members,
    atMember key c v = ((c (v.member key)).1, object members) ∧
      members.lookup key = some (c (v.member key)).2 ∧
      ∀ k, k ≠ key → members.lookup k = v.find? k := by
  have hstep (members : List (String × Value)) (w : Value) :
      (OrderedMap.assign key w members).lookup key = some w ∧
        ∀ k, k ≠ key → (OrderedMap.assign key w members).lookup k = members.lookup k :=
    ⟨OrderedMap.lookup_assign_self key w members, fun _ hk ↦ OrderedMap.lookup_upsert_ne hk _ _⟩
  cases v with
  | null => exact ⟨_, rfl, hstep [] _⟩
  | object members => exact ⟨_, rfl, hstep members _⟩
  | _ => obtain h | h := hv <;> cases h

/-- Other values have no members. -/
theorem atMember_threw {α : Type} {v : Value} (hv : ¬ Buildable v) (key : String)
    (c : Comp Value Exception α) : ∃ e, atMember key c v = (.threw e, v) := by
  cases v with
  | null => exact absurd (Or.inl rfl) hv
  | object members => exact absurd (Or.inr rfl) hv
  | _ => exact ⟨_, rfl⟩

/-! ## The envelope -/

/-- What the handler adds to a response with the status `code`. -/
def envelope (req : Value) (code : Nat) : Comp Value Exception Nat := do
  let id ← Comp.ofExcept (req.get "id")
  atMember "id" (assign id)
  atMember "jsonrpc" (assign (string "2.0"))
  return code

/-- The call of `serve` and what the handler does after it. -/
theorem serve_eq (server : RpcBase) (req : Value) : serve server req = (do
    let ok ← server.serve req
    if ok then
      envelope req 200
    else do
      let code ← atMember "error" (atMember "code" asIntHere)
      envelope req (httpStatusFromErrorCode code)) := rfl

/-- A response is enveloped unless it cannot have members. -/
theorem envelope_buildable {req v : Value} (hreq : req.isObject = true) (hv : Buildable v)
    (code : Nat) : ∃ res, envelope req code v = (.returned code, res) ∧ res.isObject = true ∧
      res.find? "id" = some (req.member "id") ∧ res.find? "jsonrpc" = some (string "2.0") ∧
      ∀ k, k ≠ "id" → k ≠ "jsonrpc" → res.find? k = v.find? k := by
  obtain ⟨members, hid, hfound, hother⟩ := atMember_buildable hv "id" (assign (req.member "id"))
  obtain ⟨members', hversion, hfound', hkept⟩ :=
    atMember_buildable (v := object members) (Or.inr rfl) "jsonrpc" (assign (string "2.0"))
  refine ⟨object members', ?_, rfl, ?_, hfound', fun k hk hk' ↦ ?_⟩
  · rw [envelope, get_of_isObject hreq, Comp.bind_returned (Comp.ofExcept_apply _ _),
      Comp.bind_returned hid, Comp.bind_returned hversion]
    rfl
  · exact (hkept "id" (by decide)).trans hfound
  · exact (hkept k hk').trans (hother k hk)

theorem envelope_threw {req v : Value} (hreq : req.isObject = true) (hv : ¬ Buildable v)
    (code : Nat) : ∃ e, envelope req code v = (.threw e, v) := by
  obtain ⟨e, hrun⟩ := atMember_threw hv "id" (assign (req.member "id"))
  refine ⟨e, ?_⟩
  rw [envelope, get_of_isObject hreq, Comp.bind_returned (Comp.ofExcept_apply _ _),
    Comp.bind_threw hrun]

/-- The code of the error in a response that `serve` has left, if there is one to be read. -/
def errorCode (left : Value) : Except Exception Int := ((left.member "error").member "code").asInt

/-- `serve` has left a response the handler can finish. -/
def Finishable (ok : Bool) (left : Value) : Prop :=
  Buildable left ∧
    (ok = false → Buildable (left.member "error") ∧ ∃ code, errorCode left = .ok code)

/-- Reading the code of the error leaves an error with a code in the response. -/
theorem errorCode_read {left : Value} {code : Int} (hleft : Buildable left)
    (herror : Buildable (left.member "error")) (hcode : errorCode left = .ok code) :
    ∃ members members', atMember "error" (atMember "code" asIntHere) left
        = (.returned code, object members) ∧
      members.lookup "error" = some (object members') ∧
      members'.lookup "code" = some ((left.member "error").member "code") ∧
      (∀ k, k ≠ "code" → members'.lookup k = (left.member "error").find? k) ∧
      ∀ k, k ≠ "error" → members.lookup k = left.find? k := by
  obtain ⟨members', hread, hfound', hother'⟩ := atMember_buildable herror "code" asIntHere
  obtain ⟨members, hrun, hfound, hother⟩ :=
    atMember_buildable hleft "error" (atMember "code" asIntHere)
  rw [hread] at hrun hfound
  refine ⟨members, members', ?_, hfound, hfound', hother', hother⟩
  rw [hrun, asIntHere]
  show (Outcome.ofExcept (errorCode left), _) = _
  rw [hcode]
  rfl

theorem errorCode_threw {left : Value} (hleft : Buildable left)
    (h : ¬ (Buildable (left.member "error") ∧ ∃ code, errorCode left = .ok code)) :
    ∃ e res, atMember "error" (atMember "code" asIntHere) left = (.threw e, res) := by
  obtain ⟨members, hrun, -, -⟩ := atMember_buildable hleft "error" (atMember "code" asIntHere)
  by_cases herror : Buildable (left.member "error")
  · obtain ⟨members', hread, -, -⟩ := atMember_buildable herror "code" asIntHere
    cases hcode : errorCode left with
    | ok code => exact absurd ⟨herror, code, hcode⟩ h
    | error e =>
      refine ⟨e, object members, ?_⟩
      rw [hrun, hread, asIntHere]
      show (Outcome.ofExcept (errorCode left), _) = _
      rw [hcode]
      rfl
  · obtain ⟨e, hread⟩ := atMember_threw herror "code" asIntHere
    exact ⟨e, object members, by rw [hrun, hread]⟩

/-- **The response `res` with the status `status`**, made of what `serve` has left for a request. -/
structure Enveloped (req : Value) (ok : Bool) (left : Value) (status : Nat) (res : Value) :
    Prop where
  object : res.isObject = true
  id : res.find? "id" = some (req.member "id")
  jsonrpc : res.find? "jsonrpc" = some (string "2.0")
  /-- A success is left as it is. -/
  success : ok = true → status = 200 ∧ res.find? "error" = left.find? "error"
  /-- A failure has an error, with a code the status is made of. -/
  failure : ok = false → ∃ e code, res.find? "error" = some e ∧ e.isObject = true ∧
    e.find? "code" = some ((left.member "error").member "code") ∧ errorCode left = .ok code ∧
    status = (if code = -32601 then 404 else 500) ∧
    ∀ k, k ≠ "code" → e.find? k = (left.member "error").find? k
  others : ∀ k, k ∉ ["id", "jsonrpc", "error"] → res.find? k = left.find? k

section Serve

variable {server : RpcBase} {req v left : Value} {ok : Bool} (hreq : req.isObject = true)
  (hserve : server.serve req v = (.returned ok, left))

include hreq hserve

theorem serve_finishable (h : Finishable ok left) :
    ∃ status res, serve server req v = (.returned status, res) ∧
      Enveloped req ok left status res := by
  obtain ⟨hleft, hfailure⟩ := h
  rw [serve_eq, Comp.bind_returned hserve]
  cases ok with
  | true =>
    obtain ⟨res, hrun, hobject, hid, hversion, hother⟩ := envelope_buildable hreq hleft 200
    refine ⟨200, res, hrun, hobject, hid, hversion, fun _ ↦ ⟨rfl, ?_⟩, by simp, fun k hk ↦ ?_⟩
    · exact hother "error" (by decide) (by decide)
    · simp only [List.mem_cons, List.not_mem_nil, or_false, not_or] at hk
      exact hother k hk.1 hk.2.1
  | false =>
    obtain ⟨herror, code, hcode⟩ := hfailure rfl
    obtain ⟨members, members', hread, hfound, hcode', hother', hother⟩ :=
      errorCode_read hleft herror hcode
    obtain ⟨res, hrun, hobject, hid, hversion, hothers⟩ :=
      envelope_buildable (v := object members) hreq (Or.inr rfl) (httpStatusFromErrorCode code)
    refine ⟨httpStatusFromErrorCode code, res, ?_, hobject, hid, hversion, by simp, fun _ ↦ ?_,
      fun k hk ↦ ?_⟩
    · rw [if_neg (by decide), Comp.bind_returned hread, hrun]
    · refine ⟨object members', code, ?_, rfl, hcode', hcode, ?_, hother'⟩
      · exact (hothers "error" (by decide) (by decide)).trans hfound
      · rw [httpStatusFromErrorCode, errorMethodNotFound]
        split_ifs <;> rfl
    · simp only [List.mem_cons, List.not_mem_nil, or_false, not_or] at hk
      exact (hothers k hk.1 hk.2.1).trans (hother k hk.2.2)

theorem serve_unfinishable (h : ¬ Finishable ok left) :
    ∃ e res, serve server req v = (.threw e, res) := by
  rw [serve_eq, Comp.bind_returned hserve]
  cases ok with
  | true =>
    have hleft : ¬ Buildable left := fun hleft ↦ h ⟨hleft, by simp⟩
    obtain ⟨e, hrun⟩ := envelope_threw hreq hleft 200
    exact ⟨e, left, hrun⟩
  | false =>
    rw [if_neg (by decide)]
    by_cases hleft : Buildable left
    · obtain ⟨e, res, hrun⟩ := errorCode_threw hleft fun herror ↦ h ⟨hleft, fun _ ↦ herror⟩
      exact ⟨e, res, Comp.bind_threw hrun _⟩
    · obtain ⟨e, hrun⟩ := atMember_threw hleft "error" (atMember "code" asIntHere)
      exact ⟨e, left, Comp.bind_threw hrun _⟩

end Serve

/-- **What the handler makes of the response a server leaves**, whatever its `serve` does.  Unless
the response, or the error that is read, is of a type that has no members, or the code cannot be
read as an `int`, it is finished: it has the id of the request and the version, and it is otherwise
as it was left, but that a failure has an error with a code even if the server has made none.  What
the server throws is not caught. -/
theorem serve_envelope (server : RpcBase) (req v : Value) (hreq : req.isObject = true) :
    (∀ ok left, server.serve req v = (.returned ok, left) → Finishable ok left →
      ∃ status res, serve server req v = (.returned status, res) ∧
        Enveloped req ok left status res) ∧
    (∀ ok left, server.serve req v = (.returned ok, left) → ¬ Finishable ok left →
      ∃ e res, serve server req v = (.threw e, res)) ∧
    ∀ e left, server.serve req v = (.threw e, left) → serve server req v = (.threw e, left) := by
  refine ⟨fun ok left hserve ↦ serve_finishable hreq hserve,
    fun ok left hserve ↦ serve_unfinishable hreq hserve, fun e left hserve ↦ ?_⟩
  rw [serve_eq, Comp.bind_threw hserve]

/-- `{"id": 7, "jsonrpc": "2.0", "method": "search"}` -/
def searchRequest : Value :=
  object [("id", int 7), ("jsonrpc", string "2.0"), ("method", string "search")]

/-- A server that has nothing but `serve_unimplemented`. -/
def unimplementedServer : RpcBase where
  serve := serveUnimplemented

theorem serve_envelope_unimplemented : ∃ res,
    serve unimplementedServer searchRequest null = (.returned 500, res) ∧
      res.find? "id" = some (int 7) := by
  have hserve : unimplementedServer.serve searchRequest null = (.returned false,
      object [("error", object [("code", int (-32603)), ("message", string "Not Implemented")])]) :=
    rfl
  obtain ⟨status, res, hrun, henv⟩ :=
    (serve_envelope unimplementedServer searchRequest null rfl).1 _ _ hserve
      ⟨Or.inr rfl, fun _ ↦ ⟨Or.inr rfl, -32603, rfl⟩⟩
  obtain ⟨e, code, -, -, -, hcode, hstatus, -⟩ := henv.failure rfl
  obtain rfl : -32603 = code := Except.ok.inj hcode
  obtain rfl : status = 500 := hstatus.trans (by decide)
  exact ⟨res, hrun, henv.id⟩

/-! ## Batches -/

/-- How an item of a batch is answered. -/
def itemAnswer (server : RpcBase) (r : Value) : Outcome Exception Nat × Value :=
  if isValidReq r = .ok true then serve server r (object [])
  else (.returned 400, errorObject errorInvalidRequest "Invalid Request" null)

/-- The status of a batch after an item that has the status `status`. -/
def itemStatus (r : Value) (code status : Nat) : Nat :=
  if isValidReq r = .ok true then max code status else 400

theorem serveItem_any (server : RpcBase) (r : Value) (code : Nat) :
    serveItem server code r (object [])
      = ((itemAnswer server r).1.map (itemStatus r code), (itemAnswer server r).2) := by
  by_cases h : IsRequest r
  · have hvalid := (isValidReq_iff r).mpr h
    rw [serveItem, hvalid, Comp.bind_returned (Comp.ofExcept_apply _ _), if_pos rfl, itemAnswer,
      if_pos hvalid, Comp.bind_apply]
    rcases serve server r (object []) with ⟨status | e | _ | _, res⟩
    case returned =>
      simp only [Outcome.map, itemStatus, if_pos hvalid]
      by_cases hgt : status > code
      · rw [if_pos hgt, max_eq_right hgt.le]
        rfl
      · rw [if_neg hgt, max_eq_left (not_lt.mp hgt)]
        rfl
    all_goals rfl
  · have hinvalid := isValidReq_eq_false h
    rw [serveItem, hinvalid, Comp.bind_returned (Comp.ofExcept_apply _ _),
      if_neg Bool.false_ne_true, Comp.bind_returned (setResponseError_eq _ _ (Or.inr rfl)),
      itemAnswer, if_neg (by simp [hinvalid])]
    show _ = (Outcome.returned (itemStatus r code 400), _)
    rw [itemStatus, if_neg (by simp [hinvalid])]
    rfl

/-- An item can be answered. -/
def Answered (server : RpcBase) (r : Value) : Prop :=
  ∃ status, (itemAnswer server r).1 = .returned status

/-- The statuses the handler gives. -/
theorem itemAnswer_ge {server : RpcBase} {r : Value} {status : Nat}
    (h : (itemAnswer server r).1 = .returned status) : 200 ≤ status := by
  rw [itemAnswer] at h
  split_ifs at h with hvalid
  · have hreq := ((isValidReq_iff r).mp hvalid).object
    rcases hserve : server.serve r (object []) with ⟨ok | e | _ | _, left⟩
    case returned =>
      by_cases hfinish : Finishable ok left
      · obtain ⟨status', res, hrun, henv⟩ := serve_finishable hreq hserve hfinish
        rw [hrun] at h
        obtain rfl : status' = status := Outcome.returned.inj h
        cases ok with
        | true => exact (henv.success rfl).1.ge
        | false =>
          obtain ⟨-, code, -, -, -, -, hstatus, -⟩ := henv.failure rfl
          rw [hstatus]
          split_ifs <;> decide
      · obtain ⟨e, res, hrun⟩ := serve_unfinishable hreq hserve hfinish
        rw [hrun] at h
        simp at h
    all_goals
      rw [serve_eq, Comp.bind_apply, hserve] at h
      simp at h
  · obtain rfl : 400 = status := Outcome.returned.inj h
    decide

section Loop

variable {server : RpcBase} {r : Value} {rs : List Value} {code : Nat} {done : List Value}

theorem batchLoop_answered {status : Nat} (h : (itemAnswer server r).1 = .returned status) :
    batchLoop server (r :: rs) code (array done) = batchLoop server rs (itemStatus r code status)
      (array (done ++ [(itemAnswer server r).2])) := by
  have hitem : serveItem server code r (object [])
      = (.returned (itemStatus r code status), (itemAnswer server r).2) := by
    rw [serveItem_any, h]
    rfl
  rw [batchLoop, Comp.bind_returned (Comp.withLocal_returned hitem _)]
  rfl

variable (rs code done) in
/-- The loop stops at an item that cannot be answered. -/
theorem batchLoop_stopped (h : ¬ Answered server r) :
    (batchLoop server (r :: rs) code (array done)).1
      = (itemAnswer server r).1.map (itemStatus r code) := by
  rw [batchLoop, Comp.bind_apply, Comp.withLocal, serveItem_any]
  rcases hitem : (itemAnswer server r).1 with status | e | _ | _
  case returned => exact absurd ⟨status, hitem⟩ h
  all_goals rfl

variable (code done) in
/-- If all items can be answered, the loop answers them, and the status says whether all of them
were successes. -/
theorem batchLoop_all (hcode : 200 ≤ code) (h : ∀ r ∈ rs, Answered server r) :
    ∃ code', batchLoop server rs code (array done)
        = (.returned code', array (done ++ rs.map fun r ↦ (itemAnswer server r).2)) ∧
      (code' = 200 ↔ code = 200 ∧ ∀ r ∈ rs, (itemAnswer server r).1 = .returned 200) := by
  induction rs generalizing code done with
  | nil => exact ⟨code, by rw [List.map_nil, List.append_nil]; rfl, by simp⟩
  | cons r rs ih =>
    obtain ⟨⟨status, hstatus⟩, hrest⟩ := List.forall_mem_cons.mp h
    have hge := itemAnswer_ge hstatus
    have hnext : 200 ≤ itemStatus r code status ∧
        (itemStatus r code status = 200 ↔ code = 200 ∧ status = 200) := by
      rw [itemStatus]
      split_ifs with hvalid
      · omega
      · have hinvalid : status = 400 := by
          rw [itemAnswer, if_neg hvalid] at hstatus
          exact (Outcome.returned.inj hstatus).symm
        omega
    obtain ⟨code', hrun, hiff⟩ := ih _ (done ++ [(itemAnswer server r).2]) hnext.1 hrest
    refine ⟨code', ?_, ?_⟩
    · rw [batchLoop_answered hstatus, hrun, List.map_cons, List.append_assoc, List.singleton_append]
    · rw [hiff, hnext.2, List.forall_mem_cons, hstatus, Outcome.returned.injEq, and_assoc]

/-- If the loop gets to its end, all items could be answered. -/
theorem answered_of_batchLoop {code' : Nat} {v : Value}
    (h : batchLoop server rs code (array done) = (.returned code', v)) :
    ∀ r ∈ rs, Answered server r := by
  induction rs generalizing code done with
  | nil => simp
  | cons r rs ih =>
    by_cases hr : Answered server r
    · obtain ⟨status, hstatus⟩ := hr
      rw [batchLoop_answered hstatus] at h
      exact List.forall_mem_cons.mpr ⟨⟨status, hstatus⟩, ih h⟩
    · have hstop := batchLoop_stopped rs code done hr
      rw [h] at hstop
      rcases hitem : (itemAnswer server r).1 with status | e | _ | _
      case returned => exact absurd ⟨status, hitem⟩ hr
      all_goals
        rw [hitem] at hstop
        simp [Outcome.map] at hstop

/-- The first exception ends the loop. -/
theorem batchLoop_threw (code : Nat) (done : List Value) {answered : List Value}
    (rest : List Value) {e : Exception}
    (h : ∀ q ∈ answered, Answered server q) (hr : (itemAnswer server r).1 = .threw e) :
    (batchLoop server (answered ++ r :: rest) code (array done)).1 = .threw e := by
  induction answered generalizing code done with
  | nil =>
    have hno : ¬ Answered server r := fun ⟨status, hs⟩ ↦ by
      rw [hr] at hs
      simp at hs
    rw [List.nil_append, batchLoop_stopped _ _ _ hno, hr]
    rfl
  | cons q answered ih =>
    obtain ⟨⟨status, hstatus⟩, hrest⟩ := List.forall_mem_cons.mp h
    rw [List.cons_append, batchLoop_answered hstatus]
    exact ih _ _ hrest

end Loop

/-- One value that is not an array is answered as an item is, by a server that cannot tell an empty
object from null. -/
theorem post_alone (server : RpcBase) {r : Value} (harray : r.isArray = false)
    (hblank : server.serve r null = server.serve r (object [])) :
    post server (some r) null = itemAnswer server r := by
  have hserve : serve server r null = serve server r (object []) := by
    rw [serve_eq, Comp.bind_apply, Comp.bind_apply, hblank]
  by_cases h : IsRequest r
  · have hvalid := (isValidReq_iff r).mpr h
    rw [itemAnswer, if_pos hvalid, ← hserve]
    cases r with
    | object members =>
      rw [post_object, hvalid, Comp.bind_returned (Comp.ofExcept_apply _ _), if_pos rfl]
    | _ => cases h.object
  · have hinvalid := isValidReq_eq_false h
    rw [itemAnswer, if_neg (by simp [hinvalid])]
    cases hobject : r.isObject with
    | false =>
      rw [post_other server hobject harray,
        Comp.bind_returned (setResponseError_eq _ _ (Or.inl rfl))]
      rfl
    | true =>
      cases r with
      | object members =>
        rw [post_object, hinvalid, Comp.bind_returned (Comp.ofExcept_apply _ _),
          if_neg Bool.false_ne_true, Comp.bind_returned (setResponseError_eq _ _ (Or.inl rfl))]
        rfl
      | _ => cases hobject

/-- **A batch and its items, for any `serve`.**  There is a reply iff each item can be answered, and
then it has the answers of the items in their order, those they would get alone, and the status 200
iff all of them have.  The exception of an item is an exception of the handler: the reply to the
whole batch is lost, and the items after it are not looked at. -/
theorem batch_any (lib : HttpLib) (server : RpcBase) (request : HttpRequest) (rs : List Value)
    (before : HttpResponse) (hcall : request.IsCall)
    (hparse : lib.parse request.body = some (array rs)) :
    ((∃ response, handle lib server request before = (.returned (), response)) ↔
      ∀ r ∈ rs, Answered server r) ∧
    (∀ response, handle lib server request before = (.returned (), response) →
      response.content = lib.write (array (rs.map fun r ↦ (itemAnswer server r).2)) ∧
      (response.status = 200 ↔ ∀ r ∈ rs, (itemAnswer server r).1 = .returned 200)) ∧
    (∀ answered r rest e, rs = answered ++ r :: rest → (∀ q ∈ answered, Answered server q) →
      (itemAnswer server r).1 = .threw e →
      handle lib server request before = (.threw e, before)) ∧
    ∀ r ∈ rs, r.isArray = false → server.serve r null = server.serve r (object []) →
      post server (some r) null = itemAnswer server r := by
  have hpost : post server (lib.parse request.body) null
      = batchLoop server rs 200 (array []) := by
    rw [hparse]
    rfl
  have hanswered (h : ∀ r ∈ rs, Answered server r) : ∃ response,
      handle lib server request before = (.returned (), response) ∧
        response.content = lib.write (array (rs.map fun r ↦ (itemAnswer server r).2)) ∧
        (response.status = 200 ↔ ∀ r ∈ rs, (itemAnswer server r).1 = .returned 200) := by
    obtain ⟨code, hrun, hiff⟩ := batchLoop_all 200 [] (Nat.le_refl _) h
    rw [← hpost] at hrun
    refine ⟨_, handle_call_returned hcall hrun, lib.content_stockReply _ _, ?_⟩
    show (lib.stockReply code _).status = 200 ↔ _
    rw [lib.status_stockReply, hiff]
    simp
  have hreply : ∀ response, handle lib server request before = (.returned (), response) →
      ∀ r ∈ rs, Answered server r := by
    intro response h
    obtain ⟨code, json, hrun⟩ := post_of_handle_call hcall h
    rw [hpost] at hrun
    exact answered_of_batchLoop hrun
  refine ⟨⟨fun ⟨response, h⟩ ↦ hreply response h, fun h ↦ ?_⟩, fun response h ↦ ?_, ?_,
    fun r _ harray hblank ↦ post_alone server harray hblank⟩
  · obtain ⟨response, hrun, -⟩ := hanswered h
    exact ⟨response, hrun⟩
  · obtain ⟨response', hrun, hspec⟩ := hanswered (hreply response h)
    rw [hrun] at h
    rw [← (Prod.mk.inj h).2]
    exact hspec
  · rintro answered r rest e rfl h hr
    have hthrew := batchLoop_threw 200 [] rest h hr
    rw [← hpost] at hthrew
    exact handle_call_threw hcall (Prod.ext hthrew rfl)

/-- A reader that reads every body as a batch of a request and a number. -/
def batchLib : HttpLib := { plainLib with parse := fun _ ↦ some (array [searchRequest, int 1]) }

/-- The echo server answers the request, and the number makes the batch a failure. -/
theorem batch_any_echo : ∃ response,
    handle batchLib rpcEcho ⟨"POST", "/rpc", [], ""⟩ ⟨0, [], ""⟩ = (.returned (), response) ∧
      response.status ≠ 200 := by
  obtain ⟨hreply, hspec, -⟩ := batch_any batchLib rpcEcho ⟨"POST", "/rpc", [], ""⟩
    [searchRequest, int 1] ⟨0, [], ""⟩ ⟨rfl, rfl⟩ rfl
  have hnumber : (itemAnswer rpcEcho (int 1)).1 = .returned 400 := rfl
  have hall : ∀ r ∈ [searchRequest, int 1], Answered rpcEcho r := by
    have hserve : rpcEcho.serve searchRequest (object [])
        = (.returned true, object [("result", searchRequest)]) := rfl
    obtain ⟨status, res, hrun, -⟩ := serve_finishable rfl hserve
      ⟨Or.inr rfl, by simp⟩
    have hrequest : Answered rpcEcho searchRequest :=
      ⟨status, by rw [itemAnswer, if_pos (show isValidReq searchRequest = .ok true from rfl), hrun]⟩
    simpa using ⟨hrequest, 400, hnumber⟩
  obtain ⟨response, hrun⟩ := hreply.mpr hall
  refine ⟨response, hrun, fun h ↦ ?_⟩
  have hsuccess := (hspec response hrun).2.mp h (int 1) (by simp)
  rw [hnumber] at hsuccess
  exact absurd hsuccess (by decide)

end Rpc
end XaMain
