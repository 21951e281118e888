import XaMain.Rpc.Handler

/-!
# What a request is answered with

The handler builds a response step by step, in one of five places and from one of two initial
values.  This file says what comes of it.  A request is accepted or not (`IsRequest`), and `answer`
is the status and the response object it gets: the result of a ping, or an error.  A body is
answered with `reply`: one answer, or for a batch the answers of its items, in order.

## What is here

* `isValidReq_iff` — the check of requests accepts `IsRequest`, and never throws.
* `isValidReq_exact_iff` — when that is what JSON-RPC 2.0 calls a request.
* `serve_request`, `serveItem_eq` — one request, alone or as an item of a batch, gets its answer.
* `post_eq` — the POST branch computes `reply`.
* `Replied` — the reply to an HTTP request, for which `replied_iff` says the same.
-/

set_option autoImplicit false

namespace XaMain
namespace Rpc

open Json Json.Value

/-! ## Requests -/

/-- A request object with an id, which may be any value. -/
structure IsRequest (v : Value) : Prop where
  /-- It is an object … -/
  object : v.isObject = true
  /-- … with no other members. -/
  names : ∀ k ∈ v.memberNames, k ∈ requestMembers
  jsonrpc : v.find? "jsonrpc" = some (.string "2.0")
  method : ∃ m, v.find? "method" = some (.string m)
  id : ∃ id, v.find? "id" = some id
  params : ∀ p, v.find? "params" = some p → p.isArray = true ∨ p.isObject = true

/-- The check of an object, with the reading of its members carried out. -/
theorem isValidReq_object (members : List (String × Value)) :
    isValidReq (object members) = .ok (
      if (members.map Prod.fst).any fun it ↦ !requestMembers.contains it then false
      else if !(members.lookup "jsonrpc").isSome || !(members.lookup "method").isSome
          || !(members.lookup "id").isSome then false
      else if !((members.lookup "jsonrpc").getD null).isString
          || !((members.lookup "jsonrpc").getD null).equals "2.0"
          || !((members.lookup "method").getD null).isString then false
      else if (members.lookup "params").isSome then
        ((members.lookup "params").getD null).isArray
          || ((members.lookup "params").getD null).isObject
      else true) := by
  rw [isValidReq]
  simp only [isMember, Value.get, find, bind, Except.bind, pure, Except.pure, getMemberNames,
    show (object members).isObject = true from rfl, Bool.not_true, Bool.false_eq_true, if_false]
  split_ifs <;> rfl

theorem isValidReq_total (v : Value) : ∃ b, isValidReq v = .ok b := by
  cases v with
  | object members => exact ⟨_, isValidReq_object members⟩
  | _ => exact ⟨false, rfl⟩

theorem isString_iff {v : Value} : v.isString = true ↔ ∃ s, v = .string s := by
  cases v <;> simp [isString]

theorem equals_iff {v : Value} {s : String} : v.equals s = true ↔ v = .string s := by
  cases v <;> simp [equals]

/-- **The check accepts the request objects.** -/
theorem isValidReq_iff (v : Value) : isValidReq v = .ok true ↔ IsRequest v := by
  cases v with
  | object members =>
    have hkeys : ((members.map Prod.fst).any fun it ↦ !requestMembers.contains it) = false ↔
        ∀ k ∈ (object members).memberNames, k ∈ requestMembers := by
      simp [memberNames, List.any_eq_false]
    rw [isValidReq_object, Except.ok.injEq]
    constructor
    · intro h
      split_ifs at h with h1 h2 h3 h4
      all_goals
        rw [Bool.not_eq_true, hkeys] at h1
        simp only [Bool.or_eq_true, Bool.not_eq_true', not_or, Bool.not_eq_false] at h2 h3
        obtain ⟨⟨hjsonrpc, hmethod⟩, hid⟩ := h2
        obtain ⟨⟨-, hversion⟩, hstring⟩ := h3
        obtain ⟨j, hj⟩ := Option.isSome_iff_exists.mp hjsonrpc
        obtain ⟨m, hm⟩ := Option.isSome_iff_exists.mp hmethod
        rw [hj, Option.getD_some, equals_iff] at hversion
        rw [hm, Option.getD_some, isString_iff] at hstring
        obtain ⟨t, rfl⟩ := hstring
        refine ⟨rfl, h1, hversion ▸ hj, ⟨t, hm⟩, Option.isSome_iff_exists.mp hid, ?_⟩
      · intro p hp
        rw [show members.lookup "params" = some p from hp, Option.getD_some, Bool.or_eq_true] at h
        exact h
      · intro p hp
        rw [show members.lookup "params" = some p from hp] at h4
        simp at h4
    · rintro ⟨-, hnames, hjsonrpc, ⟨m, hmethod⟩, ⟨i, hid⟩, hparams⟩
      rw [← hkeys] at hnames
      rw [find?] at hjsonrpc hmethod hid
      simp only [hnames, hjsonrpc, hmethod, hid, Option.isSome_some, Option.getD_some, isString,
        equals, Bool.not_true, Bool.or_self, Bool.false_eq_true, if_false, beq_self_eq_true]
      cases hp : members.lookup "params" with
      | none => rfl
      | some p =>
        rw [Option.isSome_some, if_pos rfl, Option.getD_some, Bool.or_eq_true]
        exact hparams p hp
  | _ => exact ⟨fun h ↦ (by cases h), fun h ↦ absurd h.object Bool.false_ne_true⟩

/-! ## Ids

JSON-RPC 2.0 allows three kinds of ids, and the response has the id of its request.  The check of
requests looks at the type of every member but this one. -/

/-- A string, a number or null. -/
def isRequestId : Value → Bool
  | null | int _ | uint _ | real _ _ | string _ => true
  | boolean _ | array _ | object _ => false

/-- A request object of JSON-RPC 2.0 with an id. -/
structure IsRpcRequest (v : Value) : Prop extends IsRequest v where
  legalId : ∀ id, v.find? "id" = some id → isRequestId id = true

theorem isRpcRequest_iff {v : Value} :
    IsRpcRequest v ↔ IsRequest v ∧ isRequestId (v.member "id") = true := by
  constructor
  · intro h
    obtain ⟨id, hid⟩ := h.id
    have hmember : v.member "id" = id := by rw [member, hid, Option.getD_some]
    exact ⟨h.toIsRequest, hmember ▸ h.legalId id hid⟩
  · rintro ⟨h, hlegal⟩
    refine ⟨h, fun id hid ↦ ?_⟩
    rwa [member, hid, Option.getD_some] at hlegal

/-- **The check accepts the request objects of JSON-RPC 2.0, but for their ids.**  It never throws,
and it is right about every value that is not an otherwise valid request with a boolean, an array
or an object for an id. -/
theorem isValidReq_exact_iff (v : Value) :
    ((isValidReq v = .ok true ↔ IsRpcRequest v) ∧ ∃ b, isValidReq v = .ok b) ↔
      ¬ (IsRequest v ∧ isRequestId (v.member "id") = false) := by
  rw [and_iff_left (isValidReq_total v), isValidReq_iff, isRpcRequest_iff]
  constructor
  · rintro h ⟨hreq, hid⟩
    have hlegal := (h.mp hreq).2
    rw [hid] at hlegal
    exact absurd hlegal Bool.false_ne_true
  · intro h
    refine ⟨fun hreq ↦ ⟨hreq, ?_⟩, And.left⟩
    rw [not_and, Bool.not_eq_false] at h
    exact h hreq

/-- `{"id": [1], "jsonrpc": "2.0", "method": "ping"}` -/
def listIdRequest : Value :=
  object [("id", array [int 1]), ("jsonrpc", string "2.0"), ("method", string "ping")]

theorem not_isValidReq_exact :
    ¬ ((isValidReq listIdRequest = .ok true ↔ IsRpcRequest listIdRequest) ∧
      ∃ b, isValidReq listIdRequest = .ok b) := by
  rintro ⟨h, -⟩
  have hlegal := (h.mp rfl).legalId (array [int 1]) rfl
  exact absurd hlegal Bool.false_ne_true

/-! ## The answer to one request -/

/-- An error object. -/
def errorObject (code : Int) (message : String) (id : Value) : Value :=
  object [("error", object [("code", int code), ("message", string message)]), ("id", id),
    ("jsonrpc", string "2.0")]

/-- The answer to a ping. -/
def pingObject (params id : Value) : Value :=
  object [("id", id), ("jsonrpc", string "2.0"),
    ("result", object [("message", string "OK"), ("params", params)])]

/-- Is the method of a request `ping`? -/
def isPing (r : Value) : Bool := (r.member "method").equals "ping"

/-- **The answer to one request**: the status and the response object. -/
def answer (r : Value) : Nat × Value :=
  match isValidReq r with
  | .ok true =>
    if isPing r then (200, pingObject (r.member "params") (r.member "id"))
    else (404, errorObject errorMethodNotFound "Invalid Request" (r.member "id"))
  | _ => (400, errorObject errorInvalidRequest "Invalid Request" null)

theorem answer_ping {r : Value} (h : IsRequest r) (hping : isPing r = true) :
    answer r = (200, pingObject (r.member "params") (r.member "id")) := by
  rw [answer, (isValidReq_iff r).mpr h]
  exact if_pos hping

theorem answer_unknown {r : Value} (h : IsRequest r) (hping : isPing r = false) :
    answer r = (404, errorObject errorMethodNotFound "Invalid Request" (r.member "id")) := by
  rw [answer, (isValidReq_iff r).mpr h]
  exact if_neg (by rw [hping]; decide)

theorem isValidReq_eq_false {r : Value} (h : ¬ IsRequest r) : isValidReq r = .ok false := by
  obtain ⟨b, hb⟩ := isValidReq_total r
  cases b with
  | false => exact hb
  | true => exact absurd ((isValidReq_iff r).mp hb) h

theorem answer_invalid {r : Value} (h : ¬ IsRequest r) :
    answer r = (400, errorObject errorInvalidRequest "Invalid Request" null) := by
  rw [answer, isValidReq_eq_false h]

/-! ## One request is served -/

/-- From an empty object, or from null, which is built upon as one. -/
def Blank (v : Value) : Prop := v = null ∨ v = object []

theorem setResponseError_eq (code : Int) (message : String) {v : Value} (hv : Blank v) :
    setResponseError code message v = (.returned (), errorObject code message null) := by
  rcases hv with rfl | rfl <;> rfl

theorem servePing_eq (params : Value) {v : Value} (hv : Blank v) :
    servePing params v
      = (.returned true,
        object [("result", object [("message", string "OK"), ("params", params)])]) := by
  rcases hv with rfl | rfl <;> rfl

theorem serveMethodNotFound_eq (params : Value) {v : Value} (hv : Blank v) :
    serveMethodNotFound params v = (.returned false, object [("error", object
      [("code", int errorMethodNotFound), ("message", string "Invalid Request")])]) := by
  rcases hv with rfl | rfl <;> rfl

theorem IsRequest.method_member {r : Value} (h : IsRequest r) :
    ∃ m, r.member "method" = string m := by
  obtain ⟨m, hm⟩ := h.method
  exact ⟨m, by rw [member, hm, Option.getD_some]⟩

/-- What `rpc::serve` does with a request: it looks at the method. -/
theorem rpc_serve {r : Value} (h : IsRequest r) (allowCors : Bool) :
    (rpc allowCors).serve r
      = if isPing r then servePing (r.member "params")
        else serveMethodNotFound (r.member "params") := by
  obtain ⟨m, hm⟩ := h.method_member
  have hmethod : (do (← r.get "method").asString) = Except.ok m := by
    rw [get_of_isObject h.object, hm]
    rfl
  have hping : isPing r = decide ("ping" = m) := by
    rw [isPing, hm, equals, Bool.beq_eq_decide_eq, decide_eq_decide]
    exact eq_comm
  funext v
  show (Comp.ofExcept (do (← r.get "method").asString) >>= fun method ↦
    Comp.ofExcept (r.get "params") >>= fun params ↦
      if "ping" = method then servePing params else serveMethodNotFound params) v = _
  rw [hmethod, get_of_isObject h.object, Comp.bind_returned (Comp.ofExcept_apply _ _),
    Comp.bind_returned (Comp.ofExcept_apply _ _), hping]
  by_cases hm : "ping" = m
  · simp [hm]
  · simp [hm]

/-- **A request is served with its answer.** -/
theorem serve_request {r : Value} (h : IsRequest r) (allowCors : Bool) {v : Value} (hv : Blank v) :
    serve (rpc allowCors) r v = (.returned (answer r).1, (answer r).2) := by
  rw [serve, rpc_serve h]
  cases hping : isPing r with
  | true =>
    rw [answer_ping h hping, if_pos rfl, Comp.bind_returned (servePing_eq _ hv), if_pos rfl]
    simp only [get_of_isObject h.object]
    rfl
  | false =>
    rw [answer_unknown h hping, if_neg Bool.false_ne_true,
      Comp.bind_returned (serveMethodNotFound_eq _ hv), if_neg Bool.false_ne_true]
    simp only [get_of_isObject h.object]
    rfl

/-- An item of a batch is served with its answer.  The status is raised by a request, and set by an
item that is not one. -/
theorem serveItem_eq (r : Value) (allowCors : Bool) (code : Nat) :
    serveItem (rpc allowCors) code r (object [])
      = (.returned (if isValidReq r = .ok true then max code (answer r).1 else 400),
        (answer r).2) := by
  by_cases h : IsRequest r
  · have hvalid := (isValidReq_iff r).mpr h
    rw [serveItem, hvalid, Comp.bind_returned (Comp.ofExcept_apply _ _), if_pos rfl,
      Comp.bind_returned (serve_request h allowCors (Or.inr rfl)), if_pos rfl]
    by_cases hgt : (answer r).1 > code
    · rw [if_pos hgt, max_eq_right hgt.le]
      rfl
    · rw [if_neg hgt, max_eq_left (not_lt.mp hgt)]
      rfl
  · have hinvalid := isValidReq_eq_false h
    rw [serveItem, hinvalid, Comp.bind_returned (Comp.ofExcept_apply _ _),
      if_neg Bool.false_ne_true, Comp.bind_returned (setResponseError_eq _ _ (Or.inr rfl)),
      answer_invalid h, if_neg (by simp)]
    rfl

/-! ## The answer to a body -/

/-- The status of a batch after one more item. -/
def batchStep (code : Nat) (r : Value) : Nat :=
  if isValidReq r = .ok true then max code (answer r).1 else 400

/-- The loop answers the items one by one, behind those that have been answered. -/
theorem batchLoop_eq (allowCors : Bool) (rs : List Value) (code : Nat) (answered : List Value) :
    batchLoop (rpc allowCors) rs code (array answered)
      = (.returned (rs.foldl batchStep code), array (answered ++ rs.map fun r ↦ (answer r).2)) := by
  induction rs generalizing code answered with
  | nil => rw [batchLoop, List.map_nil, List.append_nil]; rfl
  | cons r rs ih =>
    have hitem : Comp.withLocal (object []) (serveItem (rpc allowCors) code r) (array answered)
        = (.returned (batchStep code r, (answer r).2), array answered) :=
      Comp.withLocal_returned (serveItem_eq r allowCors code) _
    have happend : append (answer r).2 (array answered)
        = (.returned (), array (answered ++ [(answer r).2])) := rfl
    rw [batchLoop, Comp.bind_returned hitem]
    show (append (answer r).2 >>= fun _ ↦ batchLoop (rpc allowCors) rs (batchStep code r))
      (array answered) = _
    rw [Comp.bind_returned happend, ih, List.foldl_cons, List.map_cons, List.append_assoc,
      List.singleton_append]

/-- **The answer to a body**, as the reader has read it: the status and the JSON of the reply. -/
def reply : Option Value → Nat × Value
  | none => (500, errorObject errorParseError "Parse Error" null)
  | some (array rs) => (rs.foldl batchStep 200, array (rs.map fun r ↦ (answer r).2))
  | some r => answer r

theorem reply_of_not_isArray {r : Value} (h : r.isArray = false) : reply (some r) = answer r := by
  cases r with
  | array items => exact absurd h Bool.true_eq_false_eq_False
  | _ => rfl

/-- The POST branch for an object, and for what is neither an object nor an array. -/
theorem post_object (server : RpcBase) (members : List (String × Value)) :
    post server (some (object members)) = (do
      if ← Comp.ofExcept (isValidReq (object members)) then
        serve server (object members)
      else
        setResponseError errorInvalidRequest "Invalid Request"
        return 400) := rfl

theorem post_other (server : RpcBase) {r : Value} (hobject : r.isObject = false)
    (harray : r.isArray = false) : post server (some r) = (do
      setResponseError errorInvalidRequest "Invalid Request"
      return 400) := by
  cases r with
  | object members => cases hobject
  | array items => cases harray
  | _ => rfl

theorem not_isRequest_of_not_isObject {r : Value} (h : r.isObject = false) : ¬ IsRequest r := by
  intro hr
  rw [hr.object] at h
  exact absurd h (by decide)

/-- **The POST branch computes the answer.** -/
theorem post_eq (allowCors : Bool) (parsed : Option Value) :
    post (rpc allowCors) parsed null = (.returned (reply parsed).1, (reply parsed).2) := by
  rcases parsed with _ | r
  · rw [post, Comp.bind_returned (setResponseError_eq _ _ (Or.inl rfl))]
    rfl
  · cases r with
    | object members =>
      rw [reply_of_not_isArray rfl, post_object]
      by_cases h : IsRequest (object members)
      · rw [(isValidReq_iff _).mpr h, Comp.bind_returned (Comp.ofExcept_apply _ _), if_pos rfl,
          serve_request h allowCors (Or.inl rfl)]
      · rw [isValidReq_eq_false h, Comp.bind_returned (Comp.ofExcept_apply _ _),
          if_neg Bool.false_ne_true, Comp.bind_returned (setResponseError_eq _ _ (Or.inl rfl)),
          answer_invalid h]
        rfl
    | array rs =>
      show batchLoop (rpc allowCors) rs 200 (array []) = _
      rw [batchLoop_eq, List.nil_append]
      rfl
    | _ =>
      rw [reply_of_not_isArray rfl, answer_invalid (not_isRequest_of_not_isObject rfl),
        post_other _ rfl rfl, Comp.bind_returned (setResponseError_eq _ _ (Or.inl rfl))]
      rfl

/-- **A body is replied to with `status` and `json`**: so ends the POST branch, and whatever the
libraries are, the reply to a POST of a body that reads as `parsed` has this status and the text of
this value. -/
def Replied (allowCors : Bool) (parsed : Option Value) (status : Nat) (json : Value) : Prop :=
  post (rpc allowCors) parsed null = (.returned status, json) ∧
    ∀ (lib : HttpLib) (body : String), lib.parse body = parsed →
      ∀ (headers : List Header) (before : HttpResponse), ∃ response,
        handle lib (rpc allowCors) ⟨"POST", "/rpc", headers, body⟩ before
          = (.returned (), response) ∧
        response.status = status ∧ response.content = lib.write json

theorem replied (allowCors : Bool) (parsed : Option Value) :
    Replied allowCors parsed (reply parsed).1 (reply parsed).2 := by
  refine ⟨post_eq allowCors parsed, ?_⟩
  rintro lib body rfl headers before
  have hpost := Comp.withLocal_returned (post_eq allowCors (lib.parse body)) before
  rw [handle, if_neg (by simp), if_neg (by simp), if_neg (by simp), if_pos rfl,
    Comp.bind_returned hpost]
  cases allowCors
  · refine ⟨_, rfl, ?_, ?_⟩
    · exact lib.status_stockReply _ _
    · exact lib.content_stockReply _ _
  · refine ⟨_, rfl, ?_, ?_⟩
    · exact lib.status_stockReply _ _
    · exact lib.content_stockReply _ _

/-- The reply to a body is its answer, and there is no other. -/
theorem replied_iff {allowCors : Bool} {parsed : Option Value} {status : Nat} {json : Value} :
    Replied allowCors parsed status json ↔ (status, json) = reply parsed := by
  constructor
  · rintro ⟨hpost, -⟩
    rw [post_eq, Prod.mk.injEq, Outcome.returned.injEq] at hpost
    exact Prod.ext hpost.1.symm hpost.2.symm
  · intro h
    rw [show status = (reply parsed).1 from congrArg Prod.fst h,
      show json = (reply parsed).2 from congrArg Prod.snd h]
    exact replied allowCors parsed

end Rpc
end XaMain
