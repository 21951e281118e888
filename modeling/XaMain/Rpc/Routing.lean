import XaMain.Rpc.Response

/-!
# The HTTP handler for any server

What `rpc_handler::operator()` does around the call of `serve`, for any function `serve` of the
request and the response.  A request is a call (`POST /rpc`), a preflight (`OPTIONS /rpc`), or
something else that gets a stock reply, and only a call reaches the server.

`handle_corsValues` says which headers for CORS a reply has: none at all unless `allow_cors_` is
set, and then the headers a preflight asks for are those it is allowed, one by one and in their
order.
-/

set_option autoImplicit false

namespace XaMain
namespace Rpc

open Json Json.Value

/-! ## Requests -/

/-- A request that is passed on to the server. -/
def HttpRequest.IsCall (request : HttpRequest) : Prop :=
  request.destination = "/rpc" ∧ request.method = "POST"

/-- A request that asks what may be called. -/
def HttpRequest.IsPreflight (request : HttpRequest) : Prop :=
  request.destination = "/rpc" ∧ request.method = "OPTIONS"

instance (request : HttpRequest) : Decidable request.IsCall := inferInstanceAs (Decidable (_ ∧ _))

instance (request : HttpRequest) : Decidable request.IsPreflight :=
  inferInstanceAs (Decidable (_ ∧ _))

theorem HttpRequest.IsCall.not_isPreflight {request : HttpRequest} (h : request.IsCall) :
    ¬ request.IsPreflight := by
  rintro ⟨-, hmethod⟩
  rw [h.2] at hmethod
  exact absurd hmethod (by decide)

/-- The values of the headers with this name, in their order. -/
def headerValues (name : String) (headers : List Header) : List String :=
  (headers.filter (·.name == name)).map Header.value

theorem headerValues_append (name : String) (l l' : List Header) :
    headerValues name (l ++ l') = headerValues name l ++ headerValues name l' := by
  rw [headerValues, List.filter_append, List.map_append]
  rfl

@[simp] theorem headerValues_nil (name : String) : headerValues name [] = [] := rfl

theorem headerValues_cons (name : String) (h : Header) (l : List Header) :
    headerValues name (h :: l)
      = if h.name = name then h.value :: headerValues name l else headerValues name l := by
  rw [headerValues, List.filter_cons]
  by_cases hname : h.name = name
  · simp [hname, headerValues]
  · simp [hname, headerValues]

/-- Headers that are all of one name. -/
theorem headerValues_renamed (name name' : String) (l : List Header) :
    headerValues name (l.map fun h ↦ ⟨name', h.value⟩)
      = if name' = name then l.map Header.value else [] := by
  induction l with
  | nil => simp
  | cons h l ih =>
    rw [List.map_cons, headerValues_cons, ih]
    split_ifs
    · rfl
    · rfl

/-! ## Replies -/

/-- The headers that are added to the reply to a preflight. -/
def preflightHeaders (allowCors : Bool) (request : HttpRequest) : List Header :=
  [⟨"Content-Type", "application/json"⟩, ⟨"Allow", "GET,POST,OPTIONS"⟩] ++
    if allowCors then
      [⟨"Access-Control-Allow-Origin", "*"⟩, ⟨"Access-Control-Allow-Methods", "GET,POST,OPTIONS"⟩]
        ++ (request.headers.filter (·.name == "Access-Control-Request-Headers")).map
          fun h ↦ ⟨"Access-Control-Allow-Headers", h.value⟩
    else []

/-- The headers that are added to the reply to a call. -/
def callHeaders (allowCors : Bool) : List Header :=
  ⟨"Content-Type", "application/json"⟩ ::
    if allowCors then [⟨"Access-Control-Allow-Origin", "*"⟩] else []

/-- A reply with further headers. -/
def HttpResponse.push (r : HttpResponse) (headers : List Header) : HttpResponse :=
  { r with headers := r.headers ++ headers }

theorem HttpResponse.push_push (r : HttpResponse) (l l' : List Header) :
    (r.push l).push l' = r.push (l ++ l') := by
  rw [push, push, push, List.append_assoc]

section Handle

variable {lib : HttpLib} {server : RpcBase} {request : HttpRequest} {before : HttpResponse}

theorem handle_preflight (h : request.IsPreflight) :
    handle lib server request before = (.returned (),
      (lib.stockReply 200 "").push (preflightHeaders server.allowCors request)) := by
  have htest : ¬ (request.destination = "/test" ∧ request.method = "GET") := fun ht ↦
    absurd (h.1.symm.trans ht.1) (by decide)
  rw [handle, if_neg htest, if_neg (not_not.mpr h.1), if_pos h.2, preflightHeaders]
  cases server.allowCors with
  | true =>
    show (Outcome.returned (), (((((lib.stockReply 200 "").push [_]).push [_]).push [_]).push
      [_]).push _) = _
    simp only [HttpResponse.push_push]
    rfl
  | false =>
    show (Outcome.returned (), ((lib.stockReply 200 "").push [_]).push [_]) = _
    rw [HttpResponse.push_push]
    rfl

/-- A call, up to what the server makes of its body. -/
theorem handle_call (h : request.IsCall) :
    handle lib server request = (do
      let (code, jsonRes) ← Comp.withLocal null (post server (lib.parse request.body))
      Comp.modify fun _ ↦ lib.stockReply code (lib.write jsonRes)
      pushHeader "Content-Type" "application/json"
      if server.allowCors then
        pushHeader "Access-Control-Allow-Origin" "*") := by
  have htest : ¬ (request.destination = "/test" ∧ request.method = "GET") := fun ht ↦
    absurd (h.1.symm.trans ht.1) (by decide)
  have hoptions : request.method ≠ "OPTIONS" := fun ho ↦ absurd (h.2.symm.trans ho) (by decide)
  rw [handle, if_neg htest, if_neg (not_not.mpr h.1), if_neg hoptions, if_pos h.2]

theorem handle_call_returned (h : request.IsCall) {code : Nat} {json : Value}
    (hpost : post server (lib.parse request.body) null = (.returned code, json)) :
    handle lib server request before = (.returned (),
      (lib.stockReply code (lib.write json)).push (callHeaders server.allowCors)) := by
  rw [handle_call h, Comp.bind_returned (Comp.withLocal_returned hpost before), callHeaders]
  cases server.allowCors with
  | true =>
    show (Outcome.returned (), ((lib.stockReply code (lib.write json)).push [_]).push [_]) = _
    rw [HttpResponse.push_push]
    rfl
  | false => rfl

/-- What the server throws goes through the handler, and there is no reply. -/
theorem handle_call_threw (h : request.IsCall) {e : Exception} {json : Value}
    (hpost : post server (lib.parse request.body) null = (.threw e, json)) :
    handle lib server request before = (.threw e, before) := by
  rw [handle_call h, Comp.bind_threw (Comp.withLocal_threw hpost before)]

/-- A call is answered only if the server returns. -/
theorem post_of_handle_call (h : request.IsCall) {response : HttpResponse}
    (hhandle : handle lib server request before = (.returned (), response)) :
    ∃ code json, post server (lib.parse request.body) null = (.returned code, json) := by
  rcases hpost : post server (lib.parse request.body) null with ⟨code | e | _ | _, json⟩
  case returned => exact ⟨code, json, rfl⟩
  all_goals
    rw [handle_call h, Comp.bind_apply, Comp.withLocal, hpost] at hhandle
    simp [Outcome.map] at hhandle

/-- Any other request gets a stock reply. -/
theorem handle_plain (hcall : ¬ request.IsCall) (hpreflight : ¬ request.IsPreflight) :
    ∃ status content,
      handle lib server request before = (.returned (), lib.stockReply status content) := by
  by_cases htest : request.destination = "/test" ∧ request.method = "GET"
  · exact ⟨200, "Testing 1,2,3", by rw [handle, if_pos htest]; rfl⟩
  by_cases hpath : request.destination = "/rpc"
  · have hoptions : request.method ≠ "OPTIONS" := fun ho ↦ hpreflight ⟨hpath, ho⟩
    have hpost : request.method ≠ "POST" := fun hp ↦ hcall ⟨hpath, hp⟩
    exact ⟨400, "bad request", by
      rw [handle, if_neg htest, if_neg (not_not.mpr hpath), if_neg hoptions, if_neg hpost]
      rfl⟩
  · exact ⟨404, "not found", by
      rw [handle, if_neg htest, if_pos hpath]
      rfl⟩

end Handle

/-- `pca::rpc` never throws, so every request is answered. -/
theorem handle_rpc (lib : HttpLib) (allowCors : Bool) (request : HttpRequest)
    (before : HttpResponse) :
    ∃ response, handle lib (rpc allowCors) request before = (.returned (), response) := by
  by_cases hcall : request.IsCall
  · exact ⟨_, handle_call_returned hcall (post_eq allowCors _)⟩
  by_cases hpreflight : request.IsPreflight
  · exact ⟨_, handle_preflight hpreflight⟩
  · obtain ⟨status, content, h⟩ := handle_plain hcall hpreflight
    exact ⟨_, h⟩

/-! ## The headers for CORS -/

/-- The headers for CORS that the handler may add. -/
def corsHeaders : List String :=
  ["Access-Control-Allow-Origin", "Access-Control-Allow-Methods", "Access-Control-Allow-Headers"]

/-- Stock replies have no such headers. -/
def HttpLib.PlainStock (lib : HttpLib) : Prop :=
  ∀ name ∈ corsHeaders, ∀ status content,
    headerValues name (lib.stockReply status content).headers = []

/-- Libraries with stock replies that have no headers, a reader that reads nothing, and a server
that stops when it is asked to. -/
def plainLib : HttpLib where
  stockReply status content := ⟨status, [], content⟩
  status_stockReply _ _ := rfl
  content_stockReply _ _ := rfl
  parse _ := none
  write _ := ""
  runReturns stopped handling := stopped && !handling

theorem plainLib_plainStock : plainLib.PlainStock := fun _ _ _ _ ↦ rfl

/-- The values a reply to the request has for a header of CORS. -/
def corsValues (allowCors : Bool) (request : HttpRequest) (name : String) : List String :=
  if allowCors = false then []
  else if request.IsCall then
    if name = "Access-Control-Allow-Origin" then ["*"] else []
  else if request.IsPreflight then
    if name = "Access-Control-Allow-Origin" then ["*"]
    else if name = "Access-Control-Allow-Methods" then ["GET,POST,OPTIONS"]
    else headerValues "Access-Control-Request-Headers" request.headers
  else []

theorem headerValues_preflight (allowCors : Bool) {request : HttpRequest}
    (h : request.IsPreflight) {name : String} (hname : name ∈ corsHeaders) :
    headerValues name (preflightHeaders allowCors request)
      = corsValues allowCors request name := by
  have hcall : ¬ request.IsCall := fun hc ↦ hc.not_isPreflight h
  rw [preflightHeaders, corsValues, if_neg hcall, if_pos h]
  cases allowCors with
  | false =>
    simp only [corsHeaders, List.mem_cons, List.not_mem_nil, or_false] at hname
    obtain rfl | rfl | rfl := hname <;> rfl
  | true =>
    rw [if_pos rfl, if_neg (show ¬ true = false by decide), headerValues_append,
      headerValues_append, headerValues_renamed]
    simp only [corsHeaders, List.mem_cons, List.not_mem_nil, or_false] at hname
    obtain rfl | rfl | rfl := hname
    · simp [headerValues_cons]
    · simp [headerValues_cons]
    · simp [headerValues]

theorem headerValues_call (allowCors : Bool) {request : HttpRequest} (h : request.IsCall)
    {name : String} (hname : name ∈ corsHeaders) :
    headerValues name (callHeaders allowCors) = corsValues allowCors request name := by
  rw [callHeaders, corsValues, if_pos h]
  simp only [corsHeaders, List.mem_cons, List.not_mem_nil, or_false] at hname
  cases allowCors with
  | false => obtain rfl | rfl | rfl := hname <;> rfl
  | true => obtain rfl | rfl | rfl := hname <;> rfl

/-- Whatever the server is, a reply has these values. -/
theorem handle_corsValues {lib : HttpLib} (hstock : lib.PlainStock) {server : RpcBase}
    {request : HttpRequest} {before response : HttpResponse}
    (h : handle lib server request before = (.returned (), response)) {name : String}
    (hname : name ∈ corsHeaders) :
    headerValues name response.headers = corsValues server.allowCors request name := by
  have hpush (status : Nat) (content : String) (headers : List Header) :
      headerValues name ((lib.stockReply status content).push headers).headers
        = headerValues name headers := by
    rw [HttpResponse.push, headerValues_append, hstock name hname, List.nil_append]
  by_cases hcall : request.IsCall
  · obtain ⟨code, json, hpost⟩ := post_of_handle_call hcall h
    rw [handle_call_returned hcall hpost] at h
    rw [← (Prod.mk.inj h).2, hpush, headerValues_call _ hcall hname]
  by_cases hpreflight : request.IsPreflight
  · rw [handle_preflight hpreflight] at h
    rw [← (Prod.mk.inj h).2, hpush, headerValues_preflight _ hpreflight hname]
  · obtain ⟨status, content, hplain⟩ : ∃ status content,
        handle lib server request before = (.returned (), lib.stockReply status content) :=
      handle_plain hcall hpreflight
    rw [hplain] at h
    rw [← (Prod.mk.inj h).2, hstock name hname, corsValues, if_neg hcall, if_neg hpreflight,
      ite_self]

end Rpc
end XaMain
