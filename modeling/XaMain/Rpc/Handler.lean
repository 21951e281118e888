import XaMain.Rpc.Json

/-!
# The JSON-RPC server

`xa::rpc_base` with its `rpc_handler`, and `pca::rpc`, the server the program runs.  A server is
what its class adds to `rpc_base`: the virtual function `serve`, which answers one request by
building the response in place, and the flag for CORS.  `serve` is a function of the request and the
response; a class with a state of its own, that `serve` reads or writes, is left out.

The HTTP server, the reader and the writer of JSON are libraries.  `HttpLib` has what the program
calls of them: `stock_reply`, which makes a reply with a given status and content, the two
conversions between a text and a value, and `run`, of which only matters when it may return.
-/

set_option autoImplicit false

namespace XaMain
namespace Rpc

open Json Json.Value

/-! ## Error codes -/

def errorParseError : Int := -32700
def errorInvalidRequest : Int := -32600
def errorMethodNotFound : Int := -32601
def errorInvalidParams : Int := -32602
def errorInternalError : Int := -32603
def errorServerErrorStart : Int := -32000
def errorServerErrorEnd : Int := -32099

/-- `http_status_from_error_code` -/
def httpStatusFromErrorCode (code : Int) : Nat :=
  if code = errorMethodNotFound then 404
  else if code = errorInvalidParams ∨ code = errorInternalError then 500
  else if code ≥ errorServerErrorStart ∧ code ≤ errorServerErrorEnd then 500
  else 500

/-! ## Servers -/

/-- `rpc_base`, as far as a request sees it. -/
structure RpcBase where
  /-- `serve(req, res)`, over `*res`, if it depends on nothing else -/
  serve : Value → Comp Value Exception Bool
  /-- `allow_cors_` -/
  allowCors : Bool := false

/-- `rpc_base::serve_method_not_found` -/
def serveMethodNotFound (_params : Value) : Comp Value Exception Bool := do
  atMember "error" (assign (object []))
  atMember "error" (atMember "code" (assign (int errorMethodNotFound)))
  atMember "error" (atMember "message" (assign (string "Invalid Request")))
  return false

/-- `rpc::serve_ping` -/
def servePing (params : Value) : Comp Value Exception Bool := do
  atMember "result" (assign (object []))
  atMember "result" (atMember "message" (assign (string "OK")))
  atMember "result" (atMember "params" (assign params))
  return true

/-- `pca::rpc` -/
def rpc (allowCors : Bool) : RpcBase where
  serve req := do
    let method ← Comp.ofExcept (do (← req.get "method").asString)
    let params ← Comp.ofExcept (req.get "params")
    if "ping" = method then
      servePing params
    else
      serveMethodNotFound params
  allowCors := allowCors

/-! ## One request -/

/-- The members a request may have. -/
def requestMembers : List String := ["jsonrpc", "method", "params", "id"]

/-- `rpc_handler::is_valid_req` -/
def isValidReq (req : Value) : Except Exception Bool := do
  if !req.isObject then
    return false
  else if (← req.getMemberNames).any fun it ↦ !requestMembers.contains it then
    return false
  else if !(← req.isMember "jsonrpc") || !(← req.isMember "method") || !(← req.isMember "id") then
    return false
  else if !(← req.get "jsonrpc").isString || !(← req.get "jsonrpc").equals "2.0"
      || !(← req.get "method").isString then
    return false
  else if ← req.isMember "params" then
    return (← req.get "params").isArray || (← req.get "params").isObject
  else
    return true

/-- `rpc_handler::set_response_error` -/
def setResponseError (code : Int) (msg : String) : Comp Value Exception Unit := do
  atMember "error" (assign (object []))
  atMember "error" (atMember "code" (assign (int code)))
  atMember "error" (atMember "message" (assign (string msg)))
  atMember "id" (assign null)
  atMember "jsonrpc" (assign (string "2.0"))

/-- `asInt()` of the value a computation is at. -/
def asIntHere : Comp Value Exception Int := fun v ↦ (.ofExcept v.asInt, v)

/-- `rpc_handler::serve` -/
def serve (server : RpcBase) (req : Value) : Comp Value Exception Nat := do
  let code ←
    if ← server.serve req then
      pure 200
    else do
      let code ← atMember "error" (atMember "code" asIntHere)
      pure (httpStatusFromErrorCode code)
  let id ← Comp.ofExcept (req.get "id")
  atMember "id" (assign id)
  atMember "jsonrpc" (assign (string "2.0"))
  return code

/-! ## The body of a POST -/

/-- One item of a batch: the response, and the status so far. -/
def serveItem (server : RpcBase) (code : Nat) (itemReq : Value) : Comp Value Exception Nat := do
  if ← Comp.ofExcept (isValidReq itemReq) then
    let itemStatus ← serve server itemReq
    if itemStatus > code then
      return itemStatus
    else
      return code
  else
    setResponseError errorInvalidRequest "Invalid Request"
    return 400

/-- The loop over a batch.  It returns the status, and the state is the array of responses. -/
def batchLoop (server : RpcBase) : List Value → Nat → Comp Value Exception Nat
  | [], code => return code
  | itemReq :: items, code => do
    let (code, itemRes) ← Comp.withLocal (object []) (serveItem server code itemReq)
    append itemRes
    batchLoop server items code

/-- The POST branch of `rpc_handler::operator()`, up to the reply: from what the reader made of the
body to the status, with the response in the state. -/
def post (server : RpcBase) (jsonReq : Option Value) : Comp Value Exception Nat :=
  match jsonReq with
  | none => do
    setResponseError errorParseError "Parse Error"
    return 500
  | some jsonReq => do
    if jsonReq.isObject then
      if ← Comp.ofExcept (isValidReq jsonReq) then
        serve server jsonReq
      else
        setResponseError errorInvalidRequest "Invalid Request"
        return 400
    else
      match jsonReq with
      | array items =>
        assign (array [])
        batchLoop server items 200
      | _ =>
        setResponseError errorInvalidRequest "Invalid Request"
        return 400

/-! ## The HTTP handler -/

/-- A header of a request or a response. -/
structure Header where
  name : String
  value : String

/-- `http_server::request` -/
structure HttpRequest where
  method : String
  destination : String
  headers : List Header
  body : String

/-- `http_server::response` -/
structure HttpResponse where
  status : Nat
  headers : List Header
  content : String

/-- The libraries of the handler and of the threads that call it. -/
structure HttpLib where
  /-- `http_server::response::stock_reply` -/
  stockReply : Nat → String → HttpResponse
  /-- It makes a reply with this status … -/
  status_stockReply : ∀ status content, (stockReply status content).status = status
  /-- … and this content. -/
  content_stockReply : ∀ status content, (stockReply status content).content = content
  /-- `Json::Reader::parse`, if it succeeds. -/
  parse : String → Option Value
  /-- `Json::FastWriter::write` -/
  write : Value → String
  /-- May `http_server::run` return in a thread?  `stop` was called or not, and the thread is in the
  handler or not. -/
  runReturns : (stopped handling : Bool) → Bool

/-- `response.headers.push_back({ name, value })` -/
def pushHeader (name value : String) : Comp HttpResponse Exception Unit :=
  Comp.modify fun r ↦ { r with headers := r.headers ++ [⟨name, value⟩] }

/-- `rpc_handler::operator()`, over `response` -/
def handle (lib : HttpLib) (server : RpcBase) (request : HttpRequest) :
    Comp HttpResponse Exception Unit := do
  if request.destination = "/test" ∧ request.method = "GET" then
    Comp.modify fun _ ↦ lib.stockReply 200 "Testing 1,2,3"
  else if request.destination ≠ "/rpc" then
    Comp.modify fun _ ↦ lib.stockReply 404 "not found"
  else if request.method = "OPTIONS" then
    Comp.modify fun _ ↦ lib.stockReply 200 ""
    pushHeader "Content-Type" "application/json"
    pushHeader "Allow" "GET,POST,OPTIONS"
    if server.allowCors then
      pushHeader "Access-Control-Allow-Origin" "*"
      pushHeader "Access-Control-Allow-Methods" "GET,POST,OPTIONS"
      let asked := request.headers.filter (·.name == "Access-Control-Request-Headers")
      let allowed := asked.map fun h ↦ ⟨"Access-Control-Allow-Headers", h.value⟩
      Comp.modify fun r ↦ { r with headers := r.headers ++ allowed }
  else if request.method = "POST" then
    let (code, jsonRes) ← Comp.withLocal null (post server (lib.parse request.body))
    Comp.modify fun _ ↦ lib.stockReply code (lib.write jsonRes)
    pushHeader "Content-Type" "application/json"
    if server.allowCors then
      pushHeader "Access-Control-Allow-Origin" "*"
  else
    Comp.modify fun _ ↦ lib.stockReply 400 "bad request"

end Rpc
end XaMain
