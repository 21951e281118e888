import XaMain.Mariadb.Helper

/-!
# `query_helper` and `save_alarm_to_db`

The two functions that open a handle, use it and close it again.  What `query_helper` does with the
handle in between is up to its caller's function, a `Callback`: any sequence of statements and
fetches, chosen by what came of the ones before, that ends in a return or in an exception.

Each handle should be closed once, each result set freed, and no call made on a handle that is not
open; `Mariadb/Settles.lean` says for which callbacks and which answers of the outside that is so.
The two functions leave the handle open where a connection cannot be completed and where a number
of rows is wrong; a result set a callback fetches is never freed, because it is stored in a copy of
the pointer; and a callback that goes on after a statement failed makes its calls on a closed
handle.
-/

set_option autoImplicit false

namespace XaMain
namespace Mariadb

/-! ## The functions -/

/-- A function passed to `query_helper`.  It uses the handle through `query_db_with_except` and
`fetch_result_db_with_except`, and it may catch what they throw. -/
inductive Callback where
  /-- It returns. -/
  | returns
  /-- It throws. -/
  | throws (e : Exception)
  /-- It executes a statement, and goes on from what came of it. -/
  | query (stmt : String) (next : Except Exception Unit → Callback)
  /-- It fetches a result, and goes on from what came of it. -/
  | fetch (idx : UInt32) (next : Except Exception Nat → Callback)
  /-- It stores a result set in its parameter `result`. -/
  | store (result : Nat) (next : Callback)

section Functions

variable (env : Environment)

/-- A call of a callback.  Its parameter `result` is passed by value: what is stored there is gone
when the call is over. -/
def Callback.run : Callback → Option Nat → Comp Trace Exception Unit
  | .returns, _ => pure ()
  | .throws e, _ => Comp.throw e
  | .query stmt next, result => do
    let answer ← Comp.attempt (queryDbWithExcept env stmt)
    (next answer).run result
  | .fetch idx next, result => do
    let answer ← Comp.attempt (fetchResultDbWithExcept env idx)
    (next answer).run result
  | .store result next, _ => next.run (some result)

/-- A call of a `fn_body`, which may be empty. -/
def callFunc (func : Option Callback) (result : Option Nat) : Comp Trace Exception Unit :=
  match func with
  | none => Comp.throw badFunctionCall
  | some cb => cb.run env result

/-- The catch clauses of `query_helper`. -/
def queryHelperClauses (result : Option Nat) (e : Exception) : Comp Trace Exception Bool :=
  if e.isA .badFunctionCall then do
    let _ ← disconnectDb result
    return false
  else if e.isA .invalidArgument then do
    let _ ← disconnectDb result
    return false
  else if e.isA .boostException then
    match e.errmsg with
    | some _ => pure false
    | none => Comp.undefined
  else
    pure false

/-- `query_helper` -/
def queryHelper (func : Option Callback) (uri : String) : Comp Trace Exception Bool :=
  let result : Option Nat := none
  Comp.tryCatch
    (do
      connectDbWithExcept env uri
      callFunc env func result
      let _ ← disconnectDb result
      return true)
    (queryHelperClauses result)

/-- A string as a C function reads it. -/
def cString (s : String) : String := String.ofList (s.toList.takeWhile (· ≠ '\x00'))

/-- The statement that `save_alarm_to_db` executes. -/
def alarmQuery (type : Char) (code : Int) : String :=
  cString ("INSERT INTO apca_dev.event_list values(NULL,'" ++ String.singleton type ++ "'," ++
    toString code ++ ",sysdate(),NULL);")

/-- The catch clauses of `save_alarm_to_db`. -/
def saveAlarmClauses (e : Exception) : Comp Trace Exception Bool :=
  if e.isA .boostException then
    match e.errmsg with
    | some _ => pure false
    | none => Comp.undefined
  else
    pure false

/-- `save_alarm_to_db` -/
def saveAlarmToDb (type : Char) (code : Int) (uri : String) : Comp Trace Exception Bool :=
  Comp.tryCatch
    (do
      connectDbWithExcept env uri
      queryDbWithExcept env (alarmQuery type code)
      let isInsertDone ← affectedRowsDb env 1
      if !isInsertDone then
        Comp.throw (invalidArgument "Database insert be failed, please check insert value")
      else
        let _ ← disconnectDb none
        return true)
    saveAlarmClauses

end Functions

/-! ## What is required of them -/

/-- The call returns, and the protocol of the handle was kept from its first call to its last. -/
def Settles (c : Comp Trace Exception Bool) (t : Trace) : Prop :=
  ∃ b t', c t = (.returned b, t') ∧ Settled t'

/-- `query_helper` closes the handle for it. -/
def IsClosing (e : Exception) : Prop :=
  e.isA .badFunctionCall = true ∨ e.isA .invalidArgument = true

instance (e : Exception) : Decidable (IsClosing e) := inferInstanceAs (Decidable (_ ∨ _))

/-- `query_helper` catches it and leaves the handle as it is. -/
def LeavesHandle (e : Exception) : Prop :=
  ¬ IsClosing e ∧ (e.isA .boostException = true → e.errmsg.isSome = true)

/-- What a callback may do once a call of it has failed, which closes the handle: it makes no
further call, and it throws something that `query_helper` does not close the handle for. -/
def Callback.GivesUp : Callback → Prop
  | .returns | .query _ _ | .fetch _ _ => False
  | .throws e => LeavesHandle e
  | .store _ next => next.GivesUp

/-- It fetches no result, and none of its statements fails before it returns or throws something
that `query_helper` closes the handle for; or else the first call that fails is the last one. -/
def Callback.Orderly (env : Environment) : Callback → Trace → Prop
  | .returns, _ => True
  | .throws e, _ => IsClosing e
  | .query stmt next, t =>
    match env.query t stmt with
    | true => (next (.ok ())).Orderly env (t ++ [.query stmt true])
    | false => (next (.error (queryFailed env stmt t))).GivesUp
  | .fetch idx next, t =>
    match env.storeResult t with
    | some _ => False
    | none => (next (.error (resultFailed idx))).GivesUp
  | .store _ next, t => next.Orderly env t

end Mariadb
end XaMain
