import XaMain.Exception
import XaMain.Lib.Comp
import XaMain.Lib.OrderedMap
import Mathlib.Algebra.Ring.Rat
import Mathlib.Data.String.Basic

/-!
# JSON values

`Json::Value` of JsonCpp, as far as the program uses it.  A value that is only read is a plain
`Value`, and reading it may fail: JsonCpp checks the type of what it is asked and throws a
`Json::LogicError` if it is the wrong one.  A value that is built in place is the state of a
computation, and `(*res)[key]` is `atMember key`: it makes an object out of a null value and adds
the member if it is not there, and what is done to it is done to that part of the state.

JsonCpp is a library, and what it does here is the documented behaviour of its releases 1.x.

* Null is no array for `isArray` and no object for `isObject`.
* Null has no members, for `isMember`, `getMemberNames` and `operator[]` of a constant value; any
  other value that is not an object makes them throw.
* Null is converted to the empty text by `asString` and to 0 by `asInt`, and it becomes an object by
  `operator[]` and an array by `append`.
-/

set_option autoImplicit false

namespace XaMain
namespace Json

/-- `Json::Value` -/
inductive Value where
  | null
  | int (v : Int)
  | uint (v : Nat)
  /-- A double, with the text it is converted to. -/
  | real (v : Rat) (text : String)
  | string (s : String)
  | boolean (b : Bool)
  | array (items : List Value)
  /-- The members, in ascending order of their names. -/
  | object (members : List (String × Value))

/-- `Json::LogicError` -/
def logicError (what : String) : Exception := ⟨[], what, none⟩

namespace Value

/-! ## Reading -/

/-- `isObject`, which null is not -/
def isObject : Value → Bool
  | object _ => true
  | _ => false

/-- `isArray`, which null is not -/
def isArray : Value → Bool
  | array _ => true
  | _ => false

/-- `isString` -/
def isString : Value → Bool
  | string _ => true
  | _ => false

/-- The comparison with a text, `value == text`. -/
def equals (s : String) : Value → Bool
  | string t => t == s
  | _ => false

/-- The member with this name, if the value is an object that has one. -/
def find? (key : String) : Value → Option Value
  | object members => members.lookup key
  | _ => none

/-- The member with this name, or null. -/
def member (v : Value) (key : String) : Value := (v.find? key).getD null

/-- The names of the members, if the value is an object. -/
def memberNames : Value → List String
  | object members => members.map Prod.fst
  | _ => []

/-- `find`, which a null value and an object can be asked. -/
def find (v : Value) (key : String) : Except Exception (Option Value) :=
  match v with
  | null => .ok none
  | object members => .ok (members.lookup key)
  | _ => .error (logicError
    "in Json::Value::find(key, end, found): requires objectValue or nullValue")

/-- `isMember` -/
def isMember (v : Value) (key : String) : Except Exception Bool := return (← v.find key).isSome

/-- `operator[]` of a constant value: null if there is no such member. -/
def get (v : Value) (key : String) : Except Exception Value := return (← v.find key).getD null

/-- `getMemberNames` -/
def getMemberNames : Value → Except Exception (List String)
  | null => .ok []
  | object members => .ok (members.map Prod.fst)
  | _ => .error (logicError "in Json::Value::getMemberNames(), value must be objectValue")

/-- `asString` -/
def asString : Value → Except Exception String
  | null => .ok ""
  | string s => .ok s
  | boolean b => .ok (if b then "true" else "false")
  | int v => .ok (toString v)
  | uint v => .ok (toString v)
  | real _ text => .ok text
  | _ => .error (logicError "Type is not convertible to string")

/-- The check of a number against the range of `int`. -/
def toInt (v : Int) (what : String) : Except Exception Int :=
  if -2 ^ 31 ≤ v ∧ v < 2 ^ 31 then .ok v else .error (logicError what)

/-- `asInt` -/
def asInt : Value → Except Exception Int
  | null => .ok 0
  | boolean b => .ok (if b then 1 else 0)
  | int v => toInt v "LargestInt out of Int range"
  | uint v => toInt v "LargestUInt out of Int range"
  | real v _ =>
    if -2 ^ 31 ≤ v ∧ v ≤ 2 ^ 31 - 1 then .ok (v.num.tdiv v.den)
    else .error (logicError "double out of Int range")
  | _ => .error (logicError "Value is not convertible to Int.")

theorem get_of_isObject {v : Value} (h : v.isObject = true) (key : String) :
    v.get key = .ok (v.member key) := by
  cases v with
  | object members => rfl
  | _ => exact absurd h Bool.false_ne_true

/-! ## Building in place -/

/-- What is done to `(*res)[key]`. -/
def atMember {α : Type} (key : String) (c : Comp Value Exception α) : Comp Value Exception α :=
  fun v ↦
    match v with
    | null => ((c null).1, object (OrderedMap.assign key (c null).2 []))
    | object members =>
      ((c ((members.lookup key).getD null)).1,
        object (OrderedMap.assign key (c ((members.lookup key).getD null)).2 members))
    | v => (.threw (logicError
      "in Json::Value::resolveReference(key, end): requires objectValue"), v)

/-- `*res = v` -/
def assign (v : Value) : Comp Value Exception Unit := Comp.modify fun _ ↦ v

/-- `append` -/
def append (v : Value) : Comp Value Exception Unit := fun r ↦
  match r with
  | null => (.returned (), array [v])
  | array items => (.returned (), array (items ++ [v]))
  | r => (.threw (logicError "in Json::Value::append: requires arrayValue"), r)

end Value

end Json
end XaMain
