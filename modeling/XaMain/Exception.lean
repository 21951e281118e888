import XaMain.Lib.Decimal

/-!
# The exceptions of the program

A catch clause asks one thing of the object that was thrown: whether its type is, or derives from,
the class the clause names.  So an exception is the list of those classes, with the two texts the
clauses read: `what()`, and the `errmsg_info` that may be attached to a boost exception.  An object
thrown with `BOOST_THROW_EXCEPTION` derives from its own class and from `boost::exception`, and a
callback may throw an object of any class at all, an empty list included.
-/

set_option autoImplicit false

namespace XaMain

/-- The classes that the catch clauses of the program name. -/
inductive ExceptionClass where
  /-- `xa::yaml::yaml_parse_fail` -/
  | yamlParseFail
  /-- `xa::yaml::type_mismatch` -/
  | typeMismatch
  /-- `std::invalid_argument` -/
  | invalidArgument
  /-- `std::out_of_range`, which no clause names -/
  | outOfRange
  /-- `std::bad_function_call` -/
  | badFunctionCall
  /-- `boost::exception` -/
  | boostException
  /-- `pca::mariadb::dbinitexcept` -/
  | dbInitExcept
  /-- `pca::mariadb::dbinvalidargexcept` -/
  | dbInvalidArgExcept
  /-- `pca::mariadb::dbconnexcept` -/
  | dbConnExcept
  /-- `pca::mariadb::dbqueryexcept` -/
  | dbQueryExcept
  /-- `pca::mariadb::dbresultexcept` -/
  | dbResultExcept
  deriving DecidableEq

/-- An object that was thrown. -/
structure Exception where
  /-- The classes it is an instance of. -/
  classes : List ExceptionClass
  /-- Its `what()`. -/
  what : String := ""
  /-- The `errmsg_info` attached to it, which `boost::get_error_info` looks up. -/
  errmsg : Option String := none
  deriving DecidableEq

/-- Does a clause for the class `c` catch it? -/
def Exception.isA (e : Exception) (c : ExceptionClass) : Bool := e.classes.contains c

/-- `e << errmsg_info{text}` -/
def Exception.attach (e : Exception) (text : String) : Exception := { e with errmsg := some text }

/-- `std::invalid_argument` -/
def invalidArgument (what : String) : Exception := ⟨[.invalidArgument], what, none⟩

/-- `std::out_of_range` -/
def outOfRange (what : String) : Exception := ⟨[.outOfRange], what, none⟩

/-- `std::bad_function_call`, thrown by a call of an empty `std::function`. -/
def badFunctionCall : Exception := ⟨[.badFunctionCall], "bad_function_call", none⟩

/-- `std::stoi` -/
def stoi (s : String) : Except Exception Int :=
  match Decimal.stoi s.toList with
  | .ok v => .ok v
  | .error .invalidArgument => .error (invalidArgument "stoi")
  | .error .outOfRange => .error (outOfRange "stoi")

theorem stoi_eq_ok_iff {s : String} {v : Int} :
    stoi s = .ok v ↔ Decimal.ReadsInt s.toList v ∧ Decimal.FitsInt v := by
  rw [← Decimal.stoi_eq_ok_iff, stoi]
  rcases Decimal.stoi s.toList with (_ | _) | v' <;> simp

/-- The conversion of an `int` to `uint32_t` keeps a number that is not negative. -/
theorem toNat_ofInt {m : Nat} (h : m < 2 ^ 31) : (UInt32.ofInt (m : Int)).toNat = m := by
  rw [UInt32.ofInt, UInt32.toNat_ofNat']
  omega

end XaMain
