import XaMain.Exception
import XaMain.Lib.Regex

/-!
# Validation

The checks of `pca::validation` on host names, addresses and port numbers.  A host is looked up with
two functions of the C library, which are given; the program asks only whether they succeed.
-/

set_option autoImplicit false

namespace XaMain
namespace Validation

/-- The functions a host is looked up with. -/
structure Resolver where
  /-- The address that `inet_aton` reads, if it does not return zero. -/
  inetAton : String → Option UInt32
  /-- Does `gethostbyname` return something other than `NULL`? -/
  gethostbyname : String → Bool

/-- `\w` -/
def isWordChar (c : Char) : Bool := c.isAlphanum || c == '_'

/-- The characters of a numeric host name, `[-_0-9-\.]`. -/
def isNumericHostChar (c : Char) : Bool := c == '-' || c == '_' || c.isDigit || c == '.'

/-- `([-_0-9-\.]+)` -/
def numericHostRegex : Regex := .group 1 (.many isNumericHostChar)

/-- `\d{1,3}\.\d{1,3}\.\d{1,3}\.\d{1,3}` -/
def dottedQuadRegex : Regex :=
  let part := Regex.between (.cls Char.isDigit) 1 3
  let dot := Regex.lit ['.']
  .cat [part, dot, part, dot, part, dot, part]

/-- `validate_ipv4_address` -/
def validateIpv4Address (resolver : Resolver) (s : String) : Bool :=
  if (numericHostRegex.regexMatch s.toList).isSome then
    (dottedQuadRegex.regexMatch s.toList).isSome && (resolver.inetAton s).isSome
  else
    resolver.gethostbyname s

/-- `validate_port_number` -/
def validatePortNumber (port : UInt32) : Bool := port ≥ 0 && port ≤ 65535

/-- The check of a port number that came from an `int` is the check of that `int`, as long as it is
not negative. -/
theorem validatePortNumber_ofInt {n : Nat} (h : n < 2 ^ 31) :
    validatePortNumber (UInt32.ofInt n) = decide (n ≤ 65535) := by
  have hn : (UInt32.ofInt n).toNat = n := toNat_ofInt h
  rw [validatePortNumber, Bool.and_eq_decide]
  simp [UInt32.le_iff_toNat_le, hn]

/-- A number that fits in 16 bits always passes the check. -/
theorem validatePortNumber_toUInt32 (port : UInt16) : validatePortNumber port.toUInt32 = true := by
  have hlt := port.toNat_lt
  rw [validatePortNumber, Bool.and_eq_true, decide_eq_true_iff, decide_eq_true_iff]
  refine ⟨UInt32.zero_le, UInt32.le_iff_toNat_le.mpr ?_⟩
  rw [UInt16.toNat_toUInt32]
  exact Nat.le_of_lt_succ hlt

end Validation
end XaMain
