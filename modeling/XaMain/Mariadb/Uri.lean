import XaMain.Common.Validation
import XaMain.Exception
import XaMain.Lib.Comp

/-!
# Database URIs

`parse_database_uri` of `pca::mariadb`.  It writes the members of `db_params` one after the other as
it goes, so a URI that is refused halfway leaves the members before that point changed; and a port
number that does not fit in an `int` makes `std::stoi` throw, which nothing here catches.
-/

set_option autoImplicit false

namespace XaMain
namespace Mariadb

open Validation

/-- `db_params` -/
structure DbParams where
  dbScheme : String
  dbUser : String
  dbPass : String
  dbHost : String
  dbPort : UInt16
  dbName : String
  deriving DecidableEq

/-- The class `[-_0-9a-z-\.]` -/
def isHostChar (c : Char) : Bool := c == '-' || c == '_' || c.isDigit || c.isLower || c == '.'

/-- The class `[a-zA-Z_]` -/
def isNameChar (c : Char) : Bool := c.isAlpha || c == '_'

/-- `^([a-z]+)://(\w+)(?::(\w+))?@([-_0-9a-z-\.]+)(?::([0-9]+))?/([a-zA-Z_]+)$` -/
def uriRegex : Regex := .cat
  [.bol, .group 1 (.many Char.isLower), .lit [':', '/', '/'], .group 2 (.many isWordChar),
    .opt (.cat [.lit [':'], .group 3 (.many isWordChar)]), .lit ['@'], .group 4 (.many isHostChar),
    .opt (.cat [.lit [':'], .group 5 (.many Char.isDigit)]), .lit ['/'],
    .group 6 (.many isNameChar), .eol]

/-- The last steps of a URI that is accepted: write the port and the name. -/
def acceptUri (m : Groups) (port : UInt16) : Comp DbParams Exception Bool := do
  Comp.modify fun params ↦ { params with dbPort := port }
  Comp.modify fun params ↦ { params with dbName := m.str 6 }
  return true

/-- The steps after the regular expression has matched. -/
def readUri (resolver : Resolver) (m : Groups) : Comp DbParams Exception Bool := do
  Comp.modify fun params ↦ { params with dbScheme := m.str 1 }
  Comp.modify fun params ↦ { params with dbUser := m.str 2 }
  Comp.modify fun params ↦ { params with dbPass := m.str 3 }
  Comp.modify fun params ↦ { params with dbHost := m.str 4 }
  if !validateIpv4Address resolver (m.str 4) then
    return false
  else if m.str 5 = "" then
    let scheme ← Comp.gets (·.dbScheme)
    if scheme = "mysql" then
      acceptUri m 3306
    else
      return false
  else
    let value ← Comp.ofExcept (stoi (m.str 5))
    if !validatePortNumber (UInt32.ofInt value) then
      return false
    else
      acceptUri m (UInt16.ofInt value)

/-- `parse_database_uri` -/
def parseDatabaseUri (resolver : Resolver) (uri : String) : Comp DbParams Exception Bool :=
  match uriRegex.regexMatch uri.toList with
  | none => pure false
  | some m => readUri resolver m

end Mariadb
end XaMain
