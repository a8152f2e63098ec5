import Mathlib
import MarketConnection.Foundations.Unsequenced

/-!
# Utilities — strings, error codes, and what leaves a call by throwing

`utilities.h`, with the parts of the standard library and of Boost its signatures mention.
`handleError` is the one function through which the REST code looks at an error code: it writes a
line to `std::cerr` and returns.
-/

namespace Twelvedata

/-- A `std::string`: its characters, any of them, NUL included. -/
abbrev StdString := List Char

/-- A `boost::system::error_code`, by what the code asks of it. -/
structure ErrorCode where
  failed : Bool
  message : StdString
  category : StdString
deriving DecidableEq

/-- A default-constructed error code. -/
def ErrorCode.success : ErrorCode := ⟨false, "Success".toList, "system".toList⟩

/-- The exceptions the modelled code can throw. -/
inductive Exception
  /-- `parser.release()` without a complete document, with the parser's error code. -/
  | systemError (ec : ErrorCode)
  /-- `value::at`, `as_array`, `value_to`: the value is of another kind. -/
  | notObject | notArray | notString | notBool
  /-- `object::at`: there is no such key. -/
  | outOfRange (key : StdString)
  /-- `std::optional::value` of an empty optional. -/
  | badOptionalAccess
deriving DecidableEq

/-! ## `utilities.h` -/

def boolToCstr (value : Bool) : StdString := if value then "true".toList else "false".toList

/-- **The line `handle_error` writes to `std::cerr`, if any.**  It has no other effect: whatever the
code, the caller goes on. -/
def handleError (ec : ErrorCode) (msg : StdString) : List StdString :=
  if ec.failed then
    [msg ++ ". ".toList ++ ec.message ++ " (".toList ++ ec.category ++ ")".toList]
  else []

/-- `for_each_argument(f, args...)`: `f` is called in the arguments of a call, so in any order. -/
abbrev forEachArgument {n : ℕ} {m : Type → Type*} [Monad m] (σ : Unsequenced.Order n)
    (f : Fin n → m PUnit) : m PUnit := Unsequenced.forEach σ f

end Twelvedata
