import Mathlib.Data.Nat.Notation

namespace TpnWorker

/-- The unified error type, each variant with its message. -/
inductive AppError where
  | validation (message : String)
  | unauthorized (message : String)
  | internal (message : String)
  | db (message : String)
  | leaseUnavailable (message : String)
  | io (message : String)
deriving DecidableEq, Repr

/-- `Display`: the message alone. -/
def AppError.message : AppError → String
  | .validation message | .unauthorized message | .internal message | .db message | .leaseUnavailable message
  | .io message => message

end TpnWorker
