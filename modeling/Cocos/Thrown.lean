import Mathlib.Order.Notation

namespace Cocos

/-!
# What the service can throw

The errors that travel up a request: the language's own, the two of the order rules and of
the HTTP layer, and the ones the database answers a statement with.  A request that throws
inside a transaction is rolled back, so an error is all it leaves behind.
-/

/-- An error the database raises while a statement runs, or the driver around it. -/
inductive DatabaseError
  /-- `integer out of range`: a cast to `INT`, or the negation of its smallest value. -/
  | integerOutOfRange
  /-- `numeric field overflow`: a value past what `NUMERIC(10, 2)` holds. -/
  | numericFieldOverflow
  /-- `duplicate key value violates unique constraint`, with the constraint's name. -/
  | uniqueViolation (constraint : String)
  /-- `P2028`: the transaction API ran out of time and rolled the transaction back. -/
  | P2028
deriving DecidableEq, Repr

/-- Everything a request handler can throw. -/
inductive Thrown
  | rangeError (message : String)
  | typeError
  | orderRuleError (message : String)
  | httpException (status : Nat) (message : String)
  | database (error : DatabaseError)
deriving DecidableEq, Repr

/-- `BadRequestException`. -/
def Thrown.badRequest (message : String) : Thrown := .httpException 400 message

/-- `NotFoundException`. -/
def Thrown.notFound (message : String) : Thrown := .httpException 404 message

/-- `ConflictException`. -/
def Thrown.conflict (message : String) : Thrown := .httpException 409 message

/-- `ServiceUnavailableException`. -/
def Thrown.serviceUnavailable (message : String) : Thrown := .httpException 503 message

end Cocos
