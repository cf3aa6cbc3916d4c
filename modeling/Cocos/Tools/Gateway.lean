import Cocos.Tools.Attempts

namespace Cocos.Tools

/-!
# The gateway

`tools/src/gateway/gateway.service.ts`: every call the harness makes goes through it and is
recorded, and so is the one retry of a placement that was never answered.

* `KeyedCall` — a request that places an order, under the key of that order;
* `Answer`, `Answer.hidden` — what came back, and what chaos leaves of it;
* `KeyedCall.attempt` — the row a call is recorded under;
* `Details` — what is written onto a row later.
-/

/-- A call that places an order under a key. -/
structure KeyedCall where
  userId : Int
  sent : Option OrderKey
  path : String
  key : String
  sentAt : Int
  /-- The row of the attempt it is the retry of. -/
  retryOf : Option Nat
deriving Repr

/-- How long the gateway waits for an answer. -/
def TIMEOUT_MS : Int := 10000

/-- An answer as it is recorded; chaos may have hidden the one that came. -/
structure Answer where
  status : Nat
  ok : Bool
  body : Option Body
  /-- The order the body names. -/
  orderId : Option Int

/-- The body of an answer that was hidden from the caller. -/
def DROPPED : Body :=
  let message := "chaos: the response was dropped before the client saw it"
  ⟨"\x7b\"message\":\"" ++ message ++ "\"\x7d", some message⟩

/-- What the caller is left with of an answer that is hidden from it. -/
def Answer.hidden : Answer := ⟨0, false, some DROPPED, none⟩

/-- What an annotation writes onto a row, where it is given. -/
structure Details where
  expected : Option Expectation
  actual : Option OrderStatus
  orderId : Option Int
  chaos : Option ChaosMark

def Details.write (d : Details) (row : Attempt) : Attempt :=
  { row with
    expected := d.expected.or row.expected
    actual := d.actual.or row.actual
    orderId := d.orderId.or row.orderId
    chaos := d.chaos.or row.chaos }

/-- The row a call is recorded under. -/
def KeyedCall.attempt (call : KeyedCall) (now : Int) (answer : Answer) (delayedMs : Int)
    (chaos : Option ChaosMark) : Attempt where
  id := 0
  sentAt := call.sentAt
  method := "POST"
  path := call.path
  latencyMs := now - call.sentAt + delayedMs
  status := answer.status
  ok := answer.ok
  sent := call.sent
  body := answer.body
  expected := none
  actual := none
  orderId := if call.retryOf.isSome then answer.orderId else none
  idempotencyKey := some call.key
  chaos := chaos

end Cocos.Tools
