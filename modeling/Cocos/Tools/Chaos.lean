import Cocos.Lib.Draws
import Cocos.Tools.Detectors
import Cocos.Tools.Gateway
import Mathlib.Data.Rat.Floor

namespace Cocos.Tools

open Cocos.Lib

/-!
# The chaos engine

`tools/src/chaos/chaos.ts`, `chaos.service.ts`: the modes, what a die says of a call under them, and
the rows the engine writes about itself.

* `ChaosMode`, `ChaosToggle`, `ChaosConfig` — the modes and their settings;
* `ChaosToggle.rolls`, `ChaosConfig.delay` — the dice, for a roll of `Math.random()`;
* `chaosEvent`, `droppedResponse`, `retriedOrder` — the rows.
-/

inductive ChaosMode
  | latency_injection
  | response_drop
  | client_retry
  | db_pause
deriving DecidableEq, Repr

def ChaosMode.text : ChaosMode → String
  | .latency_injection => "latency_injection"
  | .response_drop => "response_drop"
  | .client_retry => "client_retry"
  | .db_pause => "db_pause"

/-- Milliseconds for the delay, a probability for the two dice, seconds for the pause. -/
structure ChaosToggle where
  enabled : Bool
  intensity : ℚ

abbrev ChaosConfig := ChaosMode → ChaosToggle

/-- What `configure` holds the intensity of a mode to. -/
def ceiling : ChaosMode → ℚ
  | .latency_injection => 5000
  | .db_pause => 30
  | .response_drop | .client_retry => 1

/-- Everything off, at the intensities each mode takes when it is switched on without one. -/
def initialModes : ChaosConfig
  | .latency_injection => ⟨false, 250⟩
  | .response_drop => ⟨false, toDouble (1 / 5)⟩
  | .client_retry => ⟨false, 1⟩
  | .db_pause => ⟨false, 5⟩

/-- A value of `Math.random()`. -/
abbrev Roll := Draw

/-- `ChaosService.rolls`. -/
def ChaosToggle.rolls (toggle : ChaosToggle) (r : Roll) : Bool :=
  toggle.enabled && r.value < toggle.intensity

/-- `ChaosService.delay`, in milliseconds. -/
def ChaosConfig.delay (modes : ChaosConfig) (r : Roll) : Int :=
  let ⟨enabled, intensity⟩ := modes .latency_injection
  if enabled then r.below (toDouble (intensity + 1)) else 0

/-! ### Its rows -/

/-- The row of an injection. -/
def chaosEvent (mode : ChaosMode) (ok : Bool) (body : Body) (now latencyMs : Int) : Attempt where
  id := 0
  sentAt := now
  method := "CHAOS"
  path := "chaos:" ++ mode.text
  latencyMs := latencyMs
  status := if ok then 200 else 500
  ok := ok
  sent := none
  body := some body
  expected := none
  actual := none
  orderId := none
  idempotencyKey := none
  chaos := none

/-- A number or a string of a body, `null` where there is none. -/
def orNull (text : Option String) : String := text.getD "null"

/-- The answer of an attempt was hidden. -/
def droppedResponse (attemptId hiddenStatus : Nat) (now : Int) : Attempt :=
  chaosEvent .response_drop true ⟨"\x7b\"attemptId\":" ++ toString attemptId ++
    ",\"hiddenStatus\":" ++ toString hiddenStatus ++ "\x7d", none⟩ now 0

/-- What the retry of an attempt came back with. -/
structure RetryOutcome where
  attemptId : Nat
  status : Nat
  orderId : Option Int

/-- An attempt was sent again. -/
def retriedOrder (lost : Nat) (sent : Option OrderKey) (retry : RetryOutcome) (now : Int) :
    Attempt :=
  chaosEvent .client_retry true ⟨"\x7b\"of\":" ++ toString lost ++
    ",\"retry\":" ++ toString retry.attemptId ++
    ",\"order\":" ++ orNull ((logicalKey sent).map fun key => "\"" ++ key ++ "\"") ++
    ",\"status\":" ++ toString retry.status ++
    ",\"orderId\":" ++ orNull (retry.orderId.map toString) ++ "\x7d", none⟩ now 0

end Cocos.Tools
