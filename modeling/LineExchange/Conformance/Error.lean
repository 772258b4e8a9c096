import LineExchange.Exchange.Error

/-!
# LineExchange.Conformance.Error

Why a scenario does not pass.
-/

namespace LineExchange

/-- Why a scenario does not pass. -/
inductive ScenarioError where
  /-- The memory or the device could not be made. -/
  | setup (text : String)
  /-- A call on the host was refused. -/
  | exchange (e : ExchangeError)
  /-- The device could not queue a transaction. -/
  | encode (e : EncodeError)
  /-- Something was not as the scenario expects. -/
  | assertion (text : String)
deriving DecidableEq

namespace ScenarioError

def message : ScenarioError → String
  | setup text => s!"setup error: {text}"
  | exchange e => s!"exchange error: {e.message}"
  | encode e => s!"encode error: {e.message}"
  | assertion text => s!"assertion failed: {text}"

end ScenarioError
end LineExchange
