import LineExchange.Config
import LineExchange.Header.Encode

/-!
# LineExchange.Exchange.Error

The ways a call on a host is refused, and what is said of each.
-/

namespace LineExchange

/-- Why a call on a host is refused. A critical section that was entered has been left. -/
inductive ExchangeError where
  /-- The device was never ready as long as the spin policy allowed. -/
  | handshakeStuck (core attempts : Nat)
  /-- The device announced more payload than the receive buffer holds. -/
  | overflowExceeded (len capacity : Nat)
  /-- More payload was staged than one transaction carries. -/
  | payloadTooLarge (len capacity : Nat)
  /-- The transaction cannot be sent. The parity advanced and the doorbell rang all the same. -/
  | unsupportedTransmit (e : EncodeError)
  | regionTooSmall (required found : Nat)
  | invalidCore (core numCores : Nat)
  /-- Another owner of the core is still alive. -/
  | coreInUse (core : Nat)
  | config (e : ConfigError)
deriving DecidableEq

namespace ExchangeError

open Text

/-- Whether the caller can recover by trying again, be it with less payload. -/
def isRetryable : ExchangeError → Bool
  | handshakeStuck .. => true
  | payloadTooLarge .. => true
  | _ => false

def message : ExchangeError → String
  | handshakeStuck core attempts =>
    s!"core {core}: worker handshake not ready after {attempts} attempts"
  | overflowExceeded len capacity =>
    s!"received length {len} exceeds receive buffer capacity {capacity}"
  | payloadTooLarge len capacity => s!"payload of {len} bytes exceeds transmit capacity {capacity}"
  | unsupportedTransmit e => s!"unsupported transmit: {e.message}"
  | regionTooSmall required found =>
    s!"coherent region of {hex found} bytes, layout requires {hex required}"
  | invalidCore core numCores => s!"core {core} out of range ({numCores} cores mapped)"
  | coreInUse core => s!"core {core} already has an owner"
  | config e => s!"invalid configuration: {e.message}"

def shown : ExchangeError → String
  | handshakeStuck core attempts =>
    record "HandshakeStuck" [("core", toString core), ("attempts", toString attempts)]
  | overflowExceeded len capacity =>
    record "OverflowExceeded" [("len", toString len), ("capacity", toString capacity)]
  | payloadTooLarge len capacity =>
    record "PayloadTooLarge" [("len", toString len), ("capacity", toString capacity)]
  | unsupportedTransmit e => tuple "UnsupportedTransmit" [e.shown]
  | regionTooSmall required found =>
    record "RegionTooSmall" [("required", toString required), ("found", toString found)]
  | invalidCore core numCores =>
    record "InvalidCore" [("core", toString core), ("num_cores", toString numCores)]
  | coreInUse core => record "CoreInUse" [("core", toString core)]
  | config e => tuple "Config" [e.shown]

/-- The messages of the errors that led to this one, the nearest first. -/
def causes : ExchangeError → List String
  | unsupportedTransmit e => [e.message]
  | config e => e.message :: e.causes
  | _ => []

end ExchangeError

end LineExchange
