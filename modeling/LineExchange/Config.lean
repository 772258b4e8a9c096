import LineExchange.Header.Decode
import LineExchange.Layout

/-!
# LineExchange.Config

The settings of a host: where things lie, how headers are written, how long an exchange waits for
the device, and the sizes of each core's buffers.
-/

namespace LineExchange

/-- How long an exchange keeps trying to enter. -/
inductive SpinLimit where
  /-- Until the device is ready. -/
  | unbounded
  /-- Until this many attempts after the first have failed. -/
  | attempts (max : Nat)
  /-- Until this much time has passed since the first failure. -/
  | timeout (milliseconds : Nat)
deriving DecidableEq, Inhabited

/-- The settings of a host. -/
structure Config where
  layout : Layout := {}
  format : Format := {}
  spin : SpinLimit := .unbounded
  /-- Bytes of each core's receive buffer. -/
  rxBufferSize : Nat := ({} : Layout).payloadCapacity
  /-- Bytes reserved for each core's transmit buffer. -/
  txBufferSize : Nat := ({} : Layout).payloadCapacity
  numCores : Nat := 1
deriving DecidableEq

/-- Why settings are refused. -/
inductive ConfigError where
  | layout (e : LayoutError)
  | format (e : FormatError)
  | noCores
  /-- The `len` field cannot describe the largest payload. -/
  | lengthFieldTooNarrow (max capacity : Nat)
deriving DecidableEq

namespace ConfigError

open Text

def message : ConfigError → String
  | layout e => s!"layout: {e.message}"
  | format e => s!"control format: {e.message}"
  | noCores => "at least one core must be mapped"
  | lengthFieldTooNarrow max capacity =>
    s!"len field holds at most {max}, payload capacity is {capacity}"

def shown : ConfigError → String
  | layout e => tuple "Layout" [e.shown]
  | format e => tuple "Format" [e.shown]
  | noCores => tuple "NoCores" []
  | lengthFieldTooNarrow max capacity =>
    record "LengthFieldTooNarrow" [("max", toString max), ("capacity", toString capacity)]

/-- The messages of the errors that led to this one. -/
def causes : ConfigError → List String
  | layout e => [e.message]
  | format e => [e.message]
  | _ => []

end ConfigError

namespace Config

/-- Whether the settings can be used; else what is wrong with them. -/
def check (c : Config) : Except ConfigError Unit :=
  match c.layout.check with
  | .error e => .error (.layout e)
  | .ok () =>
    match c.format.check with
    | .error e => .error (.format e)
    | .ok () =>
      if c.numCores = 0 then .error .noCores
      else if c.format.maxLength < c.layout.payloadCapacity then
        .error (.lengthFieldTooNarrow c.format.maxLength c.layout.payloadCapacity)
      else .ok ()

/-- The size a region needs for these settings, or the largest word if none is large enough. -/
def regionSize (c : Config) : Nat := c.layout.requiredSize c.numCores

end Config
end LineExchange
