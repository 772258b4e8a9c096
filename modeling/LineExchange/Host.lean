import LineExchange.Exchange.Error
import LineExchange.Gate.Spin
import LineExchange.Memory
import LineExchange.Owner

/-!
# LineExchange.Host

The host of a region. It holds the memory, its settings, and for each core the gate
counters and whether someone has claimed the core. Each core has at most one owner at a time.
-/

namespace LineExchange

/-- The host of a region: it claims cores, passes their gates and keeps the counters. -/
structure Host (M : Type) where
  memory : M
  config : Config
  config_ok : config.check = .ok ()
  /-- The gate counters of each core. -/
  counters : Array Counters
  /-- Whether each core has an owner. -/
  claimed : Array Bool

namespace Host

variable {M : Type} [Memory M]

/-- A host over a memory that is large enough. -/
def open? (memory : M) (config : Config) : Except ExchangeError (Host M) :=
  match h : config.check with
  | .error e => .error (.config e)
  | .ok () =>
    if Memory.size memory < config.regionSize then
      .error (.regionTooSmall config.regionSize (Memory.size memory))
    else
      .ok { memory, config
            config_ok := h
            counters := .replicate config.numCores {}
            claimed := .replicate config.numCores false }

open Text in
def shown (memory : M → String) (host : Host M) : String :=
  openRecord "EciTransport"
    [("memory", memory host.memory), ("num_cores", toString host.config.numCores)]

/-- The refusal of a core that is not mapped. -/
def coreError? (host : Host M) (core : Nat) : Option ExchangeError :=
  if core < host.config.numCores then none else some (.invalidCore core host.config.numCores)

/-- Where the control byte of a core lies. -/
def workerAt (host : Host M) (core : Nat) : Nat := host.config.layout.workerAt core

def countersOf (host : Host M) (core : Nat) : Counters := host.counters.getD core {}

def isClaimed (host : Host M) (core : Nat) : Bool := host.claimed.getD core false

/-- The host with a core claimed or free. -/
def setClaimed (host : Host M) (core : Nat) (v : Bool) : Host M :=
  { host with claimed := host.claimed.setIfInBounds core v }

def onMemory {α : Type} (a : Access M α) : Access (Host M) α :=
  a.onPart memory fun host m => { host with memory := m }

def gate (core : Nat) : Access (Host M) Gate := do
  let host ← get
  let byte ← onMemory (Memory.loadControl (host.workerAt core))
  return ⟨byte, host.countersOf core⟩

/-- Store what became of the gate of a core. -/
def setGate (core : Nat) (g : Gate) : Access (Host M) Unit := do
  let host ← get
  onMemory (Memory.storeControl (host.workerAt core) g.byte)
  modify fun host => { host with counters := host.counters.setIfInBounds core g.counters }

/-- One step on the gate of a core. -/
def onGate {α : Type} (core : Nat) (f : Gate → α × Gate) : Access (Host M) α := do
  let (a, g) := f (← gate core)
  setGate core g
  return a

/-- Claim a core for an owner that expects the lines `next`. The core stays free if there is no
storage for the buffers. -/
def claim (core : Nat) (next : Parity) : Access (Host M) (Except ExchangeError Owner) := do
  let host ← get
  match host.coreError? core with
  | some e => return .error e
  | none =>
    if host.isClaimed core then return .error (.coreInUse core)
    let config := host.config
    Access.require (config.rxBufferSize < storageLimit ∧ config.txBufferSize < storageLimit)
      .outOfStorage
    set (host.setClaimed core true)
    return .ok (.synced core host.config next)

/-- The host after the owner of a core is gone. -/
def release (host : Host M) (core : Nat) : Host M := host.setClaimed core false

end Host
end LineExchange
