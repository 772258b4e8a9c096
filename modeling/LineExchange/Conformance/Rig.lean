import LineExchange.Conformance.Error
import LineExchange.Exchange.BringUp
import LineExchange.Exchange.Transmit
import LineExchange.Memory.Trace
import LineExchange.Nic

/-!
# LineExchange.Conformance.Rig

A rig to try out a memory: a host over a trace, a device and the memory under test. The trace
sees what the host does; what the device itself does with the memory bypasses it. A `Trial` is a
run on a rig that ends early when something is not as it should be.
-/

namespace LineExchange

abbrev RigMemory (M : Type) := Traced (Nic M)

/-- A host over the memory under test, and the owners of its cores. -/
structure Rig (M : Type) where
  host : Host (RigMemory M)
  owners : List Owner := []

/-- Why a trial ends early. -/
inductive TrialStop where
  | failed (e : ScenarioError)
  | fault (f : Fault)
  /-- It goes on past all that is followed. -/
  | endless
deriving DecidableEq

abbrev Trial (M : Type) := ExceptT TrialStop (StateM (Rig M))

namespace Rig

variable {M : Type} [Memory M]

/-- A rig with these settings over a memory that is made to size. -/
def assemble (make : Nat → Except ScenarioError M) (c : Config) : Except TrialStop (Rig M) :=
  match make c.regionSize with
  | .error e => .error (.failed e)
  | .ok memory =>
    match Nic.start memory c with
    | .error f => .error (.fault f)
    | .ok (.error e) => .error (.failed (.setup e.message))
    | .ok (.ok nic) =>
      match Host.open? ({ inner := nic } : RigMemory M) c with
      | .error e => .error (.failed (.exchange e))
      | .ok host => .ok { host }

end Rig

namespace Trial

variable {M α β σ : Type} [Memory M]

def fail (text : String) : Trial M α := throw (.failed (.assertion text))

def ensure (ok : Bool) (text : String) : Trial M Unit := if ok then pure () else fail text

def accepted : Except ExchangeError α → Trial M α
  | .ok a => pure a
  | .error e => throw (.failed (.exchange e))

/-- The error that must be reported; `expected` says which. -/
def ensureRefused (e : ExchangeError) (expected : String) (shown : α → String)
    (r : Except ExchangeError α) : Trial M Unit :=
  match r with
  | .ok _ => mismatch
  | .error found => if found = e then pure () else mismatch
where
  mismatch : Trial M Unit :=
    fail s!"expected {expected}, got {Text.result shown ExchangeError.shown r}"

def onHost (a : Access (Host (RigMemory M)) α) : Trial M α :=
  ExceptT.mk fun rig =>
    let (r, host) := a.run rig.host
    (r.mapError .fault, { rig with host })

/-! ## The device -/

def onNic (a : Access (Nic M) α) : Trial M α := onHost (Host.onMemory (Traced.onInner a))

def inject (core : Nat) (t : Transaction) (payload : Bytes) : Trial M Unit := do
  match ← onNic (Nic.inject core t payload) with
  | .ok () => pure ()
  | .error e => throw (.failed (.encode e))

/-- The device has seen no access to a line that was not the next. -/
def ensureInStep (core : Nat) (text : String) : Trial M Unit := do
  ensure ((← onNic (Nic.coreState core)).desyncs = 0) text

/-- The device has seen no access while nobody was inside the gate. -/
def ensureGuarded (core : Nat) (text : String) : Trial M Unit := do
  ensure ((← onNic (Nic.coreState core)).unguarded = 0) text

/-! ## The trace -/

def trace : Trial M (RigMemory M) := return (← get).host.memory

def clearTrace : Trial M Unit := onHost (Host.onMemory (modify Traced.clear))

def overflowRange (core : Nat) (d : Direction) : Trial M Range := do
  let layout := (← get).host.config.layout
  let start := layout.overflowAt core d
  return ⟨start, start + layout.overflowSize⟩

/-! ## Owners -/

/-- Claim a core for a new owner, if the host lets it. -/
def tryClaim (core : Nat) (next : Parity) : Trial M (Except ExchangeError Unit) := do
  match ← onHost (Host.claim core next) with
  | .error e => return .error e
  | .ok o =>
    modify fun rig => { rig with owners := o :: rig.owners }
    return .ok ()

def claim (core : Nat) (next : Parity := {}) : Trial M Unit := do accepted (← tryClaim core next)

def owner (core : Nat) : Trial M Owner := do
  match (← get).owners.find? (·.core = core) with
  | some o => return o
  | none => fail s!"core {core} has no owner"

def release (core : Nat) : Trial M Unit :=
  modify fun rig =>
    { rig with host := rig.host.release core, owners := rig.owners.filter (·.core ≠ core) }

def gate (core : Nat) : Trial M Gate := onHost (Host.gate core)

/-! ## Exchanges -/

def exchange (core : Nat)
    (f : Exchange (RigMemory M) → Except Stop α × β × Exchange (RigMemory M)) :
    Trial M (Except ExchangeError α × β) := do
  let o ← owner core
  let (r, b, x) := f ⟨(← get).host, o⟩
  modify fun rig =>
    { host := x.host, owners := rig.owners.map fun o => if o.core = core then x.owner else o }
  match r with
  | .ok a => return (.ok a, b)
  | .error (.refused e) => return (.error e, b)
  | .error (.fault f) => throw (.fault f)
  | .error .endless => throw .endless

def step (core : Nat) (a : Exchange.Step (RigMemory M) α) : Trial M (Except ExchangeError α) := do
  return (← exchange core fun x => let (r, x) := Exchange.Step.run a x; (r, (), x)).1

def policy : Trial M (SpinPolicy Unit) := return (← get).host.config.spin.policy

def tryReceive (core : Nat) : Trial M (Except ExchangeError (Option Received)) := do
  let p ← policy
  step core (Exchange.receive p)

/-- Poll for one transaction; the poll must not be refused. -/
def receive (core : Nat) : Trial M (Option Received) := do accepted (← tryReceive core)

def receiveSome (core : Nat) (text : String) : Trial M Received := do
  match ← receive core with
  | some r => return r
  | none => fail text

/-- Poll for one transaction; nothing must be there. -/
def receiveNone (core : Nat) (text : String) : Trial M Unit := do
  ensure (← receive core).isNone text

def tryTransmitEdited (core : Nat) (kind : TransactionKind) (e : DescriptorEdit) :
    Trial M (Except ExchangeError Unit) := do
  let d ← accepted (← step core (Exchange.prepare kind))
  let p ← policy
  return (← exchange core fun x => x.transmitWith p () (d.edit e).2).1

def tryTransmit (core : Nat) (t : Transaction) (payload : Bytes) :
    Trial M (Except ExchangeError Unit) :=
  tryTransmitEdited core .bypass { transaction := some t, append := payload }

/-- Send a transaction; the transmit must not be refused. -/
def transmit (core : Nat) (t : Transaction) (payload : Bytes) : Trial M Unit := do
  accepted (← tryTransmit core t payload)

end Trial
end LineExchange
