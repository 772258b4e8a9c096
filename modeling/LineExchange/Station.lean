import LineExchange.Bench.Backing
import LineExchange.Exchange.BringUp
import LineExchange.Exchange.Transmit
import Mathlib.Logic.Function.Basic

/-!
# LineExchange.Station

A host at work. A station keeps the owner of each core and the guards held for it, and goes on
operation by operation: a core is claimed or let go, its owner makes a call, its gate is used by
hand, or its device is asked for something. Each operation names one core.

A call may also come from an owner that was claimed elsewhere (`Op.visit`). Only the size of its
receive buffer and its parities then need not be those that the host would have given it.
-/

namespace LineExchange

namespace Backing

def bytes : Backing → Bytes
  | plain r => r.bytes
  | device d => d.memory.bytes

/-- What the device holds of a core, if there is a device and the core is mapped. -/
def device? (core : Nat) : Backing → Option NicCore
  | plain _ => none
  | device d => d.cores[core]?

end Backing

/-- What an operation comes to. -/
inductive Outcome where
  | done
  | received (r : Option Received)
  | staged (d : Descriptor)
  | drained (n : Nat)
  | packets (ps : List Packet)
  /-- Whether a guard was taken. -/
  | held (b : Bool)
  | refused (e : ExchangeError)
  | unencodable (e : EncodeError)
  | fault (f : Fault)
  | endless
  /-- What the operation is about is not there. -/
  | absent
deriving DecidableEq

namespace Outcome

variable {α : Type}

/-- The answer of an access that answers `say`. -/
def ofAccess (say : α → Outcome) : Except Fault α → Outcome
  | .ok v => say v
  | .error f => .fault f

/-- The answer of a call that answers `say`. -/
def ofCall (say : α → Outcome) : Except Stop α → Outcome
  | .ok v => say v
  | .error (.refused e) => .refused e
  | .error (.fault f) => .fault f
  | .error .endless => .endless

end Outcome

/-- What an owner can be asked to do. -/
inductive Call : Type 1 where
  | receive {σ : Type} (p : SpinPolicy σ) (t : σ)
  | prepare (kind : TransactionKind)
  | transmit {σ : Type} (p : SpinPolicy σ) (t : σ) (d : Descriptor)
  | resync (next : Parity)
  | bringUp (p : SpinPolicy Unit) (fuel : Nat)

namespace Call

variable {M : Type} [Memory M]

def make (x : Exchange M) : Call → Outcome × Exchange M
  | receive p t =>
    let (r, _, x) := x.receiveWith p t
    (.ofCall .received r, x)
  | prepare kind =>
    let (r, x) := Exchange.Step.run (Exchange.prepare kind) x
    (.ofCall .staged r, x)
  | transmit p t d =>
    let (r, _, x) := x.transmitWith p t d
    (.ofCall (fun _ => .done) r, x)
  | resync next =>
    let (r, x) := Exchange.Step.run (Exchange.resync next) x
    (.ofCall (fun _ => .done) r, x)
  | bringUp p fuel =>
    let (r, x) := Exchange.Step.run (Exchange.bringUp p fuel) x
    (.ofCall .drained r, x)

end Call

/-- What can be done at a station. -/
inductive Op : Type 1 where
  | claim (core : Nat) (next : Parity)
  /-- The owner of a core is gone. -/
  | drop (core : Nat)
  | call (core : Nat) (c : Call)
  /-- A call by an owner that was claimed from another host. -/
  | visit (o : Owner) (c : Call)
  /-- Set or clear `ready` from the side of the host. -/
  | setReady (core : Nat) (v : Bool)
  /-- One attempt to take a guard. -/
  | hold (core : Nat)
  /-- A guard is dropped. -/
  | leave (core : Nat)
  /-- The device gives a core to the host or takes it away. -/
  | grant (core : Nat) (v : Bool)
  | inject (core : Nat) (t : Transaction) (payload : Bytes)
  | setLoopback (core : Nat) (v : Bool)
  | takeSent (core : Nat)

namespace Op

/-- The core that the operation is about. -/
def core : Op → Nat
  | claim core _ => core
  | drop core => core
  | call core _ => core
  | visit o _ => o.core
  | setReady core _ => core
  | hold core => core
  | leave core => core
  | grant core _ => core
  | inject core _ _ => core
  | setLoopback core _ => core
  | takeSent core => core

end Op

/-- A host and what is in use on it. -/
structure Station where
  host : Host Backing
  owners : Nat → Option Owner := fun _ => none
  /-- How many guards are held for each core. -/
  guards : Nat → Nat := fun _ => 0

namespace Station

variable {α : Type}

def onHost (s : Station) (say : α → Outcome) (a : Access (Host Backing) α) : Outcome × Station :=
  let (r, host) := a.run s.host
  (.ofAccess say r, { s with host })

/-- An access to the device, if there is one. -/
def onDevice (s : Station) (say : α → Outcome) (a : Access (Nic Region) α) : Outcome × Station :=
  s.onHost (·.getD .absent) (Host.onMemory (Backing.access (pure none) ((some ∘ say) <$> a)))

/-- A step on the gate of a core that is mapped. -/
def onGate (s : Station) (core : Nat) (say : α → Outcome) (f : Gate → α × Gate) :
    Outcome × Station :=
  match s.host.coreError? core with
  | some e => (.refused e, s)
  | none => s.onHost say (Host.onGate core f)

def claim (s : Station) (core : Nat) (next : Parity) : Outcome × Station :=
  match Access.run (Host.claim core next) s.host with
  | (.ok (.ok o), host) =>
    (.done, { s with host, owners := Function.update s.owners core (some o) })
  | (.ok (.error e), host) => (.refused e, { s with host })
  | (.error f, host) => (.fault f, { s with host })

def drop (s : Station) (core : Nat) : Outcome × Station :=
  match s.owners core with
  | none => (.absent, s)
  | some o =>
    (.done, { s with
      host := s.host.release o.core, owners := Function.update s.owners core none })

def call (s : Station) (core : Nat) (c : Call) : Outcome × Station :=
  match s.owners core with
  | none => (.absent, s)
  | some o =>
    let (a, x) := c.make ⟨s.host, o⟩
    (a, { s with host := x.host, owners := Function.update s.owners core (some x.owner) })

/-- One attempt to take a guard, which then is held. -/
def hold (s : Station) (core : Nat) : Outcome × Station :=
  match s.onGate core .held fun g =>
    match g.tryEnter with
    | some inside => (true, inside)
    | none => (false, g) with
  | (.held true, s) =>
    (.held true, { s with guards := Function.update s.guards core (s.guards core + 1) })
  | (a, s) => (a, s)

/-- Drop a guard that is held. -/
def leave (s : Station) (core : Nat) : Outcome × Station :=
  if s.guards core = 0 then (.absent, s)
  else { s with guards := Function.update s.guards core (s.guards core - 1) }.onGate core
    (fun _ => .done) fun g => ((), g.leave)

def step (s : Station) : Op → Outcome × Station
  | .claim core next => s.claim core next
  | .drop core => s.drop core
  | .call core c => s.call core c
  | .visit o c =>
    let (a, x) := c.make ⟨s.host, o⟩
    (a, { s with host := x.host })
  | .setReady core v => s.onGate core (fun _ => .done) fun g => ((), g.setReady v)
  | .hold core => s.hold core
  | .leave core => s.leave core
  | .grant core v => s.onDevice (fun _ => .done) (Nic.setReady core v)
  | .inject core t payload =>
    s.onDevice (fun | .ok () => .done | .error e => .unencodable e) (Nic.inject core t payload)
  | .setLoopback core v => s.onDevice (fun _ => .done) (Nic.setLoopback core v)
  | .takeSent core => s.onDevice .packets (Nic.takeSent core)

/-- A station at the start: its host was just opened, on a plain region or on a device that was
just put in front of one. -/
inductive Opened (c : Config) : Station → Prop where
  | plain {r : Region} {host : Host Backing} : Host.open? (.plain r) c = .ok host →
    Opened c { host }
  | device {r : Region} {d : Nic Region} {host : Host Backing} : Nic.start r c = .ok (.ok d) →
    Host.open? (.device d) c = .ok host → Opened c { host }

/-- The station after some operations. -/
def after (s : Station) (ops : List Op) : Station := ops.foldl (fun s op => (s.step op).2) s

/-- What the operations on one core come to. -/
def outcomes (core : Nat) : Station → List Op → List Outcome
  | _, [] => []
  | s, op :: ops =>
    let (a, s) := s.step op
    if op.core = core then a :: outcomes core s ops else outcomes core s ops

/-- What a station holds of one core. -/
structure View where
  /-- The bytes from the base of the window to the end of the worker-control line. -/
  window : Bytes
  counters : Counters
  claimed : Bool
  owner : Option Owner
  guards : Nat
  device : Option NicCore

def view (s : Station) (core : Nat) : View where
  window := s.host.memory.bytes.slice (s.host.config.layout.coreBase core)
    (s.host.config.layout.workerControl.toNat + lineSize)
  counters := s.host.countersOf core
  claimed := s.host.isClaimed core
  owner := s.owners core
  guards := s.guards core
  device := s.host.memory.device? core

end Station
end LineExchange
