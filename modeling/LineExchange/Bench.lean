import LineExchange.Bench.Backing
import LineExchange.Bench.Named
import LineExchange.Exchange.BringUp
import LineExchange.Exchange.Transmit

/-!
# LineExchange.Bench

A bench on which exchanges are tried out. It has several hosts, each over a traced memory of its
own, and keeps owners, descriptors and entered gates by name. An owner may have several names and
may be used on any host; its core is free again on the host it was claimed from when the last
name is gone.

A call that would not end is not made: it is refused as endless and leaves the bench as it was.
-/

namespace LineExchange

abbrev BenchMemory := Traced Backing

/-- An owner and the host it was claimed from. -/
structure HeldOwner where
  host : Nat
  owner : Owner

/-- Hosts, and what is in use on them. -/
structure Bench where
  hosts : Array (Host BenchMemory) := #[]
  /-- All owners ever claimed; one that is gone is `none`. -/
  owners : Array (Option HeldOwner) := #[]
  /-- Names of owners. -/
  slots : Named Nat := {}
  descriptors : Named Descriptor := {}
  /-- Host and core of each gate that was entered by hand. -/
  guards : Named (Nat × Nat) := {}

/-- Why a bench has no result for a call. -/
inductive BenchError where
  /-- Something the call names is not there. -/
  | missing (what : String)
  | refused (e : ExchangeError)
  | unencodable (e : EncodeError)
  | fault (f : Fault)
  | endless

/-- A host to be set up on a bench. -/
structure HostSpec where
  withDevice : Bool
  config : Config
  /-- Bytes of the region; by default as many as the settings need. -/
  size : Option Nat := none

/-- Why a host cannot be set up. -/
inductive SetupError where
  /-- The device refuses the settings. -/
  | device (e : ConfigError)
  | host (e : ExchangeError)
  | fault (f : Fault)

namespace HostSpec

def largestDefault : Nat := 0x400000

def regionSize (s : HostSpec) : Nat :=
  s.size.getD <| match s.config.layout.regionSize s.config.numCores with
    | some n => if n ≤ largestDefault then n else 0
    | none => 0

def backing (s : HostSpec) : Except SetupError Backing :=
  let region := Region.zeros s.regionSize
  if s.withDevice then
    match Nic.start region s.config with
    | .error f => .error (.fault f)
    | .ok (.error e) => .error (.device e)
    | .ok (.ok n) => .ok (.device n)
  else .ok (.plain region)

def open? (s : HostSpec) : Except SetupError (Host BenchMemory) :=
  match s.backing with
  | .error e => .error e
  | .ok b => (Host.open? { inner := b } s.config).mapError .host

end HostSpec

namespace Bench

variable {α β : Type}

/-- A call on a bench. What it did stays done even if it has no result. -/
abbrev Call := ExceptT BenchError (StateM Bench)

def Call.run (a : Call α) (b : Bench) : Except BenchError α × Bench := (ExceptT.run a).run b

def ofHosts (hosts : List (Host BenchMemory)) : Bench := { hosts := hosts.toArray }

def present (what : String) (a : Option α) : Call α :=
  match a with
  | some a => pure a
  | none => throw (.missing what)

def accepted (r : Except ExchangeError α) : Call α :=
  match r with
  | .ok a => pure a
  | .error e => throw (.refused e)

def host (t : Nat) : Call (Host BenchMemory) := do present "t" (← get).hosts[t]?

def onHost (t : Nat) (a : Access (Host BenchMemory) α) : Call α := do
  let (r, after) := a.run (← host t)
  modify fun b => { b with hosts := b.hosts.setIfInBounds t after }
  match r with
  | .ok a => return a
  | .error f => throw (.fault f)

def onTrace (t : Nat) (a : Access BenchMemory α) : Call α := onHost t (Host.onMemory a)

/-- An access to the region of a host, past trace and device. -/
def onRegion (t : Nat) (a : Access Region α) : Call α :=
  onTrace t (Traced.onInner (Backing.onRegion a))

/-- An access to the device of a host, which must have one. -/
def onDevice (t : Nat) (a : Access (Nic Region) α) : Call α := do
  let r ← onTrace t (Traced.onInner (Backing.access (pure none) (some <$> a)))
  present "no model" r

def hostWithCore (t core : Nat) : Call Unit := do
  match (← host t).coreError? core with
  | some e => throw (.refused e)
  | none => pure ()

def ownerId (slot : String) : Call Nat := do present "slot" ((← get).slots.get? slot)

def held (id : Nat) : Call HeldOwner := do present "slot" ((← get).owners[id]?).join

def owner (slot : String) : Call Owner := do return (← held (← ownerId slot)).owner

/-- Let go of an owner if it has no name left: its core is free again. -/
def releaseUnnamed (id : Nat) : Call Unit := do
  let b ← get
  if id ∈ b.slots.values then return
  if let some h := b.owners[id]?.join then
    modify fun b =>
      { b with
        owners := b.owners.setIfInBounds id none
        hosts := b.hosts.modify h.host (·.release h.owner.core) }

/-- Give an owner a name; whoever had the name before loses it. -/
def name (slot : String) (id : Nat) : Call Unit := do
  let old := (← get).slots.get? slot
  modify fun b => { b with slots := b.slots.insert slot id }
  if let some old := old then releaseUnnamed old

def claim (t core : Nat) (next : Parity) (slot : String) : Call Unit := do
  let owner ← accepted (← onHost t (Host.claim core next))
  let id := (← get).owners.size
  modify fun b => { b with owners := b.owners.push (some ⟨t, owner⟩) }
  name slot id

/-- Take a name from an owner; whether there was one. -/
def dropSlot (slot : String) : Call Bool := do
  match (← get).slots.get? slot with
  | none => return false
  | some id =>
    modify fun b => { b with slots := b.slots.erase slot }
    releaseUnnamed id
    return true

def share (slot second : String) : Call Unit := do name second (← ownerId slot)

def exchange (t : Nat) (slot : String)
    (f : Exchange BenchMemory → Except Stop α × β × Exchange BenchMemory) :
    Call (Except ExchangeError α × β) := do
  let id ← ownerId slot
  let h ← held id
  let (r, b, x) := f ⟨← host t, h.owner⟩
  let keep : Call Unit := modify fun b =>
    { b with
      hosts := b.hosts.setIfInBounds t x.host
      owners := b.owners.setIfInBounds id (some { h with owner := x.owner }) }
  match r with
  | .error .endless => throw .endless
  | .error (.fault f) => keep; throw (.fault f)
  | .error (.refused e) => keep; return (.error e, b)
  | .ok a => keep; return (.ok a, b)

/-- Put a named owner to work on a host; a refusal is no result. -/
def step (t : Nat) (slot : String) (a : Exchange.Step BenchMemory α) : Call α := do
  let (r, _) ← exchange t slot fun x => let (r, x) := Exchange.Step.run a x; (r, (), x)
  accepted r

/-- How long a call waits: as told, or as the host is configured. -/
def patience (p : Option Patience) (x : Exchange BenchMemory) : Patience :=
  p.getD (.limit x.host.config.spin)

def receive (t : Nat) (slot : String) (w : Option Patience) :
    Call (Except ExchangeError (Option Received) × Option (List Nat)) :=
  exchange t slot fun x => (patience w x).apply fun p s => x.receiveWith p s

def prepare (t : Nat) (slot : String) (kind : TransactionKind) (desc : String) :
    Call Descriptor := do
  let d ← step t slot (Exchange.prepare kind)
  modify fun b => { b with descriptors := b.descriptors.insert desc d }
  return d

def descriptor (desc : String) : Call Descriptor := do present "desc" ((← get).descriptors.get? desc)

/-- Edit a staged descriptor; whether the word to be set exists, and the descriptor. -/
def edit (desc : String) (e : DescriptorEdit) : Call (Option Bool × Descriptor) := do
  let (found, d) := (← descriptor desc).edit e
  modify fun b => { b with descriptors := b.descriptors.insert desc d }
  return (found, d)

/-- Forget a staged descriptor; whether there was one. -/
def discardDescriptor (desc : String) : Call Bool := do
  let found := (← get).descriptors.contains desc
  modify fun b => { b with descriptors := b.descriptors.erase desc }
  return found

def transmitDescriptor (t : Nat) (slot : String) (d : Descriptor) (w : Option Patience) :
    Call (Except ExchangeError Unit × Option (List Nat)) :=
  exchange t slot fun x => (patience w x).apply fun p s => x.transmitWith p s d

def transmit (t : Nat) (slot desc : String) (w : Option Patience) :
    Call (Except ExchangeError Unit × Option (List Nat)) := do
  let d ← descriptor desc
  let _ ← discardDescriptor desc
  transmitDescriptor t slot d w

def send (t : Nat) (slot : String) (tx : Transaction) (payload : Bytes) (w : Option Patience) :
    Call (Except ExchangeError Unit × Option (List Nat)) :=
  exchange t slot fun x =>
    match Exchange.Step.run (Exchange.prepare tx.kind) x with
    | (.error e, x) => (.error e, none, x)
    | (.ok _, x) =>
      (patience w x).apply fun p s => x.transmitWith p s { transaction := tx, payload }

def resync (t : Nat) (slot : String) (next : Parity) : Call Unit :=
  step t slot (Exchange.resync next)

/-- Whether the lines of a core would be received again and again: nobody empties the lines of a
plain region, and both hold a payload that fits. -/
def drainsForever (host : Host BenchMemory) (o : Owner) : Bool :=
  match host.memory.inner with
  | .device _ => false
  | .plain r =>
    [false, true].all fun parity =>
      let offset := host.config.layout.controlAt o.core .rx parity
      let header := host.config.format.decode (.ofBytes (r.bytes.slice offset lineSize))
      header.valid && header.length ≤ min o.rxCapacity host.config.layout.payloadCapacity

/-- Bring a core up; how much was drained. Where the lines do not last forever, either one of them
is not received or the queue of the device bounds the receives. -/
def bringUp (t : Nat) (slot : String) : Call Nat := do
  let o ← owner slot
  let host ← host t
  if (host.coreError? o.core).isNone && drainsForever host o then throw .endless
  let policy := host.config.spin.policy.atMost SpinLimit.patience
  step t slot (Exchange.bringUp policy (host.memory.inner.pending o.core + 3))

def gate (t core : Nat) : Call Gate := do
  hostWithCore t core
  onHost t (Host.gate core)

def setReady (t core : Nat) (v : Bool) : Call Unit := do
  hostWithCore t core
  onHost t (Host.onGate core fun g => ((), g.setReady v))

def leaveGuard (guard : Nat × Nat) : Call Unit :=
  onHost guard.1 (Host.onGate guard.2 fun g => ((), g.leave))

/-- Try to enter a gate by hand. The name may have another gate, which is left then. -/
def hold (t core : Nat) (guard : String) : Call Bool := do
  hostWithCore t core
  let entered ← onHost t (Host.onGate core fun g =>
    match g.tryEnter with
    | some inside => (true, inside)
    | none => (false, g))
  if entered then
    let old := (← get).guards.get? guard
    modify fun b => { b with guards := b.guards.insert guard (t, core) }
    if let some old := old then leaveGuard old
  return entered

/-- Leave the gate with a name; whether there was one. -/
def releaseGuard (guard : String) : Call Bool := do
  match (← get).guards.get? guard with
  | none => return false
  | some g =>
    modify fun b => { b with guards := b.guards.erase guard }
    leaveGuard g
    return true

/-- Put a transaction into a core's RX lines, past trace and device. -/
def stage (t core : Nat) (parity : Bool) (tx : Transaction) (payload : Bytes) : Call Unit := do
  let config := (← host t).config
  match config.format.encode tx payload.size (payload.slice 0 inlineSize) with
  | .error e => throw (.unencodable e)
  | .ok line =>
    if inlineSize < payload.size then
      onRegion t (Region.write (config.layout.overflowAt core .rx)
        (payload.slice inlineSize (payload.size - inlineSize)))
    onRegion t (Region.write (config.layout.controlAt core .rx parity) line.bytes)

def inject (t core : Nat) (tx : Transaction) (payload : Bytes) : Call Unit := do
  match ← onDevice t (Nic.inject core tx payload) with
  | .ok () => pure ()
  | .error e => throw (.unencodable e)

/-- What is shown of an owner and of its core on a host. -/
structure Status where
  next : Parity
  stats : Stats
  /-- The gate, if the host has the core. -/
  gate : Option Gate

def status (t : Nat) (slot : String) : Call Status := do
  let o ← owner slot
  let host ← host t
  let g ← match host.coreError? o.core with
    | some _ => pure none
    | none => some <$> onHost t (Host.gate o.core)
  return ⟨o.next, o.stats, g⟩

end Bench
end LineExchange
