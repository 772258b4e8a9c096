import LineExchange.Exchange.Transmit
import LineExchange.Memory.Region

/-!
# LineExchange.Nic

A model of the device. It stands in front of a memory and reacts to two accesses. A read of an
RX control line fills the line with the next queued transaction, or empties it. A touch of a TX
control line is the doorbell: the transaction in the *other* TX line is taken. The device keeps
its own count of which lines come next and notes every access it did not expect.
-/

namespace LineExchange

/-- A transaction as it lies in memory. -/
structure RawTransaction where
  control : Line
  /-- Payload behind the bytes in the control line. -/
  overflow : Bytes
deriving DecidableEq

/-- A transaction that the host sent. -/
structure Packet where
  transaction : Transaction
  payload : Bytes
deriving DecidableEq

/-- The device's state for one core. Its counts do not wrap around at 2^64 either. -/
structure NicCore where
  /-- Waiting for the host, oldest first. -/
  queue : List RawTransaction := []
  /-- Sent by the host, oldest first. -/
  sent : List Packet := []
  /-- The lines that come next. -/
  next : Parity := {}
  /-- Whether what the host sends is queued for it again. -/
  loopback : Bool := false
  /-- Accesses to a line that was not the next. -/
  desyncs : Nat := 0
  /-- Accesses to a control line while nobody was inside the gate. -/
  unguarded : Nat := 0
deriving DecidableEq, Inhabited

/-- The device in front of a memory. -/
structure Nic (M : Type) where
  memory : M
  layout : Layout
  format : Format
  cores : Array NicCore

namespace Nic

variable {M α : Type} [Memory M]

/-- An access to the memory behind the device. -/
def onMemory (a : Access M α) : Access (Nic M) α := a.onPart memory fun n m => { n with memory := m }

def modifyCore (core : Nat) (f : NicCore → NicCore) : Access (Nic M) Unit :=
  modify fun n => { n with cores := n.cores.modify core f }

/-- The state for a core, which must be mapped. -/
def coreState (core : Nat) : Access (Nic M) NicCore := do
  match (← get).cores[core]? with
  | some c => return c
  | none => throw .outOfRange

/-- Give a core to the host or take it away. -/
def setReady (core : Nat) (v : Bool) : Access (Nic M) Unit := do
  let n ← get
  let offset := n.layout.workerAt core
  let byte ← onMemory (Memory.loadControl offset)
  onMemory (Memory.storeControl offset (ControlByte.setReady byte v))

/-- Bytes that the device keeps for one core, besides what is queued. -/
def coreFootprint : Nat := 88

/-- A device with its cores ready and nothing queued. -/
def start (memory : M) (c : Config) : Except Fault (Except ConfigError (Nic M)) :=
  match c.check with
  | .error e => .ok (.error e)
  | .ok () =>
    if storageLimit ≤ c.numCores * coreFootprint then .error .outOfStorage
    else
      let n : Nic M :=
        { memory, layout := c.layout, format := c.format, cores := .replicate c.numCores {} }
      let ready : Access (Nic M) Unit := (List.range c.numCores).forM fun core => setReady core true
      match ready.run n with
      | (.error f, _) => .error f
      | (.ok (), n) => .ok (.ok n)

/-- A device over a fresh region of the size the settings need. The region is made before the
settings are looked at. -/
def fresh (c : Config) : Except Fault (Except ConfigError (Nic Region)) :=
  if c.regionSize < storageLimit then start (Region.zeros c.regionSize) c
  else .error .outOfStorage

open Text in
def shown (memory : M → String) (n : Nic M) : String :=
  openRecord "NicModel" [("memory", memory n.memory), ("cores", toString n.cores.size)]

/-- Queue a raw transaction for the host. -/
def injectRaw (core : Nat) (raw : RawTransaction) : Access (Nic M) Unit := do
  let _ ← coreState core
  modifyCore core fun c => { c with queue := c.queue ++ [raw] }

/-- A transaction as it lies in memory, with the given payload. -/
def rawOf (l : Layout) (f : Format) (t : Transaction) (payload : Bytes) :
    Except EncodeError RawTransaction :=
  if l.payloadCapacity < payload.size then
    .error (.tooLarge "injected payload" payload.size l.payloadCapacity)
  else match f.encode t payload.size (payload.slice 0 inlineSize) with
    | .error e => .error e
    | .ok control => .ok ⟨control, payload.slice inlineSize (payload.size - inlineSize)⟩

def inject (core : Nat) (t : Transaction) (payload : Bytes) :
    Access (Nic M) (Except EncodeError Unit) := do
  let n ← get
  match rawOf n.layout n.format t payload with
  | .error e => return .error e
  | .ok raw =>
    injectRaw core raw
    return .ok ()

/-- Choose whether what the host sends is queued for it again. -/
def setLoopback (core : Nat) (v : Bool) : Access (Nic M) Unit := do
  let _ ← coreState core
  modifyCore core fun c => { c with loopback := v }

/-- Take what the host has sent since the last time. -/
def takeSent (core : Nat) : Access (Nic M) (List Packet) := do
  let c ← coreState core
  modifyCore core fun c => { c with sent := [] }
  return c.sent

/-- The control line that starts at an offset of the region. -/
def locate (n : Nic M) (offset : Nat) : Option (Nat × Direction × Bool) :=
  let core := offset / n.layout.stride.toNat
  let rel := offset % n.layout.stride.toNat
  if core < n.cores.size then
    [(Direction.rx, false), (.tx, false), (.rx, true), (.tx, true)].findSome? fun (d, parity) =>
      if rel = n.layout.controlOffset d parity then some (core, d, parity) else none
  else none

/-- Note an access to the line of a parity: whether it was inside the gate and expected. -/
def noteAccess (core : Nat) (d : Direction) (parity : Bool) : Access (Nic M) Unit := do
  let n ← get
  let byte ← onMemory (Memory.loadControl (n.layout.workerAt core))
  modifyCore core fun c =>
    { c with
      unguarded := c.unguarded + if ControlByte.isBusy byte then 0 else 1
      desyncs := c.desyncs + if c.next.get d = parity then 0 else 1 }

/-- The next line of a direction is the one of this parity. -/
def setNext (core : Nat) (d : Direction) (parity : Bool) : Access (Nic M) Unit :=
  modifyCore core fun c => { c with next := c.next.set d parity }

/-- The host is about to read an RX control line: put the next queued transaction there, or
nothing. -/
def serveRx (core : Nat) (parity : Bool) : Access (Nic M) Unit := do
  noteAccess core .rx parity
  let layout := (← get).layout
  let control := layout.controlAt core .rx parity
  let c ← coreState core
  modifyCore core fun c => { c with queue := c.queue.tail }
  match c.queue with
  | [] => onMemory (Memory.write control Line.zero.bytes)
  | raw :: _ =>
    if 0 < raw.overflow.size then
      onMemory (Memory.write (layout.overflowAt core .rx) raw.overflow)
    onMemory (Memory.write control raw.control.bytes)
  setNext core .rx !parity

/-- The host rang the doorbell of a TX control line: take the transaction in the other one. -/
def consumeTx (core : Nat) (doorbell : Bool) : Access (Nic M) Unit := do
  let written := !doorbell
  noteAccess core .tx written
  setNext core .tx doorbell
  let n ← get
  let control := n.layout.controlAt core .tx written
  let line := Line.ofBytes (← onMemory (Memory.read control lineSize))
  let header := n.format.decode line
  if header.valid then
    let len := min header.length n.layout.payloadCapacity
    let overflow ←
      if inlineSize < len then
        onMemory (Memory.read (n.layout.overflowAt core .tx) (len - inlineSize))
      else pure ByteArray.empty
    onMemory (Memory.write control Line.zero.bytes)
    modifyCore core fun c =>
      { c with
        queue := if c.loopback then c.queue ++ [⟨line, overflow⟩] else c.queue
        sent := c.sent ++ [⟨header.transaction, line.inline.slice 0 len ++ overflow⟩] }

instance : Memory (Nic M) where
  size n := Memory.size n.memory
  read offset len := do
    match (← get).locate offset with
    | some (core, .rx, parity) => serveRx core parity
    | _ => pure ()
    onMemory (Memory.read offset len)
  write offset data := onMemory (Memory.write offset data)
  touch offset := do
    match (← get).locate offset with
    | some (core, .tx, parity) => consumeTx core parity
    | _ => pure ()
    onMemory (Memory.touch offset)
  invalidate offset := onMemory (Memory.invalidate offset)
  loadControl offset := onMemory (Memory.loadControl offset)
  storeControl offset byte := onMemory (Memory.storeControl offset byte)

end Nic
end LineExchange
