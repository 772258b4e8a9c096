import LineExchange.Exchange

/-!
# LineExchange.Exchange.Transmit

Sending one transaction. It is staged in a descriptor, which has the owner's transmit buffer
meanwhile. The owner enters and writes the overflow bytes and then the control line that comes
next. Reading one byte of the other control line rings the doorbell; this happens even if the
transaction could not be written, so that host and device stay in step.
-/

namespace LineExchange

/-- A transaction being staged. -/
structure Descriptor where
  transaction : Transaction
  payload : Bytes := ByteArray.empty
deriving DecidableEq

/-- Changes to a staged transaction, made in the order of the fields. A field that the
transaction does not have is left out. -/
structure DescriptorEdit where
  /-- Take this transaction instead. -/
  transaction : Option Transaction := none
  headerKind : Option HeaderKind := none
  xid : Option UInt32 := none
  funcPtr : Option UInt64 := none
  /-- Set the word with this index. -/
  word : Option (Nat × UInt32) := none
  tag : Option UInt64 := none
  /-- Keep at most this much payload. -/
  truncate : Option Nat := none
  /-- Add this to the payload. -/
  append : Bytes := ByteArray.empty

namespace DescriptorEdit

/-- Edit a call or reply; whether the word to be set exists, if one is to be set. -/
def onRpc (e : DescriptorEdit) (r : Rpc) : Option Bool × Rpc :=
  let r := { r with xid := e.xid.getD r.xid, funcPtr := e.funcPtr.getD r.funcPtr }
  match e.word with
  | none => (none, r)
  | some (i, w) =>
    let (found, words) := r.words.setWord i w
    (some found, { r with words })

def onTransaction (e : DescriptorEdit) : Transaction → Option Bool × Transaction
  | .bypass kind header => (none, .bypass (e.headerKind.getD kind) header)
  | .call r => (e.onRpc r).map id .call
  | .reply r => (e.onRpc r).map id .reply
  | .error tag => (none, .error (e.tag.getD tag))

end DescriptorEdit

/-- Edit a descriptor; whether the word to be set exists, if one is to be set. -/
def Descriptor.edit (d : Descriptor) (e : DescriptorEdit) : Option Bool × Descriptor :=
  let (found, t) := e.onTransaction (e.transaction.getD d.transaction)
  (found, ⟨t, d.payload.slice 0 (e.truncate.getD d.payload.size) ++ e.append⟩)

namespace Exchange

variable {M σ : Type} [Memory M]

/-- Lend out the transmit buffer for a transaction of a kind. -/
def prepare (kind : TransactionKind) : Step M Descriptor := do
  let x ← get
  set { x with owner := { x.owner with txBuffer := none } }
  if x.host.config.txBufferSize < storageLimit then
    return { transaction := .empty x.host.config.format kind }
  else throw (.fault .outOfStorage)

/-- What a host may send: frames with an Ethernet or IP header, calls and replies. -/
def sendable : Transaction → Except EncodeError Unit
  | .bypass .ethernet _ => .ok ()
  | .bypass .ip _ => .ok ()
  | .bypass kind _ => .error (.unsupportedHeader kind)
  | .call _ => .ok ()
  | .reply _ => .ok ()
  | .error _ => .error (.unsupportedKind .error)

/-- The control line for a descriptor. -/
def encodeStaged (f : Format) (d : Descriptor) : Except EncodeError Line :=
  match sendable d.transaction with
  | .error e => .error e
  | .ok () => f.encode d.transaction d.payload.size (d.payload.slice 0 inlineSize)

/-- Write a descriptor whose control line is `line`. -/
def writeStaged (d : Descriptor) (line : Line) : Step M Unit := do
  let x ← get
  let layout := x.host.config.layout
  if inlineSize < d.payload.size then
    onMemory (Memory.write (layout.overflowAt x.owner.core .tx)
      (d.payload.slice inlineSize (d.payload.size - inlineSize)))
  onMemory (Memory.write (layout.controlAt x.owner.core .tx x.owner.next.tx) line.bytes)

/-- Move on to the other control line and touch it. -/
def ringDoorbell : Step M Unit := do
  toggle .tx
  let x ← get
  onMemory (Memory.touch (x.host.config.layout.controlAt x.owner.core .tx x.owner.next.tx))

/-- The critical section of a transmit. -/
def send (d : Descriptor) : Step M (Except EncodeError Unit) := do
  match encodeStaged (← get).host.config.format d with
  | .ok line =>
    writeStaged d line
    ringDoorbell
    return .ok ()
  | .error e =>
    ringDoorbell
    return .error e

def transmitEntered (d : Descriptor) : Step M Unit := do
  match ← guarded (send d) with
  | .ok () => count fun s => { s with transmitted := s.transmitted + 1 }
  | .error e =>
    count fun s => { s with aborted := s.aborted + 1 }
    refuse (.unsupportedTransmit e)

/-- Send a descriptor, except that the transmit buffer is not brought back. -/
def transmitStaged (p : SpinPolicy σ) (s : σ) (d : Descriptor) (x : Exchange M) :
    Except Stop Unit × σ × Exchange M :=
  match x.host.coreError? x.owner.core with
  | some e => (.error (.refused e), s, x)
  | none =>
    let capacity := x.host.config.layout.payloadCapacity
    if capacity < d.payload.size then
      let stats := { x.owner.stats with aborted := x.owner.stats.aborted + 1 }
      (.error (.refused (.payloadTooLarge d.payload.size capacity)), s,
        { x with owner := { x.owner with stats } })
    else x.entering p s (transmitEntered d)

/-- Send a descriptor. The transmit buffer comes back empty unless the call broke off. -/
def transmitWith (p : SpinPolicy σ) (s : σ) (d : Descriptor) (x : Exchange M) :
    Except Stop Unit × σ × Exchange M :=
  match x.transmitStaged p s d with
  | (.error (.fault f), s, x) => (.error (.fault f), s, x)
  | (r, s, x) => (r, s, { x with owner := { x.owner with txBuffer := some ByteArray.empty } })

end Exchange
end LineExchange
