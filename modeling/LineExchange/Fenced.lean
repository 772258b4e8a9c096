import LineExchange.Header.Fenced
import LineExchange.Station

/-!
# LineExchange.Fenced

The calls of an owner behind a fence. Before each access to memory the end of the access is
compared with the size of the region and with the largest word; no sum on the way to an address is
larger than that end. Before each slice and each copy its bounds are compared with the buffers. A
comparison that fails stops the call with `stray`.

A call that runs the same whatever `stray` is has not met the fence.
-/

namespace LineExchange

/-- What a host is asked to do: a call by an owner, or a step on a gate. -/
inductive Ask : Type 1 where
  | call (o : Owner) (c : Call)
  | gate (core : Nat) (f : Gate → Gate)

namespace Ask

variable {M : Type} [Memory M]

def serve (h : Host M) : Ask → Outcome × Host M
  | call o c =>
    let (a, x) := c.make ⟨h, o⟩
    (a, x.host)
  | gate core f =>
    match h.coreError? core with
    | some e => (.refused e, h)
    | none =>
      let (r, h) := Access.run (Host.onGate core fun g => ((), f g)) h
      (.ofAccess (fun _ => .done) r, h)

/-- What is answered, one after the other, and what becomes of the host. -/
def answers (serve : Host M → Ask → Outcome × Host M) : Host M → List Ask → List Outcome × Host M
  | h, [] => ([], h)
  | h, a :: as =>
    let (r, h) := serve h a
    let (rs, h) := answers serve h as
    (r :: rs, h)

end Ask

namespace Fenced

open Exchange (Step onMemory toggle refuse count fillBuffer guarded countReceived sendable)

variable {M α σ : Type} [Memory M] (stray : Stop)

/-- Whether `len` bytes at `offset` are in the region, and their end is a word. -/
def InRegion (m : M) (offset len : Nat) : Prop :=
  offset + len ≤ Memory.size m ∧ offset + len ≤ wordMax

instance (m : M) (offset len : Nat) : Decidable (InRegion m offset len) :=
  inferInstanceAs (Decidable (_ ∧ _))

/-- Stop if there is no value. -/
def demand : Option α → Step M α
  | some v => pure v
  | none => throw stray

/-- An access to `len` bytes at `offset`. -/
def reach (offset len : Nat) (a : Access M α) : Step M α := do
  let x ← get
  if InRegion x.host.memory offset len then onMemory a else throw stray

/-- Write over the first bytes of the receive buffer. -/
def fill (len : Nat) (data : Bytes) : Step M Unit := do
  let x ← get
  let rxBuffer ← demand stray (x.owner.rxBuffer.copy? 0 len data)
  set { x with owner := { x.owner with rxBuffer } }

def readLine (offset : Nat) : Step M Line := do
  return .ofBytes (← reach stray offset lineSize (Memory.read offset lineSize))

def poll : Step M (Option Received) := do
  let x ← get
  let layout := x.host.config.layout
  let line ← readLine stray (layout.controlAt x.owner.core .rx x.owner.next.rx)
  let header ← demand stray (x.host.config.format.decode? line)
  toggle .rx
  if header.valid then
    let len := header.length
    if x.rxLimit < len then
      refuse (.overflowExceeded len x.rxLimit)
    else
      let inline ← demand stray (line.bytes.slice? inlineOffset inlineSize)
      fill stray (min len inlineSize) (← demand stray (inline.slice? 0 (min len inlineSize)))
      if inlineSize < len then
        let _ ← demand stray (x.owner.rxBuffer.slice? inlineSize (len - inlineSize))
        let overflow := layout.overflowAt x.owner.core .rx
        fillBuffer inlineSize
          (← reach stray overflow (len - inlineSize) (Memory.read overflow (len - inlineSize)))
      let payload ← demand stray ((← get).owner.rxBuffer.slice? 0 len)
      return some ⟨header.transaction, payload⟩
  else
    count fun s => { s with emptyPolls := s.emptyPolls + 1 }
    return none

def receiveEntered : Step M (Option Received) := do
  let r ← guarded (poll stray)
  match r with
  | none => return none
  | some received =>
    countReceived received
    return some received

/-- Stop if the window of the owner's core does not start at a word. -/
def locate (stuck : Exchange M → α) (rest : Exchange M → α) (x : Exchange M) : α :=
  if x.host.config.layout.coreBase x.owner.core ≤ wordMax then rest x else stuck x

/-- Enter by the control byte of the core, and run the rest of the call. -/
def entering (p : SpinPolicy σ) (s : σ) (rest : Step M α) (x : Exchange M) :
    Except Stop α × σ × Exchange M :=
  if InRegion x.host.memory (x.host.workerAt x.owner.core) 1 then x.entering p s rest
  else (.error stray, s, x)

def receiveWith (p : SpinPolicy σ) (s : σ) (x : Exchange M) :
    Except Stop (Option Received) × σ × Exchange M :=
  match x.host.coreError? x.owner.core with
  | some e => (.error (.refused e), s, x)
  | none => locate (fun x => (.error stray, s, x)) (entering stray p s (receiveEntered stray)) x

def receive (p : SpinPolicy Unit) : Step M (Option Received) :=
  ExceptT.mk fun x =>
    let (r, _, x) := receiveWith stray p () x
    (r, x)

def encodeStaged? (f : Format) (d : Descriptor) : Option (Except EncodeError Line) :=
  match sendable d.transaction with
  | .error e => some (.error e)
  | .ok () => do
    let inline ← d.payload.slice? 0 (min d.payload.size inlineSize)
    f.encode? d.transaction d.payload.size inline

def writeStaged (d : Descriptor) (line : Line) : Step M Unit := do
  let x ← get
  let layout := x.host.config.layout
  if inlineSize < d.payload.size then
    let rest ← demand stray (d.payload.slice? inlineSize (d.payload.size - inlineSize))
    let overflow := layout.overflowAt x.owner.core .tx
    reach stray overflow rest.size (Memory.write overflow rest)
  let control := layout.controlAt x.owner.core .tx x.owner.next.tx
  reach stray control lineSize (Memory.write control line.bytes)

def ringDoorbell : Step M Unit := do
  toggle .tx
  let x ← get
  let control := x.host.config.layout.controlAt x.owner.core .tx x.owner.next.tx
  reach stray control 1 (Memory.touch control)

def send (d : Descriptor) : Step M (Except EncodeError Unit) := do
  match ← demand stray (encodeStaged? (← get).host.config.format d) with
  | .ok line =>
    writeStaged stray d line
    ringDoorbell stray
    return .ok ()
  | .error e =>
    ringDoorbell stray
    return .error e

def transmitEntered (d : Descriptor) : Step M Unit := do
  match ← guarded (send stray d) with
  | .ok () => count fun s => { s with transmitted := s.transmitted + 1 }
  | .error e =>
    count fun s => { s with aborted := s.aborted + 1 }
    refuse (.unsupportedTransmit e)

def transmitStaged (p : SpinPolicy σ) (s : σ) (d : Descriptor) (x : Exchange M) :
    Except Stop Unit × σ × Exchange M :=
  match x.host.coreError? x.owner.core with
  | some e => (.error (.refused e), s, x)
  | none => locate (fun x => (.error stray, s, x)) (fun x =>
    let capacity := x.host.config.layout.payloadCapacity
    if capacity < d.payload.size then
      let stats := { x.owner.stats with aborted := x.owner.stats.aborted + 1 }
      (.error (.refused (.payloadTooLarge d.payload.size capacity)), s,
        { x with owner := { x.owner with stats } })
    else entering stray p s (transmitEntered stray d) x) x

def transmitWith (p : SpinPolicy σ) (s : σ) (d : Descriptor) (x : Exchange M) :
    Except Stop Unit × σ × Exchange M :=
  match transmitStaged stray p s d x with
  | (.error (.fault f), s, x) => (.error (.fault f), s, x)
  | (r, s, x) => (r, s, { x with owner := { x.owner with txBuffer := some ByteArray.empty } })

def checkCore : Step M Unit := do
  Exchange.checkCore
  locate (fun _ => throw stray) (fun _ => pure ()) (← get)

def resync (next : Parity) : Step M Unit := do
  checkCore stray
  modify fun x => { x with owner := { x.owner with next } }

def drain (p : SpinPolicy Unit) : (fuel drained : Nat) → Step M Nat
  | 0, _ => throw .endless
  | fuel + 1, drained => do
    match ← receive stray p with
    | none => return drained
    | some _ => drain p fuel (drained + 1)

def invalidateLines : Step M Unit := do
  let x ← get
  let layout := x.host.config.layout
  (layout.exchangeOffsets layout.exchangeLines).forM fun offset =>
    let line := layout.coreBase x.owner.core + offset
    reach stray line lineSize (Memory.invalidate line)

def bringUp (p : SpinPolicy Unit) (fuel : Nat) : Step M Nat := do
  checkCore stray
  invalidateLines stray
  drain stray p fuel 0

def make (x : Exchange M) : Call → Outcome × Exchange M
  | .receive p t =>
    let (r, _, x) := receiveWith stray p t x
    (.ofCall .received r, x)
  | .prepare kind =>
    let (r, x) := Step.run (Exchange.prepare kind) x
    (.ofCall .staged r, x)
  | .transmit p t d =>
    let (r, _, x) := transmitWith stray p t d x
    (.ofCall (fun _ => .done) r, x)
  | .resync next =>
    let (r, x) := Step.run (resync stray next) x
    (.ofCall (fun _ => .done) r, x)
  | .bringUp p fuel =>
    let (r, x) := Step.run (bringUp stray p fuel) x
    (.ofCall .drained r, x)

def serve (h : Host M) : Ask → Outcome × Host M
  | .call o c =>
    let (a, x) := make stray ⟨h, o⟩ c
    (a, x.host)
  | .gate core f =>
    match h.coreError? core with
    | some e => (.refused e, h)
    | none =>
      if InRegion h.memory (h.workerAt core) 1 then
        let (r, h) := Access.run (Host.onGate core fun g => ((), f g)) h
        (.ofAccess (fun _ => .done) r, h)
      else (.ofCall (fun _ : Unit => .done) (.error stray), h)

end Fenced
end LineExchange
