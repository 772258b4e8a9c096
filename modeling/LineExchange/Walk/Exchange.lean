import LineExchange.Exchange.Receive
import LineExchange.Exchange.Transmit
import LineExchange.Nic
import LineExchange.Sample

/-!
# LineExchange.Walk.Exchange

Walks of a whole exchange against the device: packets are queued, received and sent in arbitrary
order while the device takes the core away and gives it back. What is received was queued, in
order and unchanged; what is sent reaches the wire; host and device stay in step.
-/

namespace LineExchange

/-- An exchange with a device, and what is expected of it. -/
structure ExchangeWalk where
  exchange : Exchange (Nic Region)
  /-- Payloads queued at the device and not yet received. -/
  expected : List Bytes := []
  /-- Whether the host may use the core. -/
  ready : Bool := true

namespace ExchangeWalk

/-- Attempts to enter before a call on a core that was taken away gives up. -/
def spinAttempts : Nat := 4

def config : Config := { spin := .attempts spinAttempts }

def capacity : Nat := config.layout.payloadCapacity

def start : Except Fault ExchangeWalk :=
  match Nic.fresh config with
  | .error f => .error f
  | .ok (.error _) => .error (.assertion (some "default config is valid"))
  | .ok (.ok nic) =>
    match Host.open? nic config with
    | .error _ => .error (.assertion (some "model region fits"))
    | .ok host =>
      match (Host.claim 0 {} : Access _ _).run host with
      | (.error f, _) => .error f
      | (.ok (.error _), _) => .error (.assertion (some "core 0 exists"))
      | (.ok (.ok owner), host) => .ok { exchange := ⟨host, owner⟩ }

/-- A move. Lengths are cut down to what the move allows. -/
inductive Move where
  /-- The device queues a packet that fits. -/
  | inject (len : Nat) (fill : UInt8)
  | receive
  /-- The host sends a packet; it may be one byte too large. -/
  | transmit (len : Nat) (fill : UInt8)
  /-- The device takes the core away. -/
  | preempt
  | resume

open Access (expect fail)

variable {α : Type}

def onNic (a : Access (Nic Region) α) : Access ExchangeWalk α :=
  (Host.onMemory a).onPart (·.exchange.host)
    fun w host => { w with exchange := { w.exchange with host } }

def owner : Access ExchangeWalk Owner := return (← get).exchange.owner

/-- A call of the host. A call with a bounded number of attempts is never endless. -/
def call (f : Exchange (Nic Region) → Except Stop α × Exchange (Nic Region)) :
    Access ExchangeWalk (Except ExchangeError α) := do
  let (r, exchange) := f (← get).exchange
  modify fun w => { w with exchange }
  match r with
  | .ok a => return .ok a
  | .error (.refused e) => return .error e
  | .error (.fault f) => throw f
  | .error .endless => throw (.assertion none)

def inject (payload : Bytes) : Access ExchangeWalk Unit := do
  match ← onNic (Nic.inject 0 Sample.ethernet payload) with
  | .ok () => modify fun w => { w with expected := w.expected ++ [payload] }
  | .error e => fail s!"in-capacity injection encodes: {e.shown}"

def receive : Access ExchangeWalk Unit := do
  let before := (← owner).next.rx
  let r ← call fun x => Exchange.Step.run (Exchange.receive config.spin.policy) x
  let w ← get
  match r with
  | .ok (some rx) =>
    expect w.ready "received while preempted"
    match w.expected with
    | [] => fail "received with nothing injected"
    | payload :: rest =>
      set { w with expected := rest }
      expect (rx.payload = payload) "payload changed"
      expect (rx.transaction = Sample.ethernet)
  | .ok none =>
    expect w.ready "polled while preempted"
    expect w.expected.isEmpty "pending packet not seen"
  | .error (.handshakeStuck _ attempts) =>
    expect (!w.ready) "stuck while ready"
    expect (attempts = spinAttempts + 1)
    expect (w.exchange.owner.next.rx = before) "parity moved while stuck"
  | .error e => fail s!"unexpected receive error: {e.message}"

/-- Send a packet, which must reach the wire if the core is there and the packet fits. -/
def transmit (len : Nat) (fill : UInt8) : Access ExchangeWalk Unit := do
  let before := (← owner).next.tx
  let d : Descriptor := ⟨Sample.ethernet, .replicate len fill⟩
  let r ← call fun x =>
    match Exchange.Step.run (Exchange.prepare .bypass) x with
    | (.error e, x) => (.error e, x)
    | (.ok _, x) => let (r, _, x) := x.transmitWith config.spin.policy () d; (r, x)
  let w ← get
  let after := w.exchange.owner.next.tx
  match r with
  | .ok () =>
    expect (w.ready && len ≤ capacity)
    let wire ← onNic (Nic.takeSent 0)
    expect (wire.map (·.payload) = [d.payload])
  | .error (.payloadTooLarge rejected _) =>
    expect (rejected = len && capacity < len && after = before)
  | .error (.handshakeStuck _ _) =>
    expect (!w.ready) "stuck while ready"
    expect (after = before)
  | .error e => fail s!"unexpected transmit error: {e.message}"
  expect (← onNic (Nic.takeSent 0)).isEmpty

def setReady (v : Bool) : Access ExchangeWalk Unit := do
  onNic (Nic.setReady 0 v)
  modify fun w => { w with ready := v }

def apply : Move → Access ExchangeWalk Unit
  | .inject len fill => inject (.replicate (len % (capacity + 1)) fill)
  | .receive => receive
  | .transmit len fill => transmit (len % (capacity + 2)) fill
  | .preempt => setReady false
  | .resume => setReady true

def check : Access ExchangeWalk Unit := do
  let device ← onNic (Nic.coreState 0)
  expect (device.desyncs = 0) "host and hardware parity diverged"
  expect (device.unguarded = 0) "control cacheline touched without busy"
  let w ← get
  expect (device.next = w.exchange.owner.next)
  expect (device.queue.length = w.expected.length)
  expect ((w.exchange.host.countersOf 0).inFlight = 0)

def step (m : Move) : Access ExchangeWalk Unit := do
  apply m
  check

end ExchangeWalk
end LineExchange
