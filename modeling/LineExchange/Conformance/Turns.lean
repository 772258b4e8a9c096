import LineExchange.Conformance.Scenario
import LineExchange.Sample

/-!
# LineExchange.Conformance.Turns

Scenarios on turns: host and device take the two lines of a direction in turn and stay in step,
and the host leaves the gate each time it has entered, however the call ends.
-/

namespace LineExchange
namespace Scenario

open Trial

variable {M : Type} [Memory M]

def next (d : Direction) : Trial M Bool := return (← owner 0).next.get d

def deviceNext (d : Direction) : Trial M Bool := return (← onNic (Nic.coreState 0)).next.get d

/-- Receive the `i`-th of some equal-sized packets; the line it was in. -/
def receiveNumbered (i : Nat) : Trial M Bool := do
  let parity ← next .rx
  let rx ← receiveSome 0 s!"packet {i} missing"
  ensure (rx.payload = .replicate 10 (.ofNat i)) s!"packet {i} out of order"
  return parity

/-- A poll that finds nothing moves on to the other line too. -/
def pollNothing : Trial M Unit := do
  let before ← next .rx
  receiveNone 0 "queue should be drained"
  ensure ((← next .rx) ≠ before) "empty poll did not toggle parity"

/-- The `i`-th transmit moves host and device on to the other line. -/
def transmitNumbered (i : Nat) : Trial M Unit := do
  let before ← next .tx
  transmit 0 Sample.ethernet (.replicate 3 (.ofNat i))
  ensure ((← next .tx) ≠ before) s!"transmit {i} did not toggle parity"
  ensure ((← deviceNext .tx) = (← next .tx))
    s!"hardware tx counter out of step after transmit {i}"

def alternation : Scenario where
  name := "parity_alternation"
  body := do
    claim 0
    (List.range 6).forM fun i => inject 0 Sample.ethernet (.replicate 10 (.ofNat i))
    let parities ← (List.range 6).mapM receiveNumbered
    ensure ((parities.zip parities.tail).all fun (a, b) => a ≠ b)
      s!"rx parity did not alternate: {Text.listing (parities.map toString)}"
    pollNothing
    pollNothing
    ensure ((← deviceNext .rx) = (← next .rx)) "hardware rx counter out of step"
    (List.range 4).forM transmitNumbered
    ensure ((← onNic (Nic.takeSent 0)).length = 4) "expected 4 packets on the wire"
    let desyncs := (← onNic (Nic.coreState 0)).desyncs
    ensure (desyncs = 0) s!"model saw {desyncs} desyncs"

/-- After `branch` the gate of core 0 was entered and left `expected` times and is open. -/
def ensureBalanced (expected : Nat) (branch : String) : Trial M Unit := do
  let g ← gate 0
  ensure (g.counters.entries = expected && g.counters.exits = expected)
    s!"{branch}: expected {expected} entries and exits, got {g.counters.shown}"
  ensure (g.byte = ControlByte.readyBit)
    s!"{branch}: busy left set ({ControlByte.shown g.byte})"

/-- Every way through a call that enters the gate leaves it once. -/
def alwaysExit : Scenario where
  name := "always_exit"
  config := { rxBufferSize := 128 }
  body := do
    claim 0
    let config := (← get).host.config
    receiveNone 0 "nothing injected yet"
    ensureBalanced 1 "empty receive"
    inject 0 Sample.ethernet (.replicate 10 1)
    ensure (← receive 0).isSome "valid packet missing"
    ensureBalanced 2 "valid receive"
    let line := (Line.zero.put config.format.valid 1).put config.format.ty config.format.ty.maxValue
    onNic (Nic.injectRaw 0 ⟨line, ByteArray.empty⟩)
    ensure (← receive 0).isSome "error packet missing"
    ensureBalanced 3 "error-tagged receive"
    inject 0 Sample.ethernet (.replicate 200 2)
    ensureRefused (.overflowExceeded 200 128) "OverflowExceeded" (Text.option Received.shown)
      (← tryReceive 0)
    ensureBalanced 4 "oversized receive"
    let unsendable ← tryTransmitEdited 0 .error {}
    ensure (unsendable matches .error (.unsupportedTransmit _)) "error-kind transmit accepted"
    ensureBalanced 5 "unsupported transmit"
    let tooLarge ← tryTransmit 0 Sample.ethernet (.zeros (config.layout.payloadCapacity + 1))
    ensure (tooLarge matches .error _) "oversized transmit accepted"
    ensureBalanced 5 "oversized transmit"
    onNic (Nic.setReady 0 false)
    let stuck ← step 0 (Exchange.receive (SpinLimit.attempts 0).policy)
    ensure (stuck matches .error _) "receive succeeded without ready"
    onNic (Nic.setReady 0 true)
    ensureBalanced 5 "stuck handshake"
    let unguarded := (← onNic (Nic.coreState 0)).unguarded
    ensure (unguarded = 0) s!"model saw {unguarded} accesses outside a critical section"

/-- A host that waits in vain reports it, and goes on once the device is ready. -/
def stuck : Scenario where
  name := "stuck_handshake"
  body := do
    claim 0
    onNic (Nic.setReady 0 false)
    let (r, seen) ← exchange 0 fun x => x.receiveWith (.counting 3 none) []
    let expected := ExchangeError.handshakeStuck 0 3
    ensureRefused expected "HandshakeStuck after 3 attempts" (Text.option Received.shown) r
    let polls := seen.headD 0
    ensure (polls = 3) s!"policy consulted {polls} times"
    ensure expected.isRetryable "stuck handshake should be retryable"
    ensure (!(← next .rx)) "parity moved without the handshake"
    onNic (Nic.setReady 0 true)
    receiveNone 0 "nothing was injected"
    ensure (← next .rx) "receive after recovery did not toggle parity"

/-- What an earlier run left behind is drained, and then host and device are in step. -/
def bringUp : Scenario where
  name := "bring_up_drains_stale"
  body := do
    claim 0
    receiveNone 0 "previous run saw a packet"
    transmit 0 Sample.ethernet (.zeros 4)
    release 0
    (List.range 3).forM fun i => inject 0 Sample.ethernet (.replicate 70 (.ofNat i))
    claim 0
    let hardware := (← onNic (Nic.coreState 0)).next
    ensure (hardware.rx && hardware.tx) "model counters should have advanced"
    accepted (← step 0 (Exchange.resync hardware))
    clearTrace
    let drained ← accepted (← step 0 (Exchange.bringUp (← policy) SpinLimit.patience))
    ensure (drained = 3) s!"expected 3 stale packets, drained {drained}"
    let invalidated := (← trace).invalidated.length
    let lines := (← get).host.config.layout.exchangeLines
    ensure (invalidated = lines) s!"expected {lines} invalidations, got {invalidated}"
    ensure (← onNic (Nic.coreState 0)).queue.isEmpty "stale packets left queued"
    inject 0 Sample.ethernet (.replicate 5 9)
    let rx ← receiveSome 0 "fresh packet after bring-up missing"
    ensure (rx.payload = .replicate 5 9) "fresh payload mismatch"
    transmit 0 Sample.ethernet (.replicate 4 1)
    ensureInStep 0 "resync left host and model out of step"

end Scenario
end LineExchange
