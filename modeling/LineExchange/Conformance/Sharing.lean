import LineExchange.Conformance.Scenario
import LineExchange.Sample

/-!
# LineExchange.Conformance.Sharing

Scenarios on what is shared: cores have nothing in common, threads may share the owner of one core
if only one at a time uses it, and the device may take a core away between two calls.
-/

namespace LineExchange
namespace Scenario

open Trial

variable {M : Type} [Memory M]

/-- A payload of two bytes of which the first is `id`; the second. A shorter one is a fault. -/
def numberFrom (id : UInt8) (payload : Bytes) : Except Fault (Option UInt8) :=
  match payload.toList with
  | [] => .error .outOfRange
  | first :: rest =>
    if first = id then
      match rest with
      | [] => .error .outOfRange
      | number :: _ => .ok (some number)
    else .ok none

/-- Each core has lines, parities, a gate and an owner of its own. -/
def isolation : Scenario where
  name := "multi_core_isolation"
  config := { numCores := 2 }
  body := do
    claim 0
    claim 1
    inject 1 Sample.ethernet (.replicate 90 1)
    receiveNone 0 "core 0 saw core 1's packet"
    let rx ← receiveSome 1 "core 1 packet missing"
    ensure (rx.payload = .replicate 90 1) "core 1 payload mismatch"
    transmit 0 Sample.ethernet (.replicate 100 3)
    ensure (← onNic (Nic.takeSent 1)).isEmpty "core 0 transmit landed on core 1"
    ensure ((← onNic (Nic.takeSent 0)).length = 1) "core 0 transmit missing"
    ensure (!(← owner 1).next.tx) "core 1 tx parity moved"
    let c₀ := (← gate 0).counters
    let c₁ := (← gate 1).counters
    ensure (c₀.entries = 2 && c₁.entries = 1)
      s!"per-core entries {c₀.shown} / {c₁.shown}"
    ensure ((← tryClaim 2 {}) matches .error (.invalidCore _ _)) "core 2 is not mapped"
    ensure ((← tryClaim 0 {}) matches .error (.coreInUse 0)) "core 0 claimed twice"
    release 1
    claim 1 (← onNic (Nic.coreState 1)).next
    ensure (← owner 1).next.rx "re-claimed core 1 lost hardware parity"

def threads : Nat := 4

def perThread : Nat := 25

/-- One thread: numbered transmits, until one is refused. A thread that breaks off does not break
off the others. -/
def transmitThread (id : Nat) : Trial M Unit :=
  tryCatch
    ((List.range perThread).forM fun number =>
      transmit 0 Sample.ethernet (.ofFn 2 fun i => .ofNat (if i = 0 then id else number)))
    fun
      | .fault _ => fail "transmit thread panicked"
      | stop => throw stop

/-- What threads with one owner send is neither lost nor doubled nor put out of order. The owner
is locked, so any schedule of the threads is a sequence of whole transmits; one after the other is
such a schedule. -/
def sharedOwner : Scenario where
  name := "shared_core_state"
  body := do
    claim 0
    (List.range threads).forM transmitThread
    let wire ← onNic (Nic.takeSent 0)
    let total := threads * perThread
    ensure (wire.length = total) s!"expected {total} packets, got {wire.length}"
    (List.range threads).forM fun id => do
      match wire.mapM fun p => numberFrom (.ofNat id) p.payload with
      | .error f => throw (.fault f)
      | .ok numbers =>
        let numbers := (numbers.filterMap fun n => n.map UInt8.toNat)
        ensure (numbers = List.range perThread)
          s!"thread {id} packets reordered: {Text.listing (numbers.map toString)}"
    ensureInStep 0 "parity diverged under sharing"
    ensureGuarded 0 "unguarded access under sharing"
    let sent := (← owner 0).stats.transmitted
    ensure (sent = total) s!"stats counted {sent} transmits"

def packets : Nat := 64

/-- Receive until all packets have come; the first byte of each. Before each poll the device takes
the core away and gives it back. -/
def receiveAll : (fuel : Nat) → List UInt8 → Trial M (List UInt8)
  | 0, _ => throw .endless
  | fuel + 1, got => do
    if packets ≤ got.length then return got
    onNic (Nic.setReady 0 false)
    onNic (Nic.setReady 0 true)
    match ← receive 0 with
    | none => receiveAll fuel got
    | some rx =>
      match rx.payload.toList with
      | [] => throw (.fault .outOfRange)
      | first :: _ => receiveAll fuel (got ++ [first])

/-- Nothing is lost when the device takes a core away between two calls. -/
def preemption : Scenario where
  name := "preemption_during_exchange"
  body := do
    (List.range packets).forM fun i => inject 0 Sample.ethernet (.replicate 3 (.ofNat i))
    claim 0
    let got ← receiveAll SpinLimit.patience []
    ensure (got = (List.range packets).map UInt8.ofNat)
      s!"packets lost or reordered: {Text.listing (got.map fun v => toString v.toNat)}"
    let counters := (← gate 0).counters
    ensure (counters.entries = counters.exits) s!"unbalanced handshake {counters.shown}"
    ensureInStep 0 "parity diverged under preemption"
    ensureGuarded 0 "unguarded access under preemption"

end Scenario
end LineExchange
