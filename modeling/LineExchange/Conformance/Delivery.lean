import LineExchange.Conformance.Scenario
import LineExchange.Sample

/-!
# LineExchange.Conformance.Delivery

Scenarios on what is delivered: headers and payloads arrive unchanged, a payload uses the overflow
array exactly as far as the control line is too small for it, and what a host does not know or
cannot carry is told apart from nothing.
-/

namespace LineExchange
namespace Scenario

open Trial

variable {M : Type} [Memory M]

def loopback : Scenario where
  name := "loopback_bypass_ethernet"
  body := do
    onNic (Nic.setLoopback 0 true)
    claim 0
    let payload := Bytes.ofFn 100 fun i => UInt8.ofNat (i * 7)
    transmit 0 Sample.ethernet payload
    let written := (← trace).bytesWritten (← overflowRange 0 .tx)
    ensure (written = 36) s!"expected 36 overflow bytes written, got {written}"
    let rx ← receiveSome 0 "loopback produced nothing"
    ensure (rx.transaction.kind = .bypass) s!"expected bypass, got {rx.transaction.kind.name}"
    if let .bypass kind _ := rx.transaction then
      ensure (kind = .ethernet) s!"expected ethernet header, got {kind.shown}"
    ensure (rx.transaction = Sample.ethernet) "header bytes changed in flight"
    ensure (rx.payload.size = 100) s!"expected 100 payload bytes, got {rx.payload.size}"
    ensure (rx.payload = payload) "payload changed in flight"
    let wire ← onNic (Nic.takeSent 0)
    ensure (wire.length = 1) s!"expected one packet on the wire, got {wire.length}"
    ensure (wire.map (·.payload) = [payload]) "wire payload differs"
    ensureInStep 0 "host and model parity diverged"

/-- One payload on the way out and back, with the use of the overflow arrays. -/
def roundTrip (len : Nat) : Trial M Unit := do
  clearTrace
  let tx ← overflowRange 0 .tx
  let payload := Bytes.ofFn len fun i => UInt8.ofNat i ^^^ 0xa5
  transmit 0 Sample.ip payload
  let spill := len - inlineSize
  let writes := (← trace).writesWithin tx
  let shown := Text.listing (writes.map (·.shown))
  if spill = 0 then
    ensure writes.isEmpty s!"len {len}: unexpected overflow writes {shown}"
  else
    ensure (writes = [.write tx.start spill])
      s!"len {len}: expected one write into the first overflow cacheline, got {shown}"
  let rx ← receiveSome 0 s!"len {len}: nothing looped back"
  ensure (rx.payload = payload) s!"len {len}: payload mismatch"
  ensure (rx.transaction = Sample.ip) s!"len {len}: header mismatch"
  let read := (← trace).bytesRead (← overflowRange 0 .rx)
  ensure (read = spill) s!"len {len}: expected {spill} overflow bytes read, got {read}"

/-- Only a payload larger than the control line's half touches the overflow array. -/
def inlineBoundary : Scenario where
  name := "inline_boundary_round_trip"
  body := do
    onNic (Nic.setLoopback 0 true)
    claim 0
    [inlineSize - 1, inlineSize, inlineSize + 1].forM roundTrip

/-- A payload over capacity is refused before anything is touched; one at capacity arrives. -/
def capacity : Scenario where
  name := "capacity_rejection"
  body := do
    onNic (Nic.setLoopback 0 true)
    claim 0
    let capacity := (← get).host.config.layout.payloadCapacity
    clearTrace
    let r ← tryTransmit 0 Sample.ethernet (.replicate (capacity + 1) 0x11)
    ensureRefused (.payloadTooLarge (capacity + 1) capacity) "PayloadTooLarge" (fun _ => "()") r
    let log := (← trace).log.toList
    ensure log.isEmpty
      s!"rejected transmit touched memory: {Text.listing (log.map (·.shown))}"
    ensure ((← gate 0).counters.entries = 0) "rejected transmit entered the handshake"
    ensure (!(← owner 0).next.tx) "rejected transmit toggled parity"
    let full := Bytes.ofFn capacity fun i => UInt8.ofNat (i % 251)
    transmit 0 Sample.ethernet full
    let rx ← receiveSome 0 "full-capacity packet not looped back"
    ensure (rx.payload = full) "full-capacity payload mismatch"

/-- A valid control line of code `tag` with an inline payload, as a device may write it. -/
def taggedLine (f : Format) (tag : Nat) (payload : Bytes) : Line :=
  (((Line.zero.put f.valid 1).put f.len payload.size).put f.ty tag).patch inlineOffset payload

/-- A transaction of an unknown code arrives, and is not taken for nothing. -/
def unknownTag : Scenario where
  name := "unknown_tag"
  body := do
    claim 0
    let format := (← get).host.config.format
    let tag := format.ty.maxValue
    let payload := Bytes.replicate 10 0xcd
    onNic (Nic.injectRaw 0 ⟨taggedLine format tag payload, ByteArray.empty⟩)
    let rx ← receiveSome 0 "error-tagged transaction dropped"
    let expected := Transaction.error (.ofNat tag)
    ensure (rx.transaction = expected)
      s!"expected {expected.shown}, got {rx.transaction.shown}"
    ensure (rx.payload = payload) "error payload mismatch"
    ensure ((← owner 0).stats.errorTagged = 1) "error tag not counted"
    receiveNone 0 "empty poll after an error transaction must be None"

/-- The call that is received, which must be for the expected handler. -/
def expectCall (funcPtr : UInt64) : Transaction → Trial M Rpc
  | .call rpc => do
    ensure (rpc.funcPtr = funcPtr) s!"func_ptr {Text.hex rpc.funcPtr.toNat}"
    return rpc
  | other => fail s!"expected call, got {other.shown}"

/-- The reply on the wire must be to the call `xid` and carry the result. -/
def expectReply (xid result : UInt32) : Transaction → Trial M Unit
  | .reply rpc => do
    ensure (rpc.xid = xid) s!"reply xid {Text.hex rpc.xid.toNat}"
    let word := rpc.words.word? 0
    ensure (word = some result)
      s!"reply result {Text.option (fun w => toString w.toNat) word}"
  | other => fail s!"expected reply, got {other.shown}"

def callAndReply : Scenario where
  name := "rpc_call_reply"
  body := do
    claim 0
    let funcPtr : UInt64 := 0xffff000012345678
    let xid : UInt32 := 0xabcd
    let zero := InlineBytes.zeroed (← get).host.config.format.argsSize
    let words := ((zero.setWord 0 40).2.setWord 1 2).2
    let args := Bytes.ofFn 200 UInt8.ofNat
    inject 0 (.call ⟨funcPtr, xid, words⟩) args
    let rx ← receiveSome 0 "call not received"
    let call ← expectCall funcPtr rx.transaction
    ensure (rx.payload = args) "call arguments mismatch"
    let sum := (call.words.words.take 2).foldl (· + ·) 0
    accepted (← tryTransmitEdited 0 .reply
      { xid := some call.xid, word := some (0, sum), append := "ok".toUTF8 })
    let wire ← onNic (Nic.takeSent 0)
    match wire with
    | [packet] =>
      expectReply xid 42 packet.transaction
      ensure (packet.payload = "ok".toUTF8) "reply payload mismatch"
    | _ => fail s!"expected one reply, got {wire.length}"

end Scenario
end LineExchange
