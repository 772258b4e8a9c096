import LineExchange.Exchange

/-!
# LineExchange.Exchange.Receive

Polling for one transaction. The owner enters, reads the control line that comes next, and moves
on to the other one whatever it found. A valid line is received if its payload fits the receive
buffer: the first bytes are in the line, the rest in the overflow array.
-/

namespace LineExchange

/-- A received transaction. -/
structure Received where
  transaction : Transaction
  payload : Bytes
deriving DecidableEq

namespace Received

open Text in
def shown (r : Received) : String :=
  record "Received" [("transaction", r.transaction.shown),
    ("payload", listing (r.payload.toList.map fun v => toString v.toNat))]

end Received

namespace Exchange

variable {M σ : Type} [Memory M]

/-- The line at an offset of the region. -/
def readLine (offset : Nat) : Step M Line := do
  return .ofBytes (← onMemory (Memory.read offset lineSize))

def fillBuffer (start : Nat) (data : Bytes) : Step M Unit :=
  modify fun x => { x with owner := { x.owner with rxBuffer := x.owner.rxBuffer.patch start data } }

/-- The largest payload that is received: the buffer and the layout both limit it. -/
def rxLimit (x : Exchange M) : Nat :=
  min x.owner.rxCapacity x.host.config.layout.payloadCapacity

/-- The critical section of a receive. -/
def poll : Step M (Option Received) := do
  let x ← get
  let layout := x.host.config.layout
  let line ← readLine (layout.controlAt x.owner.core .rx x.owner.next.rx)
  let header := x.host.config.format.decode line
  toggle .rx
  if header.valid then
    let len := header.length
    if x.rxLimit < len then
      refuse (.overflowExceeded len x.rxLimit)
    else
      fillBuffer 0 (line.inline.slice 0 len)
      if inlineSize < len then
        fillBuffer inlineSize
          (← onMemory (Memory.read (layout.overflowAt x.owner.core .rx) (len - inlineSize)))
      return some ⟨header.transaction, (← get).owner.rxBuffer.slice 0 len⟩
  else
    count fun s => { s with emptyPolls := s.emptyPolls + 1 }
    return none

def countReceived (r : Received) : Step M Unit :=
  count fun s =>
    { s with
      received := s.received + 1
      errorTagged := s.errorTagged + if r.transaction.kind = .error then 1 else 0 }

def receiveEntered : Step M (Option Received) := do
  let r ← guarded poll
  match r with
  | none => return none
  | some received =>
    countReceived received
    return some received

/-- Poll for one transaction; `none` if nothing was there. -/
def receiveWith (p : SpinPolicy σ) (s : σ) (x : Exchange M) :
    Except Stop (Option Received) × σ × Exchange M :=
  match x.host.coreError? x.owner.core with
  | some e => (.error (.refused e), s, x)
  | none => x.entering p s receiveEntered

/-- Poll for one transaction with a policy that keeps no state. -/
def receive (p : SpinPolicy Unit) : Step M (Option Received) :=
  ExceptT.mk fun x =>
    let (r, _, x) := x.receiveWith p ()
    (r, x)

end Exchange
end LineExchange
