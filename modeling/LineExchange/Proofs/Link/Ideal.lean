import LineExchange.Exchange.Receive
import LineExchange.Nic
import LineExchange.Proofs.Header.WireForm

/-!
# LineExchange.Proofs.Link.Ideal

Two machines for the same commands. A `Link` is a host on a device in front of a plain region,
with one owner for each core. The ideal machine has no lines, no parities and no memory: it holds
for each core (`Port`) a queue of packets for the host and a list of packets from the host.
-/

namespace LineExchange

/-- A command to the device or to the host of a link. -/
inductive Command where
  | setReady (core : Nat) (v : Bool)
  | setLoopback (core : Nat) (v : Bool)
  | inject (core : Nat) (t : Transaction) (payload : Bytes)
  /-- Receive; give up after this many failed attempts more than one. -/
  | receive (core attempts : Nat)
  /-- Transmit, with as much patience. -/
  | transmit (core attempts : Nat) (d : Descriptor)
  | takeSent (core : Nat)
  | pending (core : Nat)

def Command.core : Command → Nat
  | setReady core _ => core
  | setLoopback core _ => core
  | inject core _ _ => core
  | receive core _ => core
  | transmit core _ _ => core
  | takeSent core => core
  | pending core => core

/-- What comes of a command. -/
inductive Answer where
  | done
  | injected (r : Except EncodeError Unit)
  | received (r : Except ExchangeError (Option Received))
  | transmitted (r : Except ExchangeError Unit)
  | sent (packets : List Packet)
  | count (n : Nat)
  /-- The command broke off. -/
  | fault (f : Fault)
  /-- The command does not end. -/
  | endless

/-! ## The link -/

/-- A host on a device in front of a plain region, and the owner of each core. -/
structure Link where
  host : Host (Nic Region)
  owners : Nat → Owner

namespace Link

/-- The link with another owner for a core. -/
def setOwner (w : Link) (core : Nat) (o : Owner) : Link :=
  { w with owners := fun k => if k = core then o else w.owners k }

/-- A call of the device. -/
def onNic {α : Type} (w : Link) (a : Access (Nic Region) α) (answer : α → Answer) : Answer × Link :=
  match Access.run (Host.onMemory a) w.host with
  | (.ok v, host) => (answer v, { w with host })
  | (.error f, host) => (.fault f, { w with host })

/-- How a call of the host ended. -/
def answerOf {α : Type} (answer : Except ExchangeError α → Answer) : Except Stop α → Answer
  | .ok v => answer (.ok v)
  | .error (.refused e) => answer (.error e)
  | .error (.fault f) => .fault f
  | .error .endless => .endless

def step (w : Link) : Command → Answer × Link
  | .setReady core v => w.onNic (Nic.setReady core v) fun _ => .done
  | .setLoopback core v => w.onNic (Nic.setLoopback core v) fun _ => .done
  | .inject core t payload => w.onNic (Nic.inject core t payload) .injected
  | .takeSent core => w.onNic (Nic.takeSent core) .sent
  | .pending core => w.onNic (Nic.coreState core) fun c => .count c.queue.length
  | .receive core attempts =>
    let (r, _, x) := Exchange.receiveWith (SpinLimit.attempts attempts).policy ()
      ⟨w.host, w.owners core⟩
    (answerOf .received r, { w with host := x.host }.setOwner core x.owner)
  | .transmit core attempts d =>
    let (r, _, x) := Exchange.transmitWith (SpinLimit.attempts attempts).policy () d
      ⟨w.host, w.owners core⟩
    (answerOf .transmitted r, { w with host := x.host }.setOwner core x.owner)

/-- The answers to commands given one after the other. -/
def answers (w : Link) : List Command → List Answer
  | [] => []
  | c :: cs => (w.step c).1 :: answers (w.step c).2 cs

end Link

/-! ## The ideal machine -/

/-- One core of the ideal machine. -/
structure Port where
  ready : Bool := true
  loopback : Bool := false
  /-- Packets for the host, oldest first. -/
  queue : List Packet := []
  /-- Packets from the host, oldest first. -/
  sent : List Packet := []

/-- The cores of the ideal machine. -/
abbrev Ports := Nat → Port

namespace Ports

def set (a : Ports) (core : Nat) (p : Port) : Ports := fun k => if k = core then p else a k

def step (c : Config) (a : Ports) : Command → Answer × Ports
  | .setReady core v => (.done, a.set core { a core with ready := v })
  | .setLoopback core v => (.done, a.set core { a core with loopback := v })
  | .inject core t payload =>
    if c.layout.payloadCapacity < payload.size then
      (.injected (.error (.tooLarge "injected payload" payload.size c.layout.payloadCapacity)), a)
    else
      match c.format.encode t payload.size (payload.slice 0 inlineSize) with
      | .error e => (.injected (.error e), a)
      | .ok _ =>
        (.injected (.ok ()),
          a.set core { a core with queue := (a core).queue ++ [⟨c.format.wireForm t, payload⟩] })
  | .receive core attempts =>
    if (a core).ready then
      match (a core).queue with
      | [] => (.received (.ok none), a)
      | p :: queue =>
        let limit := min c.rxBufferSize c.layout.payloadCapacity
        (.received (if limit < p.payload.size then .error (.overflowExceeded p.payload.size limit)
            else .ok (some ⟨p.transaction, p.payload⟩)),
          a.set core { a core with queue })
    else (.received (.error (.handshakeStuck core (attempts + 1))), a)
  | .transmit core attempts d =>
    if c.layout.payloadCapacity < d.payload.size then
      (.transmitted (.error (.payloadTooLarge d.payload.size c.layout.payloadCapacity)), a)
    else if (a core).ready then
      match Exchange.encodeStaged c.format d with
      | .error e => (.transmitted (.error (.unsupportedTransmit e)), a)
      | .ok _ =>
        let p : Packet := ⟨c.format.wireForm d.transaction, d.payload⟩
        (.transmitted (.ok ()),
          a.set core
            { a core with
              queue := if (a core).loopback then (a core).queue ++ [p] else (a core).queue
              sent := (a core).sent ++ [p] })
    else (.transmitted (.error (.handshakeStuck core (attempts + 1))), a)
  | .takeSent core => (.sent (a core).sent, a.set core { a core with sent := [] })
  | .pending core => (.count (a core).queue.length, a)

/-- The answers to commands given one after the other. -/
def answers (c : Config) (a : Ports) : List Command → List Answer
  | [] => []
  | cmd :: cmds => (a.step c cmd).1 :: answers c (a.step c cmd).2 cmds

end Ports
end LineExchange
