import LineExchange.Config

/-!
# LineExchange.Owner

What the host keeps for one core between exchanges: which control line of each pair comes next,
the buffers, and statistics. Whoever holds it drives the core.
-/

namespace LineExchange

/-- The control line that comes next in each direction. -/
structure Parity where
  rx : Bool := false
  tx : Bool := false
deriving DecidableEq, Inhabited

namespace Parity

def get (p : Parity) : Direction → Bool
  | .rx => p.rx
  | .tx => p.tx

def set (p : Parity) (d : Direction) (v : Bool) : Parity :=
  match d with
  | .rx => { p with rx := v }
  | .tx => { p with tx := v }

def toggle (p : Parity) (d : Direction) : Parity := p.set d !p.get d

@[simp] theorem get_set (p : Parity) (d e : Direction) (v : Bool) :
    (p.set d v).get e = if d = e then v else p.get e := by
  cases d <;> cases e <;> rfl

end Parity

/-- What happened on one core. As with `Counters`, wrap-around at 2^64 is not followed. -/
structure Stats where
  /-- Transactions received, with those of unknown code. -/
  received : Nat := 0
  /-- Receives that found nothing. -/
  emptyPolls : Nat := 0
  /-- Transactions received with an unknown code. -/
  errorTagged : Nat := 0
  transmitted : Nat := 0
  /-- Transmits given up. -/
  aborted : Nat := 0
deriving DecidableEq, Inhabited

namespace Stats

def message (s : Stats) : String :=
  s!"rx={s.received} (empty={s.emptyPolls}, error={s.errorTagged}) " ++
    s!"tx={s.transmitted} (aborted={s.aborted})"

end Stats

/-- The host's state for one core. -/
structure Owner where
  core : Nat
  next : Parity := {}
  /-- Payloads are received into it; its size is the receive capacity. -/
  rxBuffer : Bytes
  /-- Payloads are staged in it. A descriptor takes it away, a transmit brings it back empty. -/
  txBuffer : Option Bytes := some ByteArray.empty
  stats : Stats := {}
deriving DecidableEq

namespace Owner

/-- The state for a core whose device expects the lines `next`. -/
def synced (core : Nat) (c : Config) (next : Parity) : Owner where
  core := core
  next := next
  rxBuffer := .zeros c.rxBufferSize

/-- The largest payload that can be received. -/
def rxCapacity (o : Owner) : Nat := o.rxBuffer.size

end Owner
end LineExchange
