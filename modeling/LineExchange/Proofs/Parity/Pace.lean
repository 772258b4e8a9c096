import LineExchange.Exchange.BringUp
import LineExchange.Exchange.Transmit
import LineExchange.Nic
import Mathlib.Logic.Function.Iterate

/-!
# LineExchange.Proofs.Parity.Pace

What owner and device count separately: the line of each direction that comes next. An exchange
moves both on (`Pace.exchange`); where they differed the device notes it and follows the owner.
Whether a call makes an exchange can be told from its result.
-/

namespace LineExchange

/-- What a device counts and notes of a core. -/
structure Tally where
  next : Parity := {}
  desyncs : Nat := 0
  unguarded : Nat := 0

def NicCore.tally (c : NicCore) : Tally := ⟨c.next, c.desyncs, c.unguarded⟩

namespace Tally

/-- A guarded access to the line of a parity was noted. -/
def note (d : Direction) (parity : Bool) (t : Tally) : Tally :=
  { t with desyncs := t.desyncs + if t.next.get d = parity then 0 else 1 }

/-- The next line is the one of this parity. -/
def expect (d : Direction) (parity : Bool) (t : Tally) : Tally :=
  { t with next := t.next.set d parity }

end Tally

/-- The lines that an owner expects next, and the tally of its core. -/
structure Pace where
  owner : Parity
  device : Tally

namespace Pace

/-- One exchange in a direction. The owner goes on to the other line. The device notes it if the
owner was at another line than it expected, and next expects the line that the owner does. -/
def exchange (d : Direction) (p : Pace) : Pace where
  owner := p.owner.toggle d
  device :=
    { next := p.device.next.set d !p.owner.get d
      desyncs := p.device.desyncs + if p.device.next.get d = p.owner.get d then 0 else 1
      unguarded := p.device.unguarded }

/-- Owner and device expect the same lines, and never did not. -/
structure InStep (p : Pace) : Prop where
  next : p.owner = p.device.next
  desyncs : p.device.desyncs = 0
  unguarded : p.device.unguarded = 0

variable {p : Pace} {d : Direction}

theorem InStep.exchange (h : p.InStep) (d : Direction) : (p.exchange d).InStep := by
  obtain ⟨hnext, hdesyncs, hunguarded⟩ := h
  refine ⟨?_, ?_, hunguarded⟩
  · show p.owner.toggle d = p.device.next.set d !p.owner.get d
    rw [← hnext, Parity.toggle]
  · show p.device.desyncs + (if p.device.next.get d = p.owner.get d then 0 else 1) = 0
    rw [hdesyncs, ← hnext, if_pos rfl]

theorem InStep.iterate (h : p.InStep) (d : Direction) (n : Nat) : ((Pace.exchange d)^[n] p).InStep := by
  induction n generalizing p with
  | zero => exact h
  | succ n ih => exact ih (h.exchange d)

end Pace

namespace Exchange

variable {M : Type} [Memory M]

/-- Whether a receive with this result made an exchange. -/
def polled : Except Stop (Option Received) → Bool
  | .ok _ => true
  | .error (.refused (.overflowExceeded ..)) => true
  | .error _ => false

/-- Whether a transmit with this result made an exchange. -/
def rang : Except Stop Unit → Bool
  | .ok _ => true
  | .error (.refused (.unsupportedTransmit _)) => true
  | .error _ => false

/-- How many receives of a drain make an exchange. -/
def drainPolls (p : SpinPolicy Unit) : (fuel : Nat) → Exchange M → Nat
  | 0, _ => 0
  | fuel + 1, x =>
    let (r, y) := Step.run (receive p) x
    (polled r).toNat +
      match r with
      | .ok (some _) => drainPolls p fuel y
      | _ => 0

/-- How many receives of a bring-up make an exchange. -/
def bringUpPolls (p : SpinPolicy Unit) (fuel : Nat) (x : Exchange M) : Nat :=
  match Step.run (checkCore >>= fun _ => invalidateLines) x with
  | (.ok (), y) => drainPolls p fuel y
  | (.error _, _) => 0

end Exchange
end LineExchange
