import LineExchange.Config
import LineExchange.Gate

/-!
# LineExchange.Gate.Spin

Trying to enter until it works or a policy gives up. After each failed attempt the policy is
asked whether to go on. It may keep a state, and while it is asked the control byte may change.

A policy may never give up on a gate that stays closed. So every policy says how many failed
attempts are followed; a call that is still trying after them is reported as endless.
-/

namespace LineExchange

/-- What decides whether to try again. -/
structure SpinPolicy (σ : Type) where
  /-- Asked with the number of failed attempts: the answer, the policy's next state, and the
  control byte as it is when the answer is given. -/
  keepSpinning : Nat → σ → UInt8 → Bool × σ × UInt8
  /-- Failed attempts after which a call that goes on counts as endless. -/
  followed : Nat

/-- How a call that tries to enter ends. -/
inductive SpinResult where
  | entered
  /-- The policy gave up after this many failed attempts. -/
  | stuck (attempts : Nat)
  | endless
deriving DecidableEq

namespace Gate

/-- Try to enter after `failed` failed attempts, and at most `fuel` more. -/
def spinFrom {σ : Type} (p : SpinPolicy σ) : (fuel failed : Nat) → Gate → σ → SpinResult × σ × Gate
  | fuel, failed, g, s =>
    match g.tryEnter with
    | some inside => (.entered, s, inside.addSpins failed)
    | none =>
      match fuel with
      | 0 => (.endless, s, g)
      | fuel + 1 =>
        let (again, s, byte) := p.keepSpinning (failed + 1) s g.byte
        let g := { g with byte }
        if again then spinFrom p fuel (failed + 1) g s
        else (.stuck (failed + 1), s, g.addSpins (failed + 1))

/-- Try to enter until it works or the policy gives up. -/
def enter {σ : Type} (p : SpinPolicy σ) (s : σ) (g : Gate) : SpinResult × σ × Gate :=
  spinFrom p p.followed 0 g s

end Gate

namespace SpinLimit

/-- Failed attempts that are followed where the limit sets no end. -/
def patience : Nat := 10001

/-- Whether a limit allows another attempt. The clock is not part of the model: a positive time
has never passed. -/
def allows : SpinLimit → Nat → Bool
  | unbounded, _ => true
  | attempts max, failed => failed ≤ max
  | timeout milliseconds, _ => milliseconds ≠ 0

/-- The policy that keeps a limit. Its first refusal, where there is one, is followed. -/
def policy (l : SpinLimit) : SpinPolicy Unit where
  keepSpinning failed _ byte := (l.allows failed, (), byte)
  followed := match l with
    | unbounded => patience
    | attempts max => max + 1
    | timeout milliseconds => if milliseconds = 0 then 1 else patience

end SpinLimit

namespace SpinPolicy

/-- The policy, followed for at most `n` failed attempts. -/
def atMost {σ : Type} (p : SpinPolicy σ) (n : Nat) : SpinPolicy σ :=
  { p with followed := min p.followed n }

/-- The policy that gives up at the `stop`-th failed attempt. At the `readyAt`-th the device
becomes ready. The state lists the attempts it was asked about, the last one first. -/
def counting (stop : Nat) (readyAt : Option Nat) : SpinPolicy (List Nat) where
  keepSpinning failed seen byte :=
    (failed < stop, failed :: seen,
      if readyAt = some failed then ControlByte.setReady byte true else byte)
  followed := max stop 1

end SpinPolicy

/-- How long a caller waits for the device. -/
inductive Patience where
  | limit (l : SpinLimit)
  /-- As `SpinPolicy.counting`. -/
  | counting (stop : Nat) (readyAt : Option Nat)

namespace Patience

/-- Make a call with a caller's policy, a limit being followed as far as `SpinLimit.patience`;
also the attempts after which the policy was asked, if it lists them. -/
def apply {α β : Type} (p : Patience) (call : {σ : Type} → SpinPolicy σ → σ → α × σ × β) :
    α × Option (List Nat) × β :=
  match p with
  | limit l =>
    let (a, _, b) := call (l.policy.atMost SpinLimit.patience) ()
    (a, none, b)
  | counting stop readyAt =>
    let (a, seen, b) := call (.counting stop readyAt) []
    (a, some seen.reverse, b)

end Patience
end LineExchange
