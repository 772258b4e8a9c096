import LineExchange.Exchange.Receive

/-!
# LineExchange.Exchange.BringUp

Getting in step with the device after a restart: the owner takes over the parities of the device
(`resync`), then drops the cached copies of its lines and receives whatever an earlier run has
left behind (`bringUp`).

Draining goes on while something is received, which need not end. `fuel` bounds the receives
that are followed.
-/

namespace LineExchange
namespace Exchange

variable {M : Type} [Memory M]

/-- Stop if the owner's core is not mapped. -/
def checkCore : Step M Unit := do
  let x ← get
  match x.host.coreError? x.owner.core with
  | some e => refuse e
  | none => pure ()

/-- Expect the lines that the device expects. -/
def resync (next : Parity) : Step M Unit := do
  checkCore
  modify fun x => { x with owner := { x.owner with next } }

/-- Receive until nothing is there, after `drained` were received; their number. -/
def drain (p : SpinPolicy Unit) : (fuel drained : Nat) → Step M Nat
  | 0, _ => throw .endless
  | fuel + 1, drained => do
    match ← receive p with
    | none => return drained
    | some _ => drain p fuel (drained + 1)

/-- Drop the cached copies of all lines that exchanges on the core use. -/
def invalidateLines : Step M Unit := do
  let x ← get
  let layout := x.host.config.layout
  (layout.exchangeOffsets layout.exchangeLines).forM fun offset =>
    onMemory (Memory.invalidate (layout.coreBase x.owner.core + offset))

/-- Invalidate the core's lines and drop what is left from an earlier run; how much it was. -/
def bringUp (p : SpinPolicy Unit) (fuel : Nat) : Step M Nat := do
  checkCore
  invalidateLines
  drain p fuel 0

end Exchange
end LineExchange
