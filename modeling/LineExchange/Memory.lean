import LineExchange.Bytes
import LineExchange.Fault

/-!
# LineExchange.Memory

Memory shared by host and device, as the exchange sees it. An access either answers or breaks
off with a fault; both ways the memory may have changed, so an access is a state transition
(`Access`). A memory is any type with the accesses of the class `Memory`: a plain region, a
region behind a device that reacts to being read, or one that writes a log.
-/

namespace LineExchange

/-- A computation on a memory that may break off and keeps what it did before. -/
abbrev Access (M : Type) := ExceptT Fault (StateM M)

namespace Access

variable {M S α : Type}

def run (a : Access M α) (m : M) : Except Fault α × M := (ExceptT.run a).run m

/-- An access to a part of a larger state. -/
def onPart (get : S → M) (set : S → M → S) (a : Access M α) : Access S α :=
  ExceptT.mk fun s => let (r, m) := a.run (get s); (r, set s m)

def require (ok : Bool) (f : Fault) : Access M Unit := if ok then pure () else throw f

/-- Assert that `ok` holds; the text says what was expected. -/
def expect (ok : Bool) (text : Option String := none) : Access M Unit :=
  require ok (.assertion text)

def fail (text : String) : Access M α := throw (.assertion (some text))

end Access

/-- The accesses that an exchange makes. -/
class Memory (M : Type) where
  /-- Bytes of the region. -/
  size : M → Nat
  read (offset len : Nat) : Access M Bytes
  write (offset : Nat) (data : Bytes) : Access M Unit
  /-- Read one byte for the sake of the access alone: it rings the device's doorbell. -/
  touch (offset : Nat) : Access M Unit
  /-- Drop cached copies of a line. -/
  invalidate (offset : Nat) : Access M Unit
  /-- The control byte at an offset. -/
  loadControl (offset : Nat) : Access M UInt8
  storeControl (offset : Nat) (byte : UInt8) : Access M Unit

namespace Memory

variable {M : Type} [Memory M]

/-- Read into a new buffer, for which there must be storage. -/
def fetch (offset len : Nat) : Access M Bytes := do
  Access.require (len < storageLimit) .outOfStorage
  read offset len

/-- Change a control byte; its value before and after. -/
def updateControl (offset : Nat) (f : UInt8 → UInt8) : Access M (UInt8 × UInt8) := do
  let before ← loadControl offset
  storeControl offset (f before)
  return (before, f before)

end Memory
end LineExchange
