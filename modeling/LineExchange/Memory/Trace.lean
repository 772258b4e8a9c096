import LineExchange.Memory
import LineExchange.Text

/-!
# LineExchange.Memory.Trace

A memory that keeps a log. Every read, write, touch and invalidation is logged before it is
made, so also when it faults; accesses to control bytes are not logged. The log answers how many
bytes of a range were read or written.
-/

namespace LineExchange

/-- One access, as logged. -/
inductive LogEntry where
  | read (offset len : Nat)
  | write (offset len : Nat)
  | touch (offset : Nat)
  | invalidate (offset : Nat)
deriving DecidableEq

/-- The offsets from `start` up to but without `stop`. -/
structure Range where
  start : Nat
  stop : Nat
deriving DecidableEq

namespace Range

/-- How many of the `len` bytes at `offset` lie in the range. -/
def countWithin (r : Range) (offset len : Nat) : Nat :=
  min (offset + len) r.stop - max offset r.start

end Range

namespace LogEntry

open Text

def shown : LogEntry → String
  | read offset len => record "Read" [("offset", toString offset), ("len", toString len)]
  | write offset len => record "Write" [("offset", toString offset), ("len", toString len)]
  | touch offset => record "Touch" [("offset", toString offset)]
  | invalidate offset => record "Invalidate" [("offset", toString offset)]

/-- Bytes of the range that the entry wrote. -/
def written (r : Range) : LogEntry → Nat
  | write offset len => r.countWithin offset len
  | _ => 0

/-- Bytes of the range that the entry read. -/
def readCount (r : Range) : LogEntry → Nat
  | read offset len => r.countWithin offset len
  | _ => 0

def invalidated? : LogEntry → Option Nat
  | invalidate offset => some offset
  | _ => none

end LogEntry

/-- A memory with a log, oldest entry first. -/
structure Traced (M : Type) where
  inner : M
  log : Array LogEntry := #[]

namespace Traced

variable {M α : Type}

/-- An access to the memory behind the log. -/
def onInner (a : Access M α) : Access (Traced M) α := a.onPart inner fun t m => { t with inner := m }

def record (e : LogEntry) : Access (Traced M) Unit := modify fun t => { t with log := t.log.push e }

def clear (t : Traced M) : Traced M := { t with log := #[] }

/-- The sum over all entries of the log. -/
def total (t : Traced M) (count : LogEntry → Nat) : Nat :=
  t.log.toList.foldr (fun e n => count e + n) 0

/-- Bytes of the range written so far, each time counted. -/
def bytesWritten (t : Traced M) (r : Range) : Nat := t.total (·.written r)

/-- Bytes of the range read so far, each time counted. -/
def bytesRead (t : Traced M) (r : Range) : Nat := t.total (·.readCount r)

/-- The writes that changed bytes of the range. -/
def writesWithin (t : Traced M) (r : Range) : List LogEntry :=
  t.log.toList.filter (0 < ·.written r)

def invalidated (t : Traced M) : List Nat := t.log.toList.filterMap (·.invalidated?)

instance [Memory M] : Memory (Traced M) where
  size t := Memory.size t.inner
  read offset len := do
    record (.read offset len)
    onInner (Memory.read offset len)
  write offset data := do
    record (.write offset data.size)
    onInner (Memory.write offset data)
  touch offset := do
    record (.touch offset)
    onInner (Memory.touch offset)
  invalidate offset := do
    record (.invalidate offset)
    onInner (Memory.invalidate offset)
  loadControl offset := onInner (Memory.loadControl offset)
  storeControl offset byte := onInner (Memory.storeControl offset byte)

end Traced
end LineExchange
