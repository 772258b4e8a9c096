import LineExchange.Memory.Trace
import LineExchange.Nic

/-!
# LineExchange.Bench.Backing

What a host on a bench stands on: a plain region, or a device in front of one.
-/

namespace LineExchange

/-- A plain region, or a device in front of one. -/
inductive Backing where
  | plain (r : Region)
  | device (n : Nic Region)

namespace Backing

variable {α : Type}

def access (onPlain : Access Region α) (onDevice : Access (Nic Region) α) : Access Backing α :=
  ExceptT.mk fun
    | plain r => let (a, r) := onPlain.run r; (a, plain r)
    | device n => let (a, n) := onDevice.run n; (a, device n)

def onRegion (a : Access Region α) : Access Backing α := access a (Nic.onMemory a)

instance : Memory Backing where
  size
    | plain r => r.size
    | device n => Memory.size n
  read offset len := access (Memory.read offset len) (Memory.read offset len)
  write offset data := access (Memory.write offset data) (Memory.write offset data)
  touch offset := access (Memory.touch offset) (Memory.touch offset)
  invalidate offset := access (Memory.invalidate offset) (Memory.invalidate offset)
  loadControl offset := access (Memory.loadControl offset) (Memory.loadControl offset)
  storeControl offset byte :=
    access (Memory.storeControl offset byte) (Memory.storeControl offset byte)

def pending (core : Nat) : Backing → Nat
  | plain _ => 0
  | device n => ((n.cores[core]?).map (·.queue.length)).getD 0

end Backing
end LineExchange
