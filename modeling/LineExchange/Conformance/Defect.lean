import LineExchange.Conformance.Error
import LineExchange.Memory.Flaky

/-!
# LineExchange.Conformance.Defect

What can be wrong with a memory under test: it cannot be made, it is too short, or it has flaws.
-/

namespace LineExchange

/-- One thing that is wrong with a memory. -/
inductive Defect where
  /-- The memory cannot be made, for this reason. -/
  | missing (reason : String)
  /-- It has this many bytes fewer than asked for. -/
  | short (bytes : Nat)
  | flaw (f : Flaw)
deriving DecidableEq

namespace Defect

def missing? : Defect → Option String
  | missing reason => some reason
  | _ => none

def shortage : Defect → Nat
  | short bytes => bytes
  | _ => 0

def flaw? : Defect → Option Flaw
  | flaw f => some f
  | _ => none

def totalShortage (defects : List Defect) : Nat := defects.foldl (fun n d => n + d.shortage) 0

/-- A memory of `size` zero bytes with all these defects. -/
def supply (defects : List Defect) (size : Nat) : Except ScenarioError Flaky :=
  match defects.findSome? missing? with
  | some reason => .error (.setup reason)
  | none =>
    .ok { region := .zeros (size - totalShortage defects), flaws := defects.filterMap flaw? }

end Defect
end LineExchange
