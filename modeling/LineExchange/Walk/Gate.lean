import LineExchange.Gate
import LineExchange.Memory
import LineExchange.Owner

/-!
# LineExchange.Walk.Gate

Walks at a gate. Groups of actors make arbitrary moves; at each move the outcome must be the one
that the group expects from its own moves, and after it the group's invariants must hold. A single
group at a ready gate never meets a surprise. Several groups at one gate do, as they do not know
of each other.
-/

namespace LineExchange

/-- Actors at a gate, and what they know. -/
structure ActorGroup where
  /-- The actors inside. -/
  inside : List Nat := []
  next : Parity := {}
  /-- Whether the device is taken to be ready. -/
  ready : Bool := true
  /-- Toggles of the RX parity so far. -/
  toggles : Nat := 0
deriving DecidableEq

/-- A gate and the groups of actors at it. -/
structure GateWalk where
  gate : Gate
  groups : Array ActorGroup

namespace GateWalk

def start (ready : Bool) (groups : Nat) : GateWalk where
  gate := { byte := if ready then ControlByte.readyBit else 0 }
  groups := .replicate groups {}

def actors : Nat := 4

/-- A move. Actors are numbered; a number past the last starts over. -/
inductive Move where
  /-- One attempt to enter. -/
  | enter (actor : Nat)
  | exit (actor : Nat)
  /-- The RX parity is toggled, if the actor is inside. -/
  | toggle (actor : Nat)
  /-- The device takes the window away. -/
  | preempt
  | resume

abbrev Turn := Access (Gate × ActorGroup)

def onGroup {α : Type} (i : Nat) (a : Turn α) : Access GateWalk α :=
  ExceptT.mk fun w =>
    match w.groups[i]? with
    | none => (.error .outOfRange, w)
    | some group =>
      let (r, gate, group) := a.run (w.gate, group)
      (r, { gate, groups := w.groups.setIfInBounds i group })

namespace Turn

open Access (expect)

def setReady (v : Bool) : Turn Unit :=
  modify fun (gate, group) => (gate.setReady v, { group with ready := v })

/-- An actor outside tries to enter. One who should not have entered leaves again. -/
def enter (actor : Nat) : Turn Unit := do
  let (gate, group) ← get
  if actor ∈ group.inside then return
  let anyone := !group.inside.isEmpty
  match gate.tryEnter with
  | some entered =>
    set (entered.leave, group)
    expect group.ready "entered while not ready"
    expect (!anyone) s!"actor {actor} entered while another held busy"
    set (entered, { group with inside := actor :: group.inside })
  | none =>
    expect (!group.ready || anyone) s!"actor {actor} refused with ready set and nobody inside"

def exit (actor : Nat) : Turn Unit := do
  let (gate, group) ← get
  if actor ∈ group.inside then
    set (gate.leave, { group with inside := group.inside.erase actor })

def toggle (actor : Nat) : Turn Unit := do
  let (gate, group) ← get
  if actor ∈ group.inside then
    set (gate, { group with next := group.next.toggle .rx, toggles := group.toggles + 1 })

def apply : Move → Turn Unit
  | .enter actor => enter (actor % actors)
  | .exit actor => exit (actor % actors)
  | .toggle actor => toggle (actor % actors)
  | .preempt => setReady false
  | .resume => setReady true

def check : Turn Unit := do
  let (gate, group) ← get
  let holders := group.inside.length
  expect (holders ≤ 1) s!"{holders} actors inside the critical section"
  expect (ControlByte.isBusy gate.byte = (holders = 1))
    s!"busy bit {ControlByte.shown gate.byte} disagrees with {holders} holders"
  expect (ControlByte.isReady gate.byte = group.ready)
  expect (gate.counters.inFlight = holders)
  expect (group.next.rx = (group.toggles % 2 = 1))
  expect (!group.next.tx) "tx parity moved"

/-- Everyone inside leaves; then nobody must be inside. -/
def finish : Turn Unit := do
  (← get).2.inside.forM exit
  let gate := (← get).1
  expect (!ControlByte.isBusy gate.byte) s!"busy left set: {ControlByte.shown gate.byte}"
  expect (gate.counters.entries = gate.counters.exits)

end Turn
end GateWalk
end LineExchange
