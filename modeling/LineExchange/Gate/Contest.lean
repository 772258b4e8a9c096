import LineExchange.Exchange.Error
import LineExchange.Gate.Spin
import LineExchange.Owner

/-!
# LineExchange.Gate.Contest

Several actors at one gate, one move at a time. An actor inside may look at and change the
parities. The device gives and takes the window, and the control byte can be overwritten from
outside.
-/

namespace LineExchange

/-- A gate, the parities behind it, and who is inside. -/
structure Contest where
  core : Nat
  gate : Gate
  next : Parity := {}
  /-- The actors inside, the last to enter first. -/
  inside : List String := []

namespace Contest

/-- A move. Most are made by an actor. -/
inductive Move where
  /-- One attempt to enter. -/
  | enter (actor : String)
  /-- Attempts to enter until patience ends. -/
  | spin (actor : String) (p : Patience)
  | exit (actor : String)
  | parity (actor : String) (d : Direction)
  | toggle (actor : String) (d : Direction)
  | setParity (actor : String) (d : Direction) (v : Bool)
  | setReady (v : Bool)
  /-- The control byte is overwritten. -/
  | store (byte : UInt8)

/-- What a move comes to. -/
inductive Answer where
  /-- The core of the gate that was entered. -/
  | entered (core : Option Nat)
  /-- The same for several attempts, and those the policy lists. -/
  | spun (r : Except ExchangeError Nat) (seen : Option (List Nat))
  /-- The move was not made: it would not end. -/
  | endless
  /-- A truth value; none where the actor is not inside. -/
  | flag (v : Option Bool)
  | nothing

def isInside (c : Contest) (actor : String) : Bool := c.inside.contains actor

/-- An actor has entered. One who was inside before leaves from there, after entering anew. -/
def letIn (c : Contest) (actor : String) (g : Gate) : Contest :=
  if c.isInside actor then { c with gate := g.leave }
  else { c with gate := g, inside := actor :: c.inside }

def dismiss (c : Contest) (actor : String) : Contest :=
  if c.isInside actor then { c with gate := c.gate.leave, inside := c.inside.erase actor } else c

/-- A move that only an actor inside can make. -/
def ifInside (c : Contest) (actor : String) (v : Bool) (next : Parity) : Answer × Contest :=
  if c.isInside actor then (.flag (some v), { c with next }) else (.flag none, c)

def step (c : Contest) : Move → Answer × Contest
  | .enter actor =>
    match c.gate.tryEnter with
    | some g => (.entered (some c.core), c.letIn actor g)
    | none => (.entered none, c)
  | .spin actor p =>
    match p.apply fun policy s => c.gate.enter policy s with
    | (.entered, seen, g) => (.spun (.ok c.core) seen, c.letIn actor g)
    | (.stuck n, seen, g) => (.spun (.error (.handshakeStuck c.core n)) seen, { c with gate := g })
    | (.endless, _, _) => (.endless, c)
  | .exit actor => (.flag (some (c.isInside actor)), c.dismiss actor)
  | .parity actor d => c.ifInside actor (c.next.get d) c.next
  | .toggle actor d => c.ifInside actor (!c.next.get d) (c.next.toggle d)
  | .setParity actor d v => c.ifInside actor true (c.next.set d v)
  | .setReady v => (.nothing, { c with gate := c.gate.setReady v })
  | .store byte => (.nothing, { c with gate := { c.gate with byte } })

def clear (c : Contest) : Contest := c.inside.foldl dismiss c

end Contest
end LineExchange
