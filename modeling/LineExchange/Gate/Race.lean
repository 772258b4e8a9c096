import LineExchange.Gate

/-!
# LineExchange.Gate.Race

Several accessors at one gate, one atomic access at a time. To enter, an accessor loads the byte,
exchanges it for a busy one if it is still what was loaded, and counts the entry. To leave, it
clears `busy` and counts the exit. Between any two of these accesses the others make theirs, the
device gives and takes the window, and readers take snapshots of the counters: the exits first,
the entries later.

An attempt that nobody interrupts is `Gate.tryEnter` (`act_enter`, `act_closed`), and leaving is
`Gate.leave` (`act_leave`).
-/

namespace LineExchange

/-- How far an accessor has come. -/
inductive Stage where
  | outside
  /-- It has loaded a byte that lets in. -/
  | loaded (byte : UInt8)
  /-- It has set `busy`, and its entry is not counted yet. -/
  | marked
  | inside
  /-- It has cleared `busy`, and its exit is not counted yet. -/
  | cleared
deriving DecidableEq, Inhabited

namespace Stage

/-- Whether `busy` was set and not cleared again. -/
def holds : Stage → Bool
  | marked | inside => true
  | _ => false

/-- Whether the entry was counted and the exit was not. -/
def isCounted : Stage → Bool
  | inside | cleared => true
  | _ => false

end Stage

/-- Accessors and readers at one gate. -/
structure Race (ι κ : Type) where
  gate : Gate
  stage : ι → Stage := fun _ => .outside
  /-- The exits that a reader has loaded, as long as it has not loaded the entries. -/
  halfway : κ → Option Nat := fun _ => none
  /-- The snapshots that were completed, the last one first. -/
  snapshots : List Counters := []

namespace Race

/-- A move. -/
inductive Move (ι κ : Type) where
  /-- An accessor makes its next access. -/
  | act (a : ι)
  | setReady (v : Bool)
  /-- A reader makes its next load. -/
  | load (r : κ)

variable {ι κ : Type} [DecidableEq ι]

/-- The race with an accessor at another stage. -/
def moveTo (s : Race ι κ) (a : ι) (stage : Stage) : Race ι κ :=
  { s with stage := fun b => if b = a then stage else s.stage b }

/-- The race with another gate. -/
def withGate (s : Race ι κ) (gate : Gate) : Race ι κ := { s with gate }

/-- The next access of an accessor. One that is outside tries to enter. -/
def act (s : Race ι κ) (a : ι) : Race ι κ :=
  let g := s.gate
  match s.stage a with
  | .outside => if g.isOpen then s.moveTo a (.loaded g.byte) else s
  | .loaded byte =>
    if g.byte = byte then
      (s.withGate ⟨ControlByte.setBusy byte true, g.counters⟩).moveTo a .marked
    else s.moveTo a .outside
  | .marked =>
    (s.withGate ⟨g.byte, { g.counters with entries := g.counters.entries + 1 }⟩).moveTo a .inside
  | .inside => (s.withGate ⟨ControlByte.setBusy g.byte false, g.counters⟩).moveTo a .cleared
  | .cleared =>
    (s.withGate ⟨g.byte, { g.counters with exits := g.counters.exits + 1 }⟩).moveTo a .outside

/-- The next load of a reader. -/
def load [DecidableEq κ] (s : Race ι κ) (r : κ) : Race ι κ :=
  let c := s.gate.counters
  match s.halfway r with
  | none => { s with halfway := fun q => if q = r then some c.exits else s.halfway q }
  | some exits =>
    { s with
      halfway := fun q => if q = r then none else s.halfway q
      snapshots := { c with exits } :: s.snapshots }

def step [DecidableEq κ] (s : Race ι κ) : Move ι κ → Race ι κ
  | .act a => s.act a
  | .setReady v => s.withGate (s.gate.setReady v)
  | .load r => s.load r

def run [DecidableEq κ] (s : Race ι κ) (moves : List (Move ι κ)) : Race ι κ := moves.foldl step s

/-- Nobody has come yet. -/
def start (ι κ : Type) (byte : UInt8) : Race ι κ := { gate := ⟨byte, {}⟩ }

section Act

variable {s : Race ι κ} {a : ι}

@[simp] theorem stage_moveTo (s : Race ι κ) (a b : ι) (stage : Stage) :
    (s.moveTo a stage).stage b = if b = a then stage else s.stage b := rfl

@[simp] theorem gate_moveTo (s : Race ι κ) (a : ι) (stage : Stage) :
    (s.moveTo a stage).gate = s.gate := rfl

omit [DecidableEq ι] in
@[simp] theorem gate_withGate (s : Race ι κ) (gate : Gate) : (s.withGate gate).gate = gate := rfl

omit [DecidableEq ι] in
@[simp] theorem stage_withGate (s : Race ι κ) (gate : Gate) :
    (s.withGate gate).stage = s.stage := rfl

@[simp] theorem moveTo_moveTo (s : Race ι κ) (a : ι) (x y : Stage) :
    (s.moveTo a x).moveTo a y = s.moveTo a y := by
  simp only [moveTo]
  congr 1
  funext b
  by_cases h : b = a <;> simp [h]

@[simp] theorem withGate_moveTo (s : Race ι κ) (a : ι) (x : Stage) (gate : Gate) :
    (s.moveTo a x).withGate gate = (s.withGate gate).moveTo a x := rfl

omit [DecidableEq ι] in
@[simp] theorem withGate_withGate (s : Race ι κ) (g gate : Gate) :
    (s.withGate g).withGate gate = s.withGate gate := rfl

theorem act_closed (ha : s.stage a = .outside) (h : s.gate.isOpen = false) : s.act a = s := by
  simp [act, ha, h]

/-- An attempt to enter that nobody interrupts. -/
theorem act_enter (ha : s.stage a = .outside) {g : Gate} (h : s.gate.tryEnter = some g) :
    ((s.act a).act a).act a = (s.withGate g).moveTo a .inside := by
  unfold Gate.tryEnter at h
  split at h
  · next hopen =>
    cases h
    simp [act, ha, hopen]
  · cases h

theorem act_leave (ha : s.stage a = .inside) :
    (s.act a).act a = (s.withGate s.gate.leave).moveTo a .outside := by
  simp [act, ha, Gate.leave]

end Act

end Race
end LineExchange
