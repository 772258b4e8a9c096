import LineExchange.Proofs.Layout.Views

/-!
# LineExchange.Proofs.Isolation.Windows

The window of a core: from its base to the end of its worker-control line. Every part of the core
lies in it (`Layout.Within.part`), and no byte lies in two windows (`Layout.InWindow.unique`).
-/

namespace LineExchange
namespace Layout

variable {l : Layout} {core other i start len : Nat}

/-- Bytes of a window. -/
def windowSize (l : Layout) : Nat := l.workerControl.toNat + lineSize

/-- Whether the byte at `i` belongs to the window of a core. -/
def InWindow (l : Layout) (core i : Nat) : Prop :=
  l.coreBase core ≤ i ∧ i < l.coreBase core + l.windowSize

/-- Whether `len` bytes at `start` belong to the window of a core. -/
structure Within (l : Layout) (core start len : Nat) : Prop where
  starts : l.InWindow core start
  ends : start + len ≤ l.coreBase core + l.windowSize

theorem InWindow.unique (h : l.Ordered) (hi : l.InWindow core i) (hj : l.InWindow other i) :
    core = other := by
  obtain ⟨hi, hi'⟩ := hi
  obtain ⟨hj, hj'⟩ := hj
  have hstride : l.windowSize ≤ l.stride.toNat := h.stride_ge
  rcases Nat.lt_trichotomy core other with hlt | heq | hgt
  · have := l.coreBase_add_stride_le hlt
    omega
  · exact heq
  · have := l.coreBase_add_stride_le hgt
    omega

namespace Within

theorem part (h : l.Ordered) (core : Nat) (p : Part) (hlen : len ≤ p.len l) :
    l.Within core (l.partAt core p) len := by
  have hpos : 0 < lineSize := by decide
  have hw : Part.worker.offset l = l.workerControl.toNat := rfl
  have hend : p.offset l + p.len l ≤ l.windowSize ∧ p.offset l < l.windowSize := by
    unfold windowSize
    by_cases hp : p = .worker
    · subst hp
      exact ⟨Nat.le_refl _, by omega⟩
    · have := p.before_worker h hp
      omega
  constructor
  · unfold InWindow partAt
    omega
  · unfold partAt
    omega

theorem control (h : l.Ordered) (core : Nat) (d : Direction) (parity : Bool) :
    l.Within core (l.controlAt core d parity) lineSize :=
  part h core (.control d parity) (Nat.le_refl _)

theorem overflow (h : l.Ordered) (core : Nat) (d : Direction) (hlen : len ≤ l.overflowSize) :
    l.Within core (l.overflowAt core d) len :=
  part h core (.overflow d) hlen

theorem worker (h : l.Ordered) (core : Nat) : l.Within core (l.workerAt core) 1 :=
  part h core .worker (by decide : 1 ≤ lineSize)

theorem inWindow (h : l.Within core start len) (hi : start ≤ i) (hi' : i < start + len) :
    l.InWindow core i :=
  ⟨Nat.le_trans h.starts.1 hi, Nat.lt_of_lt_of_le hi' h.ends⟩

end Within

end Layout
end LineExchange
