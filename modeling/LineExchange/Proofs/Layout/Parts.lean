import LineExchange.Layout

/-!
# LineExchange.Proofs.Layout.Parts

The parts of the shared region lie apart. A layout that was checked keeps its parts in order
(`Layout.ordered_of_check`): in each window first all of `rx`, then all of `tx`, then the
worker-control line, before the next window starts. No sum in a checked layout is ever stopped at
the largest word, as that word is no multiple of the line size.

* `Part.apart`: two parts of a window share no byte.
* `Layout.partAt_apart`: nor do parts of different windows.
-/

namespace LineExchange

/-- A part of a core's window. -/
inductive Part where
  | control (d : Direction) (parity : Bool)
  | overflow (d : Direction)
  | worker
deriving DecidableEq

namespace Layout

variable {l : Layout}

/-- The parts of a window follow each other. -/
structure Ordered (l : Layout) : Prop where
  overflow_ge : 2 * lineSize ≤ l.overflowOffset.toNat
  tx_ge : l.rxBase.toNat + l.span ≤ l.txBase.toNat
  worker_ge : l.txBase.toNat + l.span ≤ l.workerControl.toNat
  stride_ge : l.workerControl.toNat + lineSize ≤ l.stride.toNat

/-- A sum that is stopped at the largest word is not below a multiple of the line size. -/
theorem le_of_saturate_le {n : Nat} {offset : UInt64} (ha : offset.toNat % lineSize = 0)
    (h : saturate n ≤ offset.toNat) : n ≤ offset.toNat := by
  have hmax := toNat_le_wordMax offset
  unfold saturate wordMax at h
  unfold lineSize at ha
  unfold wordMax at hmax
  omega

theorem ordered_of_check (h : l.check = .ok ()) : l.Ordered := by
  have hr := Rule.check_eq_ok.1 h
  simp only [rules, aligned, startsAt, List.forall_mem_cons, decide_eq_true_eq] at hr
  obtain ⟨-, htx, -, hworker, hstride, h1, h2, h3, h4, -⟩ := hr
  exact ⟨h1, le_of_saturate_le htx h2, le_of_saturate_le hworker h3,
    le_of_saturate_le hstride h4⟩

end Layout

namespace Part

variable {l : Layout}

/-- Where the part starts in a window. -/
def offset (l : Layout) : Part → Nat
  | control d parity => l.controlOffset d parity
  | overflow d => l.overflowBase d
  | worker => l.workerControl.toNat

/-- Bytes of the part. -/
def len (l : Layout) : Part → Nat
  | control _ _ => lineSize
  | overflow _ => l.overflowSize
  | worker => lineSize

/-- Two parts of a window share no byte. -/
theorem apart (h : l.Ordered) {p q : Part} (hne : p ≠ q) :
    p.offset l + p.len l ≤ q.offset l ∨ q.offset l + q.len l ≤ p.offset l := by
  obtain ⟨h1, h2, h3, h4⟩ := h
  unfold Layout.span at h2 h3
  unfold lineSize at *
  rcases p with ⟨_ | _, _ | _⟩ | ⟨_ | _⟩ | _ <;> rcases q with ⟨_ | _, _ | _⟩ | ⟨_ | _⟩ | _ <;>
    simp [offset, len, Layout.controlOffset, Layout.overflowBase, Layout.directionBase,
      lineSize] at * <;> omega

theorem before_worker (h : l.Ordered) {p : Part} (hp : p ≠ .worker) :
    p.offset l + p.len l ≤ worker.offset l := by
  obtain ⟨h1, h2, h3, h4⟩ := h
  unfold Layout.span at h2 h3
  unfold lineSize at *
  rcases p with ⟨_ | _, _ | _⟩ | ⟨_ | _⟩ | _ <;>
    simp [offset, len, Layout.controlOffset, Layout.overflowBase, Layout.directionBase,
      lineSize] at * <;> omega

theorem within (h : l.Ordered) (p : Part) : p.offset l + p.len l ≤ l.stride.toNat := by
  have hstride := h.stride_ge
  by_cases hp : p = .worker
  · subst hp
    exact hstride
  · have := before_worker h hp
    have hw : worker.offset l = l.workerControl.toNat := rfl
    omega

end Part

namespace Layout

variable {l : Layout}

theorem lt_of_line_le {start size : Nat} (h : start + lineSize ≤ size) : start < size :=
  Nat.lt_of_lt_of_le (Nat.lt_add_of_pos_right (by decide : 0 < lineSize)) h

/-- Where a part of a core's window starts in the region. -/
def partAt (l : Layout) (core : Nat) (p : Part) : Nat := l.coreBase core + p.offset l

theorem partAt_overflow (core : Nat) (d : Direction) :
    l.partAt core (.overflow d) = l.overflowAt core d := rfl

theorem coreBase_add_stride_le {core other : Nat} (h : core < other) :
    l.coreBase core + l.stride.toNat ≤ l.coreBase other := by
  calc l.coreBase core + l.stride.toNat = (core + 1) * l.stride.toNat := by
        rw [Nat.add_mul, Nat.one_mul, coreBase]
    _ ≤ l.coreBase other := Nat.mul_le_mul_right _ h

/-- Two parts of the region share no byte. -/
theorem partAt_apart (h : l.Ordered) {core other : Nat} {p q : Part}
    (hne : core ≠ other ∨ p ≠ q) :
    l.partAt core p + p.len l ≤ l.partAt other q ∨
      l.partAt other q + q.len l ≤ l.partAt core p := by
  have hp := p.within h
  have hq := q.within h
  unfold partAt
  rcases Nat.lt_trichotomy core other with hlt | rfl | hgt
  · have := l.coreBase_add_stride_le hlt
    exact .inl (by omega)
  · have := Part.apart h (hne.resolve_left fun hc => hc rfl)
    omega
  · have := l.coreBase_add_stride_le hgt
    exact .inr (by omega)

theorem directionLine_in (d : Direction) {i : Nat} (hi : i < l.directionLines) :
    ∃ p : Part, p ≠ .worker ∧ p.offset l ≤ l.directionLine d i ∧
      l.directionLine d i + lineSize ≤ p.offset l + p.len l := by
  unfold directionLine
  unfold directionLines at hi
  split
  · exact ⟨.control d (i = 1), by simp, Nat.le_refl _, Nat.le_refl _⟩
  · refine ⟨.overflow d, by simp, Nat.le_add_right .., ?_⟩
    have hlines : (i - 2 + 1) * lineSize ≤ l.overflowLines.toNat * lineSize :=
      Nat.mul_le_mul_right _ (by omega)
    show l.overflowBase d + (i - 2) * lineSize + lineSize ≤
      l.overflowBase d + l.overflowLines.toNat * lineSize
    rw [Nat.add_mul, Nat.one_mul] at hlines
    omega

theorem exchangeLine_in {i : Nat} (hi : i < l.exchangeLines) :
    ∃ p : Part, p ≠ .worker ∧ p.offset l ≤ l.exchangeLine i ∧
      l.exchangeLine i + lineSize ≤ p.offset l + p.len l := by
  unfold exchangeLine
  unfold exchangeLines at hi
  split
  · exact directionLine_in .rx ‹_›
  · exact directionLine_in .tx (by omega)

/-- The payload capacity of a checked layout was not stopped at the largest word. -/
theorem payloadCapacity_eq (h : l.Ordered) :
    l.payloadCapacity = inlineSize + l.overflowSize := by
  have hmax := toNat_le_wordMax l.txBase
  obtain ⟨h1, h2, -, -⟩ := h
  refine saturate_of_le ?_
  unfold span at h2
  unfold lineSize at h1
  have : inlineSize = 64 := rfl
  omega

end Layout
end LineExchange
