import LineExchange.Proofs.Layout.Views
import Mathlib.Data.List.Nodup

/-!
# LineExchange.Proofs.Layout.Lines

The lines of a window one by one: the control lines, the lines of the overflow arrays, and the
worker-control line (`WindowLine`). In a checked layout every line starts at a multiple of the
line size, and no two lines of the region share a byte.

* `Layout.lineAt_apart`: two lines of the region share no byte.
* `Layout.lineAt_end_le`, `Layout.regionSize_eq`: all end within the region, the last one with it.
* `Layout.mem_exchangeOffsets`, `Layout.nodup_exchangeOffsets`: the lines that exchanges use are
  all but the worker-control line, each listed once.
* `Layout.payloadAt_in_line`: each byte of a payload lies in one of them.
-/

namespace LineExchange

/-- A line of a core's window. -/
inductive WindowLine where
  | control (d : Direction) (parity : Bool)
  | overflow (d : Direction) (i : Nat)
  | worker
deriving DecidableEq

namespace WindowLine

variable {l : Layout} {s t : WindowLine}

/-- The part of the window that the line belongs to. -/
def part : WindowLine → Part
  | control d parity => .control d parity
  | overflow d _ => .overflow d
  | worker => .worker

/-- Where the line starts in a window. -/
def offset (l : Layout) : WindowLine → Nat
  | control d parity => l.controlOffset d parity
  | overflow d i => l.overflowBase d + i * lineSize
  | worker => l.workerControl.toNat

/-- Whether a window has the line: an overflow array has only so many. -/
def In (l : Layout) : WindowLine → Prop
  | overflow _ i => i < l.overflowLines.toNat
  | _ => True

theorem part_offset_le (s : WindowLine) : s.part.offset l ≤ s.offset l := by
  cases s with
  | control d parity => exact Nat.le_refl _
  | overflow d i => exact Nat.le_add_right ..
  | worker => exact Nat.le_refl _

theorem end_le_part (hs : s.In l) : s.offset l + lineSize ≤ s.part.offset l + s.part.len l := by
  cases s with
  | control d parity => exact Nat.le_refl _
  | worker => exact Nat.le_refl _
  | overflow d i =>
    have hlines : (i + 1) * lineSize ≤ l.overflowLines.toNat * lineSize :=
      Nat.mul_le_mul_right _ hs
    rw [Nat.add_mul, Nat.one_mul] at hlines
    show l.overflowBase d + i * lineSize + lineSize ≤
      l.overflowBase d + l.overflowLines.toNat * lineSize
    omega

theorem overflow_apart (d : Direction) {i j : Nat} (h : i < j) :
    (overflow d i).offset l + lineSize ≤ (overflow d j).offset l := by
  have hlines : (i + 1) * lineSize ≤ j * lineSize := Nat.mul_le_mul_right _ h
  rw [Nat.add_mul, Nat.one_mul] at hlines
  show l.overflowBase d + i * lineSize + lineSize ≤ l.overflowBase d + j * lineSize
  omega

/-- Two lines of one part are two lines of an overflow array. -/
theorem overflow_of_part_eq (hpart : s.part = t.part) (hne : s ≠ t) :
    ∃ d i j, s = overflow d i ∧ t = overflow d j ∧ i ≠ j := by
  cases s with
  | control d parity =>
    cases t with
    | control e q =>
      obtain ⟨rfl, rfl⟩ := Part.control.inj hpart
      exact absurd rfl hne
    | overflow => cases hpart
    | worker => cases hpart
  | worker =>
    cases t with
    | worker => exact absurd rfl hne
    | control => cases hpart
    | overflow => cases hpart
  | overflow d i =>
    cases t with
    | overflow e j =>
      obtain rfl := Part.overflow.inj hpart
      exact ⟨d, i, j, rfl, rfl, fun h => hne (h ▸ rfl)⟩
    | control => cases hpart
    | worker => cases hpart

end WindowLine

namespace Layout

variable {l : Layout} {s t : WindowLine}

/-- The offsets are multiples of the line size. -/
structure Aligned (l : Layout) : Prop where
  rx : lineSize ∣ l.rxBase.toNat
  tx : lineSize ∣ l.txBase.toNat
  overflow : lineSize ∣ l.overflowOffset.toNat
  worker : lineSize ∣ l.workerControl.toNat
  stride : lineSize ∣ l.stride.toNat

theorem aligned_of_check (h : l.check = .ok ()) : l.Aligned := by
  have hr := Rule.check_eq_ok.1 h
  simp only [rules, aligned, startsAt, List.forall_mem_cons, decide_eq_true_eq] at hr
  obtain ⟨hrx, htx, hoverflow, hworker, hstride, -⟩ := hr
  exact ⟨Nat.dvd_of_mod_eq_zero hrx, Nat.dvd_of_mod_eq_zero htx, Nat.dvd_of_mod_eq_zero hoverflow,
    Nat.dvd_of_mod_eq_zero hworker, Nat.dvd_of_mod_eq_zero hstride⟩

/-- Where a line of a core's window starts in the region. -/
def lineAt (l : Layout) (core : Nat) (s : WindowLine) : Nat := l.coreBase core + s.offset l

namespace Aligned

variable (h : l.Aligned)
include h

theorem directionBase (d : Direction) : lineSize ∣ l.directionBase d := by
  cases d with
  | rx => exact h.rx
  | tx => exact h.tx

theorem lineAt (core : Nat) (s : WindowLine) : lineSize ∣ l.lineAt core s := by
  refine Nat.dvd_add (Nat.dvd_mul_left_of_dvd h.stride core) ?_
  cases s with
  | control d parity => exact Nat.dvd_add (h.directionBase d) (Nat.dvd_mul_left ..)
  | overflow d i =>
    exact Nat.dvd_add (Nat.dvd_add (h.directionBase d) h.overflow) (Nat.dvd_mul_left ..)
  | worker => exact h.worker

end Aligned

/-- Two lines of the region share no byte. -/
theorem lineAt_apart (h : l.Ordered) {core other : Nat} (hs : s.In l) (ht : t.In l)
    (hne : (core, s) ≠ (other, t)) :
    l.lineAt core s + lineSize ≤ l.lineAt other t ∨
      l.lineAt other t + lineSize ≤ l.lineAt core s := by
  by_cases hparts : core = other ∧ s.part = t.part
  · obtain ⟨rfl, hpart⟩ := hparts
    obtain ⟨d, i, j, rfl, rfl, hij⟩ :=
      WindowLine.overflow_of_part_eq hpart fun h => hne (h ▸ rfl)
    unfold lineAt
    rcases Nat.lt_or_gt_of_ne hij with hlt | hgt
    · have := WindowLine.overflow_apart (l := l) d hlt
      exact .inl (by omega)
    · have := WindowLine.overflow_apart (l := l) d hgt
      exact .inr (by omega)
  · have apart := l.partAt_apart h (Classical.not_and_iff_not_or_not.1 hparts)
    have hs₀ := s.part_offset_le (l := l)
    have ht₀ := t.part_offset_le (l := l)
    have hs₁ := WindowLine.end_le_part hs
    have ht₁ := WindowLine.end_le_part ht
    unfold partAt at apart
    unfold lineAt
    omega

/-- A line of a window is told by where it starts. -/
theorem eq_of_offset_eq (h : l.Ordered) (hs : s.In l) (ht : t.In l)
    (heq : s.offset l = t.offset l) : s = t := by
  by_contra hne
  have hpos : 0 < lineSize := by decide
  have hwindow : ((0 : Nat), s) ≠ (0, t) := fun hp => hne (Prod.mk.inj hp).2
  have := l.lineAt_apart h hs ht hwindow
  unfold lineAt at this
  omega

theorem regionSize_eq {cores r : Nat} (hcores : 1 ≤ cores) (hr : l.regionSize cores = some r) :
    r = l.lineAt (cores - 1) .worker + lineSize ∧ r ≤ wordMax := by
  have hne : ¬cores = 0 := by omega
  rw [regionSize, if_neg hne] at hr
  obtain ⟨hmax, rfl⟩ := checked?_eq_some.1 hr
  refine ⟨?_, hmax⟩
  rw [Nat.mul_comm, ← Nat.add_assoc]
  rfl

theorem lineAt_end_le (h : l.Ordered) {cores r core : Nat} (hr : l.regionSize cores = some r)
    (hcore : core < cores) (hs : s.In l) : l.lineAt core s + lineSize ≤ r := by
  have hpart := l.fits_of_regionSize h hr (Nat.le_refl r) core hcore s.part
  have hend := WindowLine.end_le_part hs
  unfold partAt at hpart
  unfold lineAt
  omega

/-! ## The lines that exchanges use -/

/-- The `i`-th line of a direction, as a line of the window. -/
def directionWindowLine (d : Direction) (i : Nat) : WindowLine :=
  if i < 2 then .control d (i = 1) else .overflow d (i - 2)

/-- The `i`-th line that exchanges use, as a line of the window. -/
def exchangeWindowLine (l : Layout) (i : Nat) : WindowLine :=
  if i < l.directionLines then directionWindowLine .rx i
  else directionWindowLine .tx (i - l.directionLines)

theorem directionLine_eq (d : Direction) (i : Nat) :
    l.directionLine d i = (directionWindowLine d i).offset l := by
  unfold directionLine directionWindowLine
  split <;> rfl

theorem exchangeLine_eq (i : Nat) : l.exchangeLine i = (l.exchangeWindowLine i).offset l := by
  unfold exchangeLine exchangeWindowLine
  split <;> exact directionLine_eq ..

theorem directionWindowLine_in (d : Direction) {i : Nat} (hi : i < l.directionLines) :
    (directionWindowLine d i).In l ∧ directionWindowLine d i ≠ .worker := by
  unfold directionLines at hi
  unfold directionWindowLine
  split
  · exact ⟨trivial, nofun⟩
  · exact ⟨show i - 2 < l.overflowLines.toNat by omega, nofun⟩

theorem exchangeWindowLine_in {i : Nat} (hi : i < l.exchangeLines) :
    (l.exchangeWindowLine i).In l ∧ l.exchangeWindowLine i ≠ .worker := by
  unfold exchangeLines at hi
  unfold exchangeWindowLine
  split
  · exact directionWindowLine_in .rx ‹_›
  · exact directionWindowLine_in .tx (by omega)

theorem exists_directionWindowLine {d : Direction} (hs : s.In l)
    (hd : (∃ parity, s = .control d parity) ∨ ∃ i, s = .overflow d i) :
    ∃ i, i < l.directionLines ∧ directionWindowLine d i = s := by
  unfold directionLines
  obtain ⟨_ | _, rfl⟩ | ⟨i, rfl⟩ := hd
  · exact ⟨0, by omega, rfl⟩
  · exact ⟨1, by omega, rfl⟩
  · have hi : i < l.overflowLines.toNat := hs
    exact ⟨i + 2, by omega, by simp [directionWindowLine]⟩

/-- Each line but the worker-control line is one that exchanges use. -/
theorem exists_exchangeWindowLine (hs : s.In l) (hne : s ≠ .worker) :
    ∃ i, i < l.exchangeLines ∧ l.exchangeWindowLine i = s := by
  have place (d : Direction) (hd : (∃ parity, s = .control d parity) ∨ ∃ i, s = .overflow d i) :
      ∃ i, i < l.exchangeLines ∧ l.exchangeWindowLine i = s := by
    obtain ⟨i, hi, rfl⟩ := exists_directionWindowLine hs hd
    unfold exchangeLines exchangeWindowLine
    cases d with
    | rx => exact ⟨i, by omega, by rw [if_pos hi]⟩
    | tx =>
      refine ⟨l.directionLines + i, by omega, ?_⟩
      rw [if_neg (by omega), Nat.add_sub_cancel_left]
  cases s with
  | control d parity => exact place d (.inl ⟨parity, rfl⟩)
  | overflow d i => exact place d (.inr ⟨i, rfl⟩)
  | worker => exact absurd rfl hne

theorem directionWindowLine_inj {d e : Direction} {i j : Nat}
    (h : directionWindowLine d i = directionWindowLine e j) : d = e ∧ i = j := by
  unfold directionWindowLine at h
  split at h <;> split at h
  · obtain ⟨rfl, hparity⟩ := WindowLine.control.inj h
    have := decide_eq_decide.1 hparity
    exact ⟨rfl, by omega⟩
  · cases h
  · cases h
  · obtain ⟨rfl, hij⟩ := WindowLine.overflow.inj h
    exact ⟨rfl, by omega⟩

theorem exchangeWindowLine_inj {i j : Nat}
    (h : l.exchangeWindowLine i = l.exchangeWindowLine j) : i = j := by
  unfold exchangeWindowLine at h
  split at h <;> split at h <;> obtain ⟨hd, hij⟩ := directionWindowLine_inj h
  · exact hij
  · cases hd
  · cases hd
  · omega

theorem mem_exchangeOffsets {o : Nat} : o ∈ l.exchangeOffsets l.exchangeLines ↔
    ∃ s : WindowLine, s.In l ∧ s ≠ .worker ∧ s.offset l = o := by
  simp only [exchangeOffsets, Nat.min_self, List.mem_map, List.mem_range]
  constructor
  · rintro ⟨i, hi, rfl⟩
    obtain ⟨hin, hne⟩ := exchangeWindowLine_in hi
    exact ⟨_, hin, hne, (exchangeLine_eq i).symm⟩
  · rintro ⟨s, hin, hne, rfl⟩
    obtain ⟨i, hi, rfl⟩ := exists_exchangeWindowLine hin hne
    exact ⟨i, hi, exchangeLine_eq i⟩

theorem nodup_exchangeOffsets (h : l.Ordered) : (l.exchangeOffsets l.exchangeLines).Nodup := by
  rw [exchangeOffsets, Nat.min_self]
  refine List.Nodup.map_on ?_ List.nodup_range
  intro i hi j hj heq
  rw [exchangeLine_eq, exchangeLine_eq] at heq
  exact exchangeWindowLine_inj (eq_of_offset_eq h (exchangeWindowLine_in (List.mem_range.1 hi)).1
    (exchangeWindowLine_in (List.mem_range.1 hj)).1 heq)

/-! ## Payloads -/

/-- Where the `i`-th byte of a payload lies in the region: behind the header in the control line,
and from there on in the overflow array. -/
def payloadAt (l : Layout) (core : Nat) (d : Direction) (parity : Bool) (i : Nat) : Nat :=
  if i < inlineSize then l.controlAt core d parity + inlineOffset + i
  else l.overflowAt core d + (i - inlineSize)

/-- What the bytes of a region carry in a direction of a core: behind the header of a control line
and, as the rest, in the overflow array. -/
def carried (l : Layout) (b : Bytes) (core : Nat) (d : Direction) (parity : Bool) : Bytes :=
  (Line.ofBytes (l.view b core (.control d parity))).inline ++ l.view b core (.overflow d)

theorem byteAt_carried {b : Bytes} {core : Nat} (d : Direction) (parity : Bool)
    (hb : ∀ p : Part, l.partAt core p + p.len l ≤ b.size) {i : Nat}
    (hi : i < inlineSize + l.overflowSize) :
    (l.carried b core d parity).byteAt i = b.byteAt (l.payloadAt core d parity i) := by
  have hview : (l.view b core (.control d parity)).size = lineSize := by
    have hlen : (Part.control d parity).len l = lineSize := rfl
    have := hb (.control d parity)
    rw [view, Bytes.size_slice]
    omega
  rw [carried, Bytes.byteAt_append, Line.size_inline, payloadAt]
  split
  · have hsplit : inlineOffset + inlineSize = lineSize := by decide
    rw [Line.inline, Bytes.byteAt_slice, if_pos ‹_›, Line.bytes_ofBytes_of_size hview, view,
      Bytes.byteAt_slice]
    exact (if_pos (show inlineOffset + i < lineSize by omega)).trans
      (congrArg b.byteAt (Nat.add_assoc ..).symm)
  · rw [view, Bytes.byteAt_slice]
    exact if_pos (show i - inlineSize < l.overflowSize by omega)

/-- Each byte of a payload lies in a line that exchanges use. -/
theorem payloadAt_in_line (core : Nat) (d : Direction) (parity : Bool) {i : Nat}
    (hi : i < inlineSize + l.overflowSize) :
    ∃ s : WindowLine, s.In l ∧ s ≠ .worker ∧ l.lineAt core s ≤ l.payloadAt core d parity i ∧
      l.payloadAt core d parity i < l.lineAt core s + lineSize := by
  have hsplit : inlineOffset + inlineSize = lineSize := by decide
  unfold payloadAt
  split
  · have hat : l.lineAt core (.control d parity) = l.controlAt core d parity := rfl
    exact ⟨.control d parity, trivial, nofun, by omega, by omega⟩
  · have hk : i - inlineSize < l.overflowLines.toNat * lineSize := by
      have : l.overflowSize = l.overflowLines.toNat * lineSize := rfl
      omega
    have hat : l.lineAt core (.overflow d ((i - inlineSize) / lineSize)) =
        l.overflowAt core d + (i - inlineSize) / lineSize * lineSize := (Nat.add_assoc ..).symm
    have hle : (i - inlineSize) / lineSize * lineSize ≤ i - inlineSize := Nat.div_mul_le_self ..
    have hlt : i - inlineSize < (i - inlineSize) / lineSize * lineSize + lineSize :=
      Nat.lt_div_mul_add (by decide)
    exact ⟨.overflow d ((i - inlineSize) / lineSize), Nat.div_lt_of_lt_mul (Nat.mul_comm .. ▸ hk),
      nofun, by omega, by omega⟩

end Layout
end LineExchange
