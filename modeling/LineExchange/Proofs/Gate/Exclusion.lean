import LineExchange.Gate.Race
import LineExchange.Proofs.Gate.Enter
import Mathlib.Algebra.BigOperators.Group.Finset.Basic
import Mathlib.Data.Fintype.Basic

/-!
# LineExchange.Proofs.Gate.Exclusion

Mutual exclusion at a gate whose accessors make one atomic access at a time.

* `Race.Guarded`: the invariant. The byte is busy exactly while one accessor holds it, what was
  loaded lets in, and the entries are the exits and the accessors counted in between.
* `Race.guarded_step`, `Race.guarded_run`: every move keeps it, so every interleaving does.
* `Race.at_most_one_holds`: what it says about the accessors, the byte and the snapshots.
-/

namespace LineExchange

open ControlByte (LetsIn isBusy isReady setBusy bit)

namespace Race

variable {ι κ : Type} [Fintype ι] [DecidableEq ι] {byte : UInt8} {s : Race ι κ} {a : ι}

/-- The accessors whose entry was counted and whose exit was not. -/
def counted (s : Race ι κ) : Nat := Finset.univ.sum fun a => (s.stage a).isCounted.toNat

/-- The invariant of a race that started with `byte`. -/
structure Guarded (byte : UInt8) (s : Race ι κ) : Prop where
  busy : isBusy s.gate.byte = true ↔ ∃ a, (s.stage a).holds = true
  unique : ∀ a b, (s.stage a).holds = true → (s.stage b).holds = true → a = b
  loaded : ∀ a b, s.stage a = .loaded b → LetsIn b
  others : ∀ i, 2 ≤ i → bit s.gate.byte i = bit byte i
  balanced : s.gate.counters.entries = s.gate.counters.exits + s.counted
  halfway : ∀ r n, s.halfway r = some n → n ≤ s.gate.counters.entries
  snapshots : ∀ c ∈ s.snapshots, c.exits ≤ c.entries

omit [DecidableEq ι] in
theorem guarded_start (h : isBusy byte = false) : Guarded byte (start ι κ byte) where
  busy := by simp [start, h, Stage.holds]
  unique := by simp [start, Stage.holds]
  loaded := by simp [start]
  others := by simp [start]
  balanced := by simp [start, counted, Stage.isCounted]
  halfway := by simp [start]
  snapshots := by simp [start]

theorem counted_moveTo (s : Race ι κ) (a : ι) (x : Stage) :
    (s.moveTo a x).counted + (s.stage a).isCounted.toNat = s.counted + x.isCounted.toNat := by
  have hothers : (Finset.univ.erase a).sum (fun b => ((s.moveTo a x).stage b).isCounted.toNat) =
      (Finset.univ.erase a).sum fun b => (s.stage b).isCounted.toNat := by
    refine Finset.sum_congr rfl fun b hb => ?_
    rw [stage_moveTo, if_neg (Finset.ne_of_mem_erase hb)]
  have hbefore := Finset.add_sum_erase Finset.univ
    (fun b => (s.stage b).isCounted.toNat) (Finset.mem_univ a)
  have hafter := Finset.add_sum_erase Finset.univ
    (fun b => ((s.moveTo a x).stage b).isCounted.toNat) (Finset.mem_univ a)
  rw [hothers, stage_moveTo, if_pos rfl] at hafter
  simp only [counted]
  omega

omit [Fintype ι] in
theorem holds_moveTo {x : Stage} (h : x.holds = (s.stage a).holds) (b : ι) :
    ((s.moveTo a x).stage b).holds = (s.stage b).holds := by
  by_cases hb : b = a
  · simp [hb, h]
  · simp [hb]

namespace Guarded

/-- An accessor that goes on without taking or giving the byte. -/
theorem moveTo (h : Guarded byte s) {x : Stage} (hx : x.holds = (s.stage a).holds)
    (hload : ∀ b, x = .loaded b → LetsIn b) {c : Counters}
    (hle : s.gate.counters.entries ≤ c.entries)
    (hbalanced : c.entries + (s.stage a).isCounted.toNat =
      c.exits + s.counted + x.isCounted.toNat) :
    Guarded byte ((s.withGate ⟨s.gate.byte, c⟩).moveTo a x) := by
  have hholds (b : ι) := holds_moveTo (s := s.withGate ⟨s.gate.byte, c⟩) hx b
  constructor
  case busy =>
    simp only [hholds]
    exact h.busy
  case unique =>
    intro b d
    simp only [hholds]
    exact h.unique b d
  case loaded =>
    intro b v hb
    rw [stage_moveTo] at hb
    split at hb
    · exact hload v hb
    · exact h.loaded b v hb
  case others => exact h.others
  case balanced =>
    have hcount := counted_moveTo (s.withGate ⟨s.gate.byte, c⟩) a x
    have hsame : (s.withGate ⟨s.gate.byte, c⟩).counted = s.counted := rfl
    rw [stage_withGate, hsame] at hcount
    rw [gate_moveTo, gate_withGate]
    dsimp only
    omega
  case halfway =>
    intro r n hr
    exact Nat.le_trans (h.halfway r n hr) hle
  case snapshots => exact h.snapshots

/-- An accessor that takes the byte or gives it back, while no other holds it. -/
theorem setBusy (h : Guarded byte s) {x : Stage}
    (hfree : ∀ b, b ≠ a → (s.stage b).holds = false) (hload : ∀ b, x ≠ .loaded b)
    (hcount : x.isCounted = (s.stage a).isCounted) :
    Guarded byte ((s.withGate ⟨setBusy s.gate.byte x.holds, s.gate.counters⟩).moveTo a x) := by
  constructor
  case busy =>
    constructor
    · intro hbusy
      refine ⟨a, ?_⟩
      simpa using hbusy
    · rintro ⟨b, hb⟩
      by_cases hba : b = a
      · simpa [hba] using hb
      · simp [hba, hfree b hba] at hb
  case unique =>
    intro b d hb hd
    have alone (e : ι) (he : (((s.withGate ⟨ControlByte.setBusy s.gate.byte x.holds,
        s.gate.counters⟩).moveTo a x).stage e).holds = true) : e = a := by
      by_contra hne
      simp [hne, hfree e hne] at he
    rw [alone b hb, alone d hd]
  case loaded =>
    intro b v hb
    rw [stage_moveTo] at hb
    split at hb
    · exact absurd hb (hload v)
    · exact h.loaded b v hb
  case others =>
    intro i hi
    rw [gate_moveTo, gate_withGate, ControlByte.bit_setBusy, if_neg (by omega)]
    exact h.others i hi
  case balanced =>
    have hsum := counted_moveTo (s.withGate
      ⟨ControlByte.setBusy s.gate.byte x.holds, s.gate.counters⟩) a x
    rw [stage_withGate, hcount, Nat.add_right_cancel_iff] at hsum
    rw [hsum]
    exact h.balanced
  case halfway => exact h.halfway
  case snapshots => exact h.snapshots

theorem act (h : Guarded byte s) (a : ι) : Guarded byte (s.act a) := by
  have hbalanced := h.balanced
  unfold Race.act
  cases ha : s.stage a with
  | outside =>
    dsimp only
    split
    · next hopen =>
      refine h.moveTo (c := s.gate.counters) (by rw [ha]; rfl) ?_ (Nat.le_refl _) ?_
      · intro b hb
        cases hb
        exact Gate.isOpen_iff.1 hopen
      · simp [ha, Stage.isCounted, hbalanced]
    · exact h
  | loaded b =>
    have hopen := h.loaded a b ha
    dsimp only
    split
    · next hsame =>
      -- the loaded byte is still there and lets in, so nobody holds it
      have hfree : ∀ c, (s.stage c).holds = false := by
        intro c
        by_contra hc
        have hbusy := h.busy.2 ⟨c, by simpa using hc⟩
        rw [hsame, hopen.2] at hbusy
        cases hbusy
      rw [← hsame]
      exact h.setBusy (x := .marked) (fun c _ => hfree c) (by simp) (by rw [ha]; rfl)
    · exact h.moveTo (c := s.gate.counters) (by rw [ha]; rfl) (by simp)
        (Nat.le_refl _) (by simp [ha, Stage.isCounted, hbalanced])
  | marked =>
    refine h.moveTo (by rw [ha]; rfl) (by simp) (Nat.le_succ _) ?_
    simp [ha, Stage.isCounted, hbalanced]
  | inside =>
    have hself : (s.stage a).holds = true := by rw [ha]; rfl
    refine h.setBusy (x := .cleared) ?_ (by simp) (by rw [ha]; rfl)
    intro b hb
    by_contra hholds
    exact hb (h.unique b a (by simpa using hholds) hself)
  | cleared =>
    refine h.moveTo (by rw [ha]; rfl) (by simp) (Nat.le_refl _) ?_
    simp [ha, Stage.isCounted, hbalanced]
    omega

variable [DecidableEq κ]

omit [DecidableEq ι] in
theorem load (h : Guarded byte s) (r : κ) : Guarded byte (s.load r) := by
  have hbalanced := h.balanced
  unfold Race.load
  cases hr : s.halfway r with
  | none =>
    refine { h with halfway := ?_ }
    intro q n hq
    dsimp only at hq
    split at hq
    · cases hq
      rw [hbalanced]
      exact Nat.le_add_right ..
    · exact h.halfway q n hq
  | some exits =>
    refine { h with halfway := ?_, snapshots := ?_ }
    · intro q n hq
      dsimp only at hq
      split at hq
      · cases hq
      · exact h.halfway q n hq
    · intro c hc
      cases hc with
      | head => exact h.halfway r exits hr
      | tail _ hc => exact h.snapshots c hc

end Guarded

variable [DecidableEq κ]

theorem guarded_step (h : Guarded byte s) (m : Move ι κ) : Guarded byte (s.step m) := by
  cases m with
  | act a => exact h.act a
  | setReady v =>
    refine { h with busy := ?_, others := ?_ }
    · exact (ControlByte.isBusy_setReady s.gate.byte v).symm ▸ h.busy
    · intro i hi
      refine (ControlByte.bit_setReady ..).trans ?_
      rw [if_neg (by omega)]
      exact h.others i hi
  | load r => exact h.load r

theorem guarded_run (h : Guarded byte s) (moves : List (Move ι κ)) :
    Guarded byte (s.run moves) := by
  induction moves generalizing s with
  | nil => exact h
  | cons m moves ih => exact ih (guarded_step h m)

/-- **Mutual exclusion.** However the accesses of any accessors and readers and the moves of the
device interleave: at most one accessor holds the byte, which is busy exactly then; whoever takes
it does so while the device is ready; the device's and the host's bits are the only ones to change;
and no exit is ever counted before its entry, neither by the counters nor by a snapshot. -/
theorem at_most_one_holds (h : isBusy byte = false) (moves : List (Move ι κ)) :
    let s := (start ι κ byte).run moves
    (∀ a b, (s.stage a).holds = true → (s.stage b).holds = true → a = b) ∧
    (isBusy s.gate.byte = true ↔ ∃ a, (s.stage a).holds = true) ∧
    (∀ a b, s.stage a = .loaded b → (s.act a).stage a = .marked → isReady s.gate.byte = true) ∧
    (∀ i, 2 ≤ i → bit s.gate.byte i = bit byte i) ∧
    s.gate.counters.exits ≤ s.gate.counters.entries ∧
    ∀ c ∈ s.snapshots, c.exits ≤ c.entries := by
  intro s
  have hs : Guarded byte s := guarded_run (guarded_start h) moves
  refine ⟨hs.unique, hs.busy, ?_, hs.others, ?_, hs.snapshots⟩
  · intro a b ha hmarked
    have hsame : s.gate.byte = b := by
      by_contra hne
      simp [Race.act, ha, hne] at hmarked
    rw [hsame]
    exact (hs.loaded a b ha).1
  · rw [hs.balanced]
    exact Nat.le_add_right ..

/-- Two accessors load the same byte, and only the first one exchanges it. Then a reader takes its
snapshot while the first one enters and leaves. -/
theorem at_most_one_holds_two : isBusy 1 = false ∧
    let s := (start (Fin 2) (Fin 1) 1).run
      [.act 0, .act 1, .act 0, .act 1, .act 1, .act 0, .load 0, .setReady false, .act 0, .act 0,
        .load 0]
    s.snapshots.map (fun c => (c.entries, c.exits)) = [(1, 0)] ∧
      s.gate.counters.exits ≤ s.gate.counters.entries :=
  ⟨by decide, by decide, (at_most_one_holds (by decide) _).2.2.2.2.1⟩

end Race
end LineExchange
