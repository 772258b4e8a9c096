import LineExchange.Gate.Spin
import Mathlib.Data.Nat.Bitwise
import Mathlib.Logic.Relation

/-!
# LineExchange.Proofs.Gate.Enter

What is done to a control byte at the gate, bit by bit, and how tries to enter end.

* `ControlByte.bit_setBusy`, `ControlByte.bit_setReady`: each side changes its own bit only.
* `Gate.spun_enter`: the bytes that the policy left apart, tries to enter change a gate only if
  one of them succeeds, and then they set `busy` and count one entry.
-/

namespace LineExchange

namespace ControlByte

/-- The bit `i` of a control byte. -/
def bit (b : UInt8) (i : Nat) : Bool := b.toBitVec.getLsbD i

theorem bit_mask {b : UInt8} {k : Nat} (hb : b.toNat = 2 ^ k) (i : Nat) :
    bit b i = decide (i = k) := by
  have htest : bit b i = b.toNat.testBit i := rfl
  rw [htest, hb, Nat.testBit_two_pow]
  exact decide_eq_decide.2 eq_comm

theorem bit_busyBit (i : Nat) : bit busyBit i = decide (i = 1) := bit_mask (k := 1) (by decide) i

theorem bit_readyBit (i : Nat) : bit readyBit i = decide (i = 0) := bit_mask (k := 0) (by decide) i

theorem bit_or (a b : UInt8) (i : Nat) : bit (a ||| b) i = (bit a i || bit b i) := by
  simp [bit]

theorem bit_and_not (a b : UInt8) (i : Nat) : bit (a &&& ~~~b) i = (bit a i && !bit b i) := by
  by_cases h : i < 8
  · simp [bit, h]
  · simp [bit, BitVec.getLsbD_of_ge _ _ (Nat.not_lt.1 h)]

/-- The host changes its own bit only. -/
theorem bit_setBusy (b : UInt8) (v : Bool) (i : Nat) :
    bit (setBusy b v) i = if i = 1 then v else bit b i := by
  cases v <;> by_cases h : i = 1 <;> simp [setBusy, bit_or, bit_and_not, bit_busyBit, h]

theorem bit_setReady (b : UInt8) (v : Bool) (i : Nat) :
    bit (setReady b v) i = if i = 0 then v else bit b i := by
  cases v <;> by_cases h : i = 0 <;> simp [setReady, bit_or, bit_and_not, bit_readyBit, h]

theorem isBusy_eq (b : UInt8) : isBusy b = bit b 1 := by
  obtain ⟨x⟩ := b
  revert x
  decide

theorem isReady_eq (b : UInt8) : isReady b = bit b 0 := by
  obtain ⟨x⟩ := b
  revert x
  decide

@[simp] theorem isBusy_setBusy (b : UInt8) (v : Bool) : isBusy (setBusy b v) = v := by
  simp [isBusy_eq, bit_setBusy]

@[simp] theorem isReady_setBusy (b : UInt8) (v : Bool) : isReady (setBusy b v) = isReady b := by
  simp [isReady_eq, bit_setBusy]

@[simp] theorem isReady_setReady (b : UInt8) (v : Bool) : isReady (setReady b v) = v := by
  simp [isReady_eq, bit_setReady]

@[simp] theorem isBusy_setReady (b : UInt8) (v : Bool) : isBusy (setReady b v) = isBusy b := by
  simp [isBusy_eq, bit_setReady]

/-- Who entered a gate and leaves it restores the control byte. -/
theorem setBusy_false_true {b : UInt8} (h : isBusy b = false) :
    setBusy (setBusy b true) false = b := by
  obtain ⟨b⟩ := b
  revert b
  decide

/-- Whether a gate with this byte lets someone in. -/
def LetsIn (b : UInt8) : Prop := isReady b = true ∧ isBusy b = false

end ControlByte

/-- The policy, asked again and again while the control byte is `b`, leaves `c`. -/
def SpinPolicy.Asked {σ : Type} (p : SpinPolicy σ) : UInt8 → UInt8 → Prop :=
  Relation.ReflTransGen fun b c => ∃ failed s, c = (p.keepSpinning failed s b).2.2

namespace Gate

open ControlByte (setBusy LetsIn)

variable {σ : Type} {p : SpinPolicy σ}

theorem isOpen_iff {g : Gate} : g.isOpen = true ↔ LetsIn g.byte := by
  simp [isOpen, LetsIn]

/-- How tries to enter a gate end. -/
inductive Spun (p : SpinPolicy σ) (g : Gate) : SpinResult → Gate → Prop where
  | entered {b : UInt8} (spins : Nat) : p.Asked g.byte b → LetsIn b →
    Spun p g .entered ⟨setBusy b true,
      ⟨g.counters.entries + 1, g.counters.exits, g.counters.spins + spins⟩⟩
  | stuck {b : UInt8} (attempts : Nat) : p.Asked g.byte b →
    Spun p g (.stuck attempts)
      ⟨b, ⟨g.counters.entries, g.counters.exits, g.counters.spins + attempts⟩⟩
  | endless {b : UInt8} : p.Asked g.byte b → Spun p g .endless ⟨b, g.counters⟩

/-- The policy was asked once more in front. -/
theorem Spun.asked {g g' : Gate} {b : UInt8} {r : SpinResult} {failed : Nat} {s : σ}
    (hb : b = (p.keepSpinning failed s g.byte).2.2) (h : Spun p { g with byte := b } r g') :
    Spun p g r g' := by
  have ask {c : UInt8} (hc : p.Asked b c) : p.Asked g.byte c := .head ⟨failed, s, hb⟩ hc
  cases h with
  | entered spins hc ho => exact .entered spins (ask hc) ho
  | stuck attempts hc => exact .stuck attempts (ask hc)
  | endless hc => exact .endless (ask hc)

theorem spinFrom_open {fuel failed : Nat} {g : Gate} {s : σ} (h : g.isOpen = true) :
    spinFrom p fuel failed g s = (.entered, s, ⟨setBusy g.byte true,
      ⟨g.counters.entries + 1, g.counters.exits, g.counters.spins + failed⟩⟩) := by
  cases fuel <;> simp [spinFrom, tryEnter, h, addSpins]

theorem spinFrom_closed {fuel failed : Nat} {g : Gate} {s s' : σ} {b : UInt8} (again : Bool)
    (h : g.isOpen = false) (hk : p.keepSpinning (failed + 1) s g.byte = (again, s', b)) :
    spinFrom p (fuel + 1) failed g s =
      if again then spinFrom p fuel (failed + 1) { g with byte := b } s'
      else (.stuck (failed + 1), s', ({ g with byte := b } : Gate).addSpins (failed + 1)) := by
  simp [spinFrom, tryEnter, h, hk]

theorem spun_spinFrom (fuel failed : Nat) (g : Gate) (s : σ) :
    Spun p g (spinFrom p fuel failed g s).1 (spinFrom p fuel failed g s).2.2 := by
  induction fuel generalizing failed g s with
  | zero =>
    by_cases h : g.isOpen = true
    · rw [spinFrom_open h]
      exact .entered failed .refl (isOpen_iff.1 h)
    · simp only [spinFrom, tryEnter, h]
      exact .endless .refl
  | succ fuel ih =>
    by_cases h : g.isOpen = true
    · rw [spinFrom_open h]
      exact .entered failed .refl (isOpen_iff.1 h)
    · cases hk : p.keepSpinning (failed + 1) s g.byte with | mk again rest =>
      obtain ⟨s', b⟩ := rest
      have hb : b = (p.keepSpinning (failed + 1) s g.byte).2.2 := by rw [hk]
      rw [spinFrom_closed again (Bool.not_eq_true _ ▸ h) hk]
      cases again with
      | true => exact (ih (failed + 1) { g with byte := b } s').asked hb
      | false => exact Spun.asked hb (.stuck (failed + 1) .refl)

/-- **Tries to enter.** Whatever the policy does, it is the only one to change the byte of a gate
that was not entered. A gate that was entered let the host in; now it is busy, and one entry was
counted. -/
theorem spun_enter (g : Gate) (s : σ) : Spun p g (g.enter p s).1 (g.enter p s).2.2 :=
  spun_spinFrom p.followed 0 g s

/-- The gate after someone entered at the first attempt. -/
def entered (g : Gate) : Gate :=
  ⟨setBusy g.byte true, { g.counters with entries := g.counters.entries + 1 }⟩

theorem enter_open {g : Gate} {s : σ} (h : g.isOpen = true) :
    g.enter p s = (.entered, s, g.entered) := spinFrom_open h

theorem enter_attempts {g : Gate} (h : g.isOpen = false) (max : Nat) :
    g.enter (SpinLimit.attempts max).policy () = (.stuck (max + 1), (), g.addSpins (max + 1)) := by
  have spin (left failed : Nat) (hsum : failed + left = max) :
      spinFrom (SpinLimit.attempts max).policy (left + 1) failed g () =
        (.stuck (max + 1), (), g.addSpins (max + 1)) := by
    induction left generalizing failed with
    | zero =>
      have hend : ¬failed + 1 ≤ max := by omega
      have hk : (SpinLimit.attempts max).policy.keepSpinning (failed + 1) () g.byte =
          (false, (), g.byte) := by
        simp [SpinLimit.policy, SpinLimit.allows, hend]
      rw [spinFrom_closed false h hk, if_neg Bool.false_ne_true]
      rw [Nat.add_zero] at hsum
      rw [hsum]
    | succ left ih =>
      have hmore : failed + 1 ≤ max := by omega
      have hk : (SpinLimit.attempts max).policy.keepSpinning (failed + 1) () g.byte =
          (true, (), g.byte) := by
        simp [SpinLimit.policy, SpinLimit.allows, hmore]
      rw [spinFrom_closed true h hk, if_pos rfl]
      exact ih (failed + 1) (by omega)
  exact spin max 0 (Nat.zero_add _)

end Gate
end LineExchange
