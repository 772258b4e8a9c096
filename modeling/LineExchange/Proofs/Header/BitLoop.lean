import LineExchange.Header.BitLoop
import LineExchange.Proofs.Header.Exact

/-!
# LineExchange.Proofs.Header.BitLoop

A field is a lens on a byte string: what is written is read back, and nothing else is touched.

* `Bytes.getBits_last`, `Bytes.setBits_last`: the last bit of a run, read and written by itself.
* `Field.gather?_eq`, `Field.scatter?_eq`: on a string that holds the field, the loops over its bits
  have a result, and it is what `get` and `put` say. After `k` rounds the first `k` bits are done.
* `Field.lens_laws`: the laws of one field, and of two without a common bit.
-/

namespace LineExchange

open Word

/-! ## One bit of a byte, of a word, of a string -/

theorem shiftRight_and_one {n i : Nat} : n >>> i &&& 1 = 1 ↔ n.testBit i = true := by
  rw [Nat.testBit_eq_decide_div_mod_eq, decide_eq_true_eq, Nat.shiftRight_eq_div_pow,
    Nat.and_one_is_mod]

theorem word_shiftRight_and_one (x : UInt64) {n : UInt8} (hn : n < 64) :
    x >>> n.toUInt64 &&& 1 = 1 ↔ x.toNat.testBit n.toNat = true := by
  have hlt : n.toNat < 64 := hn
  rw [← UInt64.toNat_inj, UInt64.toNat_and, UInt64.toNat_shiftRight, UInt8.toNat_toUInt64,
    Nat.mod_eq_of_lt hlt]
  exact shiftRight_and_one

namespace Bytes

theorem byte?_of_lt {b : Bytes} {i : Nat} (h : i < b.size) : b.byte? i = some (b.byteAt i) :=
  if_pos h

theorem byteAt_shiftRight_and_one (b : Bytes) (n : Nat) :
    b.byteAt (n / 8) >>> UInt8.ofNat (n % 8) &&& 1 = 1 ↔ b.bit n = true := by
  have hi : n % 8 < 8 := Nat.mod_lt _ (by decide)
  have hn : (UInt8.ofNat (n % 8)).toNat % 8 = n % 8 := by
    rw [UInt8.toNat_ofNat_of_lt' (Nat.lt_trans hi (by decide)), Nat.mod_mod]
  rw [← UInt8.toNat_inj, UInt8.toNat_and, UInt8.toNat_shiftRight, hn]
  exact shiftRight_and_one

theorem getBits_last (b : Bytes) (start k : Nat) :
    b.getBits start (k + 1) = b.getBits start k ||| (b.bit (start + k)).toNat <<< k := by
  apply Nat.eq_of_testBit_eq
  intro i
  rw [Nat.testBit_or, Nat.testBit_shiftLeft, testBit_getBits, testBit_getBits]
  obtain hi | rfl | hi := Nat.lt_trichotomy i k
  · simp [hi, Nat.lt_succ_of_lt hi, Nat.not_le.2 hi]
  · cases b.bit (start + i) <;> simp
  · have hbit : (b.bit (start + k)).toNat.testBit (i - k) = false := by
      rw [Nat.testBit_bool_toNat, decide_eq_false (by omega), Bool.false_and]
    simp [Nat.not_lt.2 hi, Nat.not_lt.2 (Nat.le_of_lt hi), hbit]

theorem setBits_last (b : Bytes) (start k v : Nat) :
    b.setBits start (k + 1) v = (b.setBits start k v).setBit (start + k) (v.testBit k) := by
  refine ext_bit (by simp) fun n => ?_
  rw [bit_setBit, bit_setBits, bit_setBits, size_setBits]
  by_cases hn : n = start + k ∧ start + k < 8 * b.size
  · rw [if_pos (by omega), if_pos hn, hn.1, Nat.add_sub_cancel_left]
  · rw [if_neg hn]
    exact if_congr (by omega) rfl rfl

end Bytes

namespace Field

variable {f : Field} {b : Bytes}

/-! ## The loops -/

theorem ofNat_lt_64 {i : Nat} (h : i < 64) : UInt8.ofNat i < 64 ∧ (UInt8.ofNat i).toNat = i := by
  have hi : (UInt8.ofNat i).toNat = i := UInt8.toNat_ofNat_of_lt' (Nat.lt_trans h (by decide))
  refine ⟨UInt8.lt_iff_toNat_lt.2 ?_, hi⟩
  rwa [hi]

theorem bit_lt_size (hb : f.stop ≤ 8 * b.size) {i : Nat} (hi : i < f.width.toNat) :
    f.start + i < 8 * b.size :=
  Nat.lt_of_lt_of_le (Nat.add_lt_add_left hi f.start) hb

theorem gatherBit?_eq {w : UInt64} {i : Nat} (hi : i < 64) (hb : f.start + i < 8 * b.size)
    (hw : w.toNat = b.getBits f.start i) :
    ∃ w', f.gatherBit? b w i = some w' ∧ w'.toNat = b.getBits f.start (i + 1) := by
  obtain ⟨hlt, hnum⟩ := ofNat_lt_64 hi
  rw [Bytes.getBits_last, ← hw, gatherBit?, Bytes.byte?_of_lt (by omega)]
  simp only [Option.bind_eq_bind, Option.bind_some, Bytes.byteAt_shiftRight_and_one]
  by_cases hset : b.bit (f.start + i) = true
  · refine ⟨w ||| 1 <<< (UInt8.ofNat i).toUInt64, ?_, ?_⟩
    · rw [if_pos hset, shl?, if_pos hlt]
      rfl
    · rw [UInt64.toNat_or, toNat_one_shiftLeft hlt, hnum, hset, Bool.toNat_true, Nat.one_shiftLeft]
  · refine ⟨w, if_neg hset, ?_⟩
    rw [Bool.eq_false_iff.2 hset, Bool.toNat_false, Nat.zero_shiftLeft, Nat.or_zero]

theorem gather?_eq (hw : f.width.toNat ≤ 64) (hb : f.stop ≤ 8 * b.size) :
    ∃ w, f.gather? b = some w ∧ w.toNat = f.get b := by
  have rounds (k : Nat) (hk : k ≤ f.width.toNat) :
      ∃ w, (List.range k).foldlM (f.gatherBit? b) 0 = some w ∧ w.toNat = b.getBits f.start k := by
    induction k with
    | zero => exact ⟨0, rfl, rfl⟩
    | succ k ih =>
      obtain ⟨w, hrun, hval⟩ := ih (Nat.le_of_succ_le hk)
      obtain ⟨w', hstep, hval'⟩ := gatherBit?_eq (by omega) (bit_lt_size hb hk) hval
      refine ⟨w', ?_, hval'⟩
      rw [List.range_succ, List.foldlM_append, hrun]
      simpa using hstep
  exact rounds _ (Nat.le_refl _)

theorem scatterBit?_eq (v : UInt64) {i : Nat} (hi : i < 64) (hb : f.start + i < 8 * b.size) :
    f.scatterBit? v b i = some (b.setBit (f.start + i) (v.toNat.testBit i)) := by
  obtain ⟨hlt, hnum⟩ := ofNat_lt_64 hi
  have hbit := word_shiftRight_and_one v hlt
  rw [hnum] at hbit
  rw [scatterBit?, Bytes.byte?_of_lt (by omega), shr?, if_pos hlt]
  simp only [Option.bind_eq_bind, Option.bind_some, hbit]
  rfl

theorem scatter?_eq (hw : f.width.toNat ≤ 64) (hb : f.stop ≤ 8 * b.size) (v : UInt64) :
    f.scatter? b v = some (f.put b v.toNat) := by
  have rounds (k : Nat) (hk : k ≤ f.width.toNat) :
      (List.range k).foldlM (f.scatterBit? v) b = some (b.setBits f.start k v.toNat) := by
    induction k with
    | zero => rfl
    | succ k ih =>
      rw [List.range_succ, List.foldlM_append, ih (Nat.le_of_succ_le hk)]
      have hin : f.start + k < 8 * (b.setBits f.start k v.toNat).size := by
        rw [Bytes.size_setBits]
        exact bit_lt_size hb hk
      have hstep := scatterBit?_eq v (by omega) hin
      rw [Bytes.setBits_last]
      simpa using hstep
  exact rounds _ (Nat.le_refl _)

/-! ## The laws -/

theorem disjoint_of_overlaps {g : Field} (h : f.overlaps g = false) : f.Disjoint g := by
  simp only [overlaps, runsMeet, Bool.and_eq_false_iff, decide_eq_false_iff_not] at h
  exact disjoint_of_apart (by omega)

theorem Disjoint.symm {g : Field} (h : f.Disjoint g) : g.Disjoint f := fun n hn => h n hn.symm

/-- The field is a lens on `b`, and its loops over words compute it. -/
structure Lens (f : Field) (b : Bytes) : Prop where
  gather : ∃ w, f.gather? b = some w ∧ w.toNat = f.get b
  scatter : ∀ v : UInt64, f.scatter? b v = some (f.put b v.toNat)
  size_put : ∀ v : UInt64, (f.put b v.toNat).size = b.size
  get_put : ∀ v : UInt64, f.get (f.put b v.toNat) = v.toNat % 2 ^ f.width.toNat
  bit_put : ∀ (v : UInt64) (n : Nat), ¬f.Covers n → (f.put b v.toNat).bit n = b.bit n
  put_get : f.put b (f.get b) = b
  put_put : ∀ v w : UInt64, f.put (f.put b v.toNat) w.toNat = f.put b w.toNat
  get_le : f.get b ≤ f.maxValue
  maxWord : ∃ m, f.maxWord? = some m ∧ m.toNat = f.maxValue

/-- The fields do not see each other's writes. -/
structure Independent (f g : Field) (b : Bytes) : Prop where
  put_comm : ∀ v w : UInt64, f.put (g.put b w.toNat) v.toNat = g.put (f.put b v.toNat) w.toNat
  get_left : ∀ w : UInt64, f.get (g.put b w.toNat) = f.get b
  get_right : ∀ v : UInt64, g.get (f.put b v.toNat) = g.get b

/-- **A field is a lens.** In every string that holds all of a field of at most 64 bits, the loops
over words that read and write it have a result. What is written is read back modulo `2 ^ width`,
no bit outside changes, writing what was read changes nothing, the last of two writes stays, and no
value read is above the largest. Fields without a common bit, and so fields that do not overlap, do
not see each other's writes, and these commute. -/
theorem lens_laws (hw : f.width.toNat ≤ 64) (hb : f.stop ≤ 8 * b.size) :
    f.Lens b ∧ ∀ g : Field, (f.overlaps g = false → f.Disjoint g) ∧
      (f.Disjoint g → f.Independent g b) := by
  have lens : f.Lens b := {
    gather := gather?_eq hw hb
    scatter := scatter?_eq hw hb
    size_put := fun _ => size_put ..
    get_put := fun _ => get_put hb _
    bit_put := fun _ _ hn => bit_put_of_not_covers hn b _
    put_get := put_get f b
    put_put := fun _ _ => put_put f b ..
    get_le := get_le_maxValue hw b
    maxWord := f.exists_maxWord? }
  refine ⟨lens, fun g => ⟨disjoint_of_overlaps, fun h => ?_⟩⟩
  exact ⟨fun _ _ => put_comm h b .., fun _ => get_put_disjoint h b _,
    fun _ => get_put_disjoint h.symm b _⟩

/-- A field of 64 bits, over nine bytes, and the bits before it. -/
theorem lens_laws_wide :
    (⟨5, 64⟩ : Field).width.toNat ≤ 64 ∧ (⟨5, 64⟩ : Field).stop ≤ 8 * (Bytes.zeros 9).size ∧
      (⟨5, 64⟩ : Field).Lens (.zeros 9) ∧ (⟨5, 64⟩ : Field).Independent ⟨0, 5⟩ (.zeros 9) := by
  have hb : (⟨5, 64⟩ : Field).stop ≤ 8 * (Bytes.zeros 9).size := by decide
  obtain ⟨lens, beside⟩ := lens_laws (f := ⟨5, 64⟩) (b := .zeros 9) (by decide) hb
  exact ⟨by decide, hb, lens, (beside ⟨0, 5⟩).2 ((beside _).1 (by decide))⟩

end Field
end LineExchange
