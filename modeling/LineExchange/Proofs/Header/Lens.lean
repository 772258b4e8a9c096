import LineExchange.Header.Encode
import Mathlib.Algebra.Group.Nat.Defs

/-!
# LineExchange.Proofs.Header.Lens

Fields and windows of a byte string as independent parts.

* `Field.get_congr`, `Bytes.slice_congr`: what is read from a run of bits depends on these bits
  only. Everything else follows from it.
* `Field.get_put`: a field written is read back modulo its width.
* `Field.put_get`, `Field.put_put`, `Field.put_comm`: writing what was read changes nothing, the
  last of two writes stays, and writes to fields without a common bit commute.
* `Field.get_put_apart`, `Field.get_patch_apart`, `Bytes.slice_put_apart`: a write beside a part
  leaves it alone.
-/

namespace LineExchange
namespace Bytes

theorem bit_byte (b : Bytes) (i : Nat) {j : Nat} (hj : j < 8) :
    b.bit (8 * i + j) = (b.byteAt i).toNat.testBit j := by
  unfold bit
  rw [show (8 * i + j) / 8 = i by omega, show (8 * i + j) % 8 = j by omega]

theorem byteAt_congr {a b : Bytes} {i : Nat}
    (h : ∀ j, j < 8 → a.bit (8 * i + j) = b.bit (8 * i + j)) : a.byteAt i = b.byteAt i := by
  apply UInt8.toNat_inj.mp
  apply Nat.eq_of_testBit_eq
  intro j
  by_cases hj : j < 8
  · rw [← bit_byte a i hj, ← bit_byte b i hj]
    exact h j hj
  · have past : ∀ x : UInt8, x.toNat.testBit j = false := fun x =>
      Nat.testBit_lt_two_pow (Nat.lt_of_lt_of_le x.toNat_lt (Nat.pow_le_pow_right (by decide)
        (Nat.not_lt.1 hj)))
    rw [past, past]

theorem ext_bit {a b : Bytes} (hs : a.size = b.size) (h : ∀ n, a.bit n = b.bit n) : a = b :=
  ext_byteAt hs fun _ _ => byteAt_congr fun _ _ => h _

theorem slice_congr {a b : Bytes} {start len : Nat} (hs : a.size = b.size)
    (h : ∀ n, 8 * start ≤ n → n < 8 * (start + len) → a.bit n = b.bit n) :
    a.slice start len = b.slice start len := by
  refine ext_byteAt (by simp [hs]) fun i hi => ?_
  rw [size_slice] at hi
  rw [byteAt_slice, byteAt_slice, if_pos (by omega), if_pos (by omega)]
  exact byteAt_congr fun j hj => h _ (by omega) (by omega)

@[simp] theorem bit_zeros (n i : Nat) : (zeros n).bit i = false := by
  simp [bit]

theorem bit_patch {b src : Bytes} {start : Nat} (h : start + src.size ≤ b.size) (n : Nat) :
    (b.patch start src).bit n =
      if 8 * start ≤ n ∧ n < 8 * (start + src.size) then src.bit (n - 8 * start) else b.bit n := by
  unfold bit
  rw [byteAt_patch h]
  by_cases hn : 8 * start ≤ n ∧ n < 8 * (start + src.size)
  · rw [if_pos (by omega), if_pos hn, show (n - 8 * start) / 8 = n / 8 - start by omega,
      show (n - 8 * start) % 8 = n % 8 by omega]
  · rw [if_neg (by omega), if_neg hn]

theorem byteAt_append (a b : Bytes) (i : Nat) :
    (a ++ b).byteAt i = if i < a.size then a.byteAt i else b.byteAt (i - a.size) := by
  by_cases hi : i < (a ++ b).size
  · have hsum := hi
    rw [ByteArray.size_append] at hsum
    rw [byteAt_of_lt hi]
    by_cases ha : i < a.size
    · rw [if_pos ha, byteAt_of_lt ha, ByteArray.getElem_append_left ha]
    · rw [if_neg ha, byteAt_of_lt (by omega), ByteArray.getElem_append_right (by omega)]
  · have hsum := hi
    rw [ByteArray.size_append] at hsum
    rw [byteAt_of_le (by omega), if_neg (by omega), byteAt_of_le (by omega)]

end Bytes

namespace Field

theorem get_congr {f : Field} {a b : Bytes}
    (h : ∀ n, f.start ≤ n → n < f.stop → a.bit n = b.bit n) : f.get a = f.get b := by
  apply Nat.eq_of_testBit_eq
  intro i
  rw [testBit_get, testBit_get]
  by_cases hi : i < f.width.toNat
  · rw [h (f.start + i) (by omega) (by simp only [start, stop]; omega)]
  · simp [hi]

theorem get_put {f : Field} {b : Bytes} (h : f.stop ≤ 8 * b.size) (v : Nat) :
    f.get (f.put b v) = v % 2 ^ f.width.toNat := by
  apply Nat.eq_of_testBit_eq
  intro i
  rw [testBit_get, bit_put, Nat.testBit_mod_two_pow]
  by_cases hi : i < f.width.toNat
  · rw [if_pos (by simp only [start, stop] at h ⊢; omega), Nat.add_sub_cancel_left]
  · simp [hi]

/-- Bit `n` of the string is a bit of the field. -/
def Covers (f : Field) (n : Nat) : Prop := f.start ≤ n ∧ n < f.stop

theorem bit_put_of_not_covers {f : Field} {n : Nat} (h : ¬f.Covers n) (b : Bytes) (v : Nat) :
    (f.put b v).bit n = b.bit n := by
  rw [bit_put, if_neg fun hn => h ⟨hn.1, hn.2.1⟩]

/-- No bit of the string is a bit of both fields. -/
def Disjoint (f g : Field) : Prop := ∀ n, ¬(f.Covers n ∧ g.Covers n)

theorem get_put_disjoint {f g : Field} (h : f.Disjoint g) (b : Bytes) (v : Nat) :
    f.get (g.put b v) = f.get b :=
  get_congr fun n hstart hstop => bit_put_of_not_covers (fun hg => h n ⟨⟨hstart, hstop⟩, hg⟩) b v

theorem disjoint_of_apart {f g : Field} (h : f.stop ≤ g.start ∨ g.stop ≤ f.start) :
    f.Disjoint g := by
  unfold Disjoint Covers
  omega

theorem get_put_apart {f g : Field} (h : f.stop ≤ g.start ∨ g.stop ≤ f.start) (b : Bytes)
    (v : Nat) : f.get (g.put b v) = f.get b :=
  get_put_disjoint (disjoint_of_apart h) b v

theorem get_patch_apart {f : Field} {b src : Bytes} {pos : Nat} (hf : pos + src.size ≤ b.size)
    (h : f.stop ≤ 8 * pos ∨ 8 * (pos + src.size) ≤ f.start) :
    f.get (b.patch pos src) = f.get b :=
  get_congr fun n _ _ => by rw [Bytes.bit_patch hf, if_neg (by omega)]

theorem put_get (f : Field) (b : Bytes) : f.put b (f.get b) = b := by
  refine Bytes.ext_bit (size_put ..) fun n => ?_
  rw [bit_put]
  split
  · next h =>
    have hi : n - f.start < f.width.toNat := by
      simp only [start, stop] at h ⊢
      omega
    rw [testBit_get, decide_eq_true hi, Bool.true_and, Nat.add_sub_cancel' h.1]
  · rfl

theorem put_put (f : Field) (b : Bytes) (v w : Nat) : f.put (f.put b v) w = f.put b w := by
  refine Bytes.ext_bit (by simp) fun n => ?_
  rw [bit_put, bit_put, bit_put, size_put]
  split <;> rfl

theorem put_comm {f g : Field} (h : f.Disjoint g) (b : Bytes) (v w : Nat) :
    f.put (g.put b w) v = g.put (f.put b v) w := by
  refine Bytes.ext_bit (by simp) fun n => ?_
  by_cases hf : f.Covers n
  · have hg : ¬g.Covers n := fun hg => h n ⟨hf, hg⟩
    rw [bit_put_of_not_covers hg (f.put b v), bit_put f, bit_put f, size_put,
      bit_put_of_not_covers hg]
  · rw [bit_put_of_not_covers hf (g.put b w), bit_put g, bit_put g, size_put,
      bit_put_of_not_covers hf]

theorem get_zeros (f : Field) (n : Nat) : f.get (Bytes.zeros n) = 0 := by
  apply Nat.eq_of_testBit_eq
  intro i
  simp [testBit_get]

theorem get_lt (f : Field) (b : Bytes) : f.get b < 2 ^ f.width.toNat :=
  Nat.lt_pow_two_of_testBit _ fun i hi => by rw [testBit_get, decide_eq_false (Nat.not_lt.2 hi),
    Bool.false_and]

theorem maxValue_of_le {f : Field} (h : f.width.toNat ≤ 64) :
    f.maxValue + 1 = 2 ^ f.width.toNat := by
  have hp : 0 < 2 ^ f.width.toNat := Nat.two_pow_pos _
  rw [maxValue, Nat.min_eq_left h, Nat.one_shiftLeft]
  omega

theorem get_le_maxValue {f : Field} (h : f.width.toNat ≤ 64) (b : Bytes) : f.get b ≤ f.maxValue :=
  Nat.lt_succ_iff.1 (Nat.lt_of_lt_of_eq (f.get_lt b) (maxValue_of_le h).symm)

end Field

namespace Bytes

theorem slice_put_apart {f : Field} {pos len : Nat}
    (h : f.stop ≤ 8 * pos ∨ 8 * (pos + len) ≤ f.start) (b : Bytes) (v : Nat) :
    (f.put b v).slice pos len = b.slice pos len :=
  slice_congr (Field.size_put f b v) fun n _ _ => by rw [Field.bit_put, if_neg (by omega)]

theorem slice_zeros {n pos len : Nat} (h : pos + len ≤ n) :
    (zeros n).slice pos len = zeros len := by
  refine ext_byteAt ?_ fun i hi => ?_
  · rw [size_slice, size_zeros, size_zeros]
    omega
  · rw [byteAt_slice, byteAt_zeros, byteAt_zeros, ite_self]

/-- A window longer than what was written into its front holds zeros behind it. -/
theorem slice_patch_front {b src : Bytes} {start len : Nat} (hlen : src.size ≤ len)
    (hfit : start + len ≤ b.size) (hz : ∀ i, start ≤ i → i < start + len → b.byteAt i = 0) :
    (b.patch start src).slice start len = src ++ zeros (len - src.size) := by
  refine ext_byteAt ?_ fun i hi => ?_
  · rw [size_slice, size_patch, ByteArray.size_append, size_zeros]
    omega
  · rw [size_slice, size_patch] at hi
    rw [byteAt_slice, if_pos (by omega), byteAt_patch (by omega), byteAt_append]
    by_cases hs : i < src.size
    · rw [if_pos (by omega), if_pos hs, Nat.add_sub_cancel_left]
    · rw [if_neg (by omega), if_neg hs, byteAt_zeros]
      exact hz _ (by omega) (by omega)

end Bytes

/-! ## The same for a line, whose size is known -/

namespace Line

theorem get_put {g : Field} (h : g.stop ≤ 8 * lineSize) (l : Line) (v : Nat) :
    g.get (l.put g v).bytes = v % 2 ^ g.width.toNat :=
  Field.get_put (by rw [l.size_bytes]; exact h) v

theorem get_put_apart {f g : Field} (h : f.stop ≤ g.start ∨ g.stop ≤ f.start) (l : Line)
    (v : Nat) : f.get (l.put g v).bytes = f.get l.bytes :=
  Field.get_put_apart h l.bytes v

theorem get_patch_apart {f : Field} {src : Bytes} {pos : Nat} (hf : pos + src.size ≤ lineSize)
    (h : f.stop ≤ 8 * pos ∨ 8 * (pos + src.size) ≤ f.start) (l : Line) :
    f.get (l.patch pos src).bytes = f.get l.bytes :=
  Field.get_patch_apart (by rw [l.size_bytes]; exact hf) h

theorem bit_put_apart {g : Field} {n : Nat} (h : ¬(g.start ≤ n ∧ n < g.stop)) (l : Line)
    (v : Nat) : (l.put g v).bytes.bit n = l.bytes.bit n :=
  (Field.bit_put g l.bytes v n).trans (if_neg (by omega))

theorem bit_patch_apart {src : Bytes} {pos n : Nat} (hf : pos + src.size ≤ lineSize)
    (h : ¬(8 * pos ≤ n ∧ n < 8 * (pos + src.size))) (l : Line) :
    (l.patch pos src).bytes.bit n = l.bytes.bit n :=
  (Bytes.bit_patch (by rw [l.size_bytes]; exact hf) n).trans (if_neg h)

theorem slice_put_apart {g : Field} {pos len : Nat}
    (h : g.stop ≤ 8 * pos ∨ 8 * (pos + len) ≤ g.start) (l : Line) (v : Nat) :
    (l.put g v).bytes.slice pos len = l.bytes.slice pos len :=
  Bytes.slice_put_apart h l.bytes v

theorem slice_patch_apart {src : Bytes} {pos start len : Nat} (hf : pos + src.size ≤ lineSize)
    (h : start + len ≤ pos ∨ pos + src.size ≤ start) (l : Line) :
    (l.patch pos src).bytes.slice start len = l.bytes.slice start len :=
  Bytes.slice_patch_of_disjoint (by rw [l.size_bytes]; exact hf) h

theorem slice_patch {src : Bytes} {pos : Nat} (hf : pos + src.size ≤ lineSize) (l : Line) :
    (l.patch pos src).bytes.slice pos src.size = src :=
  Bytes.slice_patch_same (by rw [l.size_bytes]; exact hf)

/-- A window that was zero holds what is written into its front, and zeros behind it. -/
theorem slice_patch_front {src : Bytes} {pos len : Nat} (hlen : src.size ≤ len)
    (hf : pos + len ≤ lineSize) {l : Line} (hz : l.bytes.slice pos len = .zeros len) :
    (l.patch pos src).bytes.slice pos len = src ++ .zeros (len - src.size) := by
  refine Bytes.slice_patch_front hlen (by rw [l.size_bytes]; exact hf) fun i h0 h1 => ?_
  have hi := congrArg (Bytes.byteAt · (i - pos)) hz
  simp only [Bytes.byteAt_slice, Bytes.byteAt_zeros] at hi
  rwa [if_pos (by omega), show pos + (i - pos) = i by omega] at hi

theorem slice_zero {pos len : Nat} (h : pos + len ≤ lineSize) :
    zero.bytes.slice pos len = .zeros len := Bytes.slice_zeros h

theorem inline_zero : zero.inline = .zeros inlineSize := slice_zero (by decide)

theorem inline_put {g : Field} (h : g.stop ≤ 8 * headerSize) (l : Line) (v : Nat) :
    (l.put g v).inline = l.inline :=
  slice_put_apart (.inl h) l v

theorem inline_patch {src : Bytes} {pos : Nat} (h : pos + src.size ≤ headerSize) (l : Line) :
    (l.patch pos src).inline = l.inline :=
  slice_patch_apart (Nat.le_trans h (by decide)) (.inr h) l

end Line
end LineExchange
