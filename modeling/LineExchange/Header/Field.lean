import LineExchange.Bytes

/-!
# LineExchange.Header.Field

Bit fields. Bits are numbered little-endian across a byte string: bit `n` is bit `n % 8` of byte
`n / 8`. A field is a run of bits and its value has its first bit as the lowest.

The view is `bit`. Setting one bit leaves every other alone (`bit_setBit`), so writing a field
changes the bits inside it to those of the value and no other (`bit_put`), and reading gives the
number with the field's bits (`testBit_get`).
-/

namespace LineExchange

namespace Bytes

/-- Bit `n`; false past the end. -/
def bit (b : Bytes) (n : Nat) : Bool := (b.byteAt (n / 8)).toNat.testBit (n % 8)

/-- `b` with bit `n` set to `v`; nothing happens past the end. -/
def setBit (b : Bytes) (n : Nat) (v : Bool) : Bytes :=
  let mask : UInt8 := 1 <<< (UInt8.ofNat (n % 8))
  let old := b.byteAt (n / 8)
  b.put (n / 8) (if v then old ||| mask else old &&& ~~~mask)

/-- The number made of the `width` bits from `start`, lowest first. -/
def getBits (b : Bytes) : (start width : Nat) → Nat
  | _, 0 => 0
  | start, width + 1 => (b.bit start).toNat + 2 * b.getBits (start + 1) width

/-- `b` with the low `width` bits of `value` written from `start`, lowest first. -/
def setBits (b : Bytes) : (start width value : Nat) → Bytes
  | _, 0, _ => b
  | start, width + 1, value =>
    (b.setBit start (value.testBit 0)).setBits (start + 1) width (value / 2)

end Bytes

/-- A run of bits. -/
structure Field where
  offset : UInt16
  width : UInt8
deriving DecidableEq, Inhabited

namespace Field

def start (f : Field) : Nat := f.offset.toNat

def stop (f : Field) : Nat := f.offset.toNat + f.width.toNat

/-- The largest value the field holds. Values are 64-bit words. -/
def maxValue (f : Field) : Nat := 1 <<< min f.width.toNat 64 - 1

/-- Whether every bit of the field lies in a string of `size` bytes. -/
def within (f : Field) (size : Nat) : Bool := f.width = 0 || f.stop ≤ 8 * size

def get (f : Field) (b : Bytes) : Nat := b.getBits f.start f.width.toNat

/-- `b` with the low bits of `value` in the field. Bits past the end are left out. -/
def put (f : Field) (b : Bytes) (value : Nat) : Bytes := b.setBits f.start f.width.toNat value

/-- Whether two runs of bits `[a, b)` and `[c, d)` meet. -/
def runsMeet (a b c d : Nat) : Bool := a < d && c < b

def overlaps (f g : Field) : Bool := runsMeet f.start f.stop g.start g.stop

end Field

namespace Bytes

theorem testBit_or_mask (x : UInt8) {i : Nat} (hi : i < 8) (j : Nat) :
    (x ||| 1 <<< UInt8.ofNat i).toNat.testBit j = if j = i then true else x.toNat.testBit j := by
  have hm : ((1 : UInt8) <<< UInt8.ofNat i).toNat = 2 ^ i := by
    rcases i with _ | _ | _ | _ | _ | _ | _ | _ | i
    all_goals first | rfl | omega
  rw [UInt8.toNat_or, Nat.testBit_or, hm, Nat.testBit_two_pow]
  by_cases h : j = i
  · simp [h]
  · simp [h, Ne.symm h]

theorem testBit_and_not_mask (x : UInt8) {i : Nat} (hi : i < 8) (j : Nat) :
    (x &&& ~~~(1 <<< UInt8.ofNat i)).toNat.testBit j =
      if j = i then false else x.toNat.testBit j := by
  have hm : ((1 : UInt8) <<< UInt8.ofNat i).toNat = 2 ^ i := by
    rcases i with _ | _ | _ | _ | _ | _ | _ | _ | i
    all_goals first | rfl | omega
  have hn : (~~~((1 : UInt8) <<< UInt8.ofNat i)).toNat = 2 ^ 8 - ((2 ^ i) + 1) := by
    rw [UInt8.toNat_not, hm]
    simp only [UInt8.size]
    omega
  have hp : 2 ^ i < 2 ^ 8 := Nat.pow_lt_pow_right (by decide) hi
  rw [UInt8.toNat_and, Nat.testBit_and, hn, Nat.testBit_two_pow_sub_succ hp, Nat.testBit_two_pow]
  by_cases h : j = i
  · simp [h]
  · have hx : x.toNat.testBit j = true → j < 8 := fun ht =>
      (Nat.pow_lt_pow_iff_right (by decide)).1
        (Nat.lt_of_le_of_lt (Nat.ge_two_pow_of_testBit ht) x.toNat_lt)
    cases hb : x.toNat.testBit j
    · simp [h]
    · simp [h, Ne.symm h, hx hb]

@[simp] theorem size_setBit (b : Bytes) (n : Nat) (v : Bool) : (b.setBit n v).size = b.size :=
  size_put ..

theorem bit_setBit (b : Bytes) (n : Nat) (v : Bool) (m : Nat) :
    (b.setBit n v).bit m = if m = n ∧ n < 8 * b.size then v else b.bit m := by
  simp only [bit, setBit, byteAt_put]
  by_cases hq : m / 8 = n / 8
  · by_cases hn : n / 8 < b.size
    · have hlt : n < 8 * b.size := by omega
      have hi : n % 8 < 8 := Nat.mod_lt _ (by decide)
      have hmn : m % 8 = n % 8 ↔ m = n := by omega
      cases v
      · simp only [hq, hn, hlt, and_self, and_true, if_true, Bool.false_eq_true, if_false,
          testBit_and_not_mask _ hi, hmn]
      · simp only [hq, hn, hlt, and_self, and_true, if_true, testBit_or_mask _ hi, hmn]
    · have hlt : ¬n < 8 * b.size := by omega
      simp [hq, hn, hlt]
  · have hne : m ≠ n := fun h => hq (by rw [h])
    simp [hq, hne]

@[simp] theorem size_setBits (b : Bytes) (start width value : Nat) :
    (b.setBits start width value).size = b.size := by
  induction width generalizing b start value with
  | zero => rfl
  | succ w ih => rw [setBits, ih, size_setBit]

theorem bit_setBits (b : Bytes) (start width value n : Nat) :
    (b.setBits start width value).bit n =
      if start ≤ n ∧ n < start + width ∧ n < 8 * b.size then value.testBit (n - start)
      else b.bit n := by
  induction width generalizing b start value with
  | zero =>
    rw [setBits, if_neg (by omega)]
  | succ w ih =>
    rw [setBits, ih, size_setBit]
    by_cases h : start + 1 ≤ n ∧ n < start + 1 + w ∧ n < 8 * b.size
    · rw [if_pos h, if_pos (by omega), show n - start = (n - (start + 1)) + 1 by omega,
        Nat.testBit_succ]
    · rw [if_neg h, bit_setBit]
      by_cases hn : n = start ∧ start < 8 * b.size
      · rw [if_pos hn, if_pos (by omega), hn.1, Nat.sub_self]
      · rw [if_neg hn, if_neg (by omega)]

theorem testBit_getBits (b : Bytes) (start width i : Nat) :
    (b.getBits start width).testBit i = (decide (i < width) && b.bit (start + i)) := by
  induction width generalizing start i with
  | zero => simp [getBits]
  | succ w ih =>
    rw [getBits]
    have h2 : ∀ (c : Bool) (k : Nat), (c.toNat + 2 * k) % 2 = c.toNat ∧ (c.toNat + 2 * k) / 2 = k := by
      intro c k
      have hc : c.toNat < 2 := c.toNat_lt
      omega
    cases i with
    | zero =>
      rw [Nat.testBit_zero, (h2 _ _).1]
      cases b.bit start <;> simp_all
    | succ i =>
      rw [Nat.testBit_succ, (h2 _ _).2, ih, show start + 1 + i = start + (i + 1) by omega]
      simp

end Bytes

namespace Field

@[simp] theorem size_put (f : Field) (b : Bytes) (value : Nat) : (f.put b value).size = b.size :=
  Bytes.size_setBits ..

theorem bit_put (f : Field) (b : Bytes) (value n : Nat) :
    (f.put b value).bit n =
      if f.start ≤ n ∧ n < f.stop ∧ n < 8 * b.size then value.testBit (n - f.start)
      else b.bit n :=
  Bytes.bit_setBits ..

theorem testBit_get (f : Field) (b : Bytes) (i : Nat) :
    (f.get b).testBit i = (decide (i < f.width.toNat) && b.bit (f.start + i)) :=
  Bytes.testBit_getBits ..

end Field
end LineExchange
