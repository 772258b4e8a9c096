import LineExchange.Line
import LineExchange.Text

/-!
# LineExchange.Transaction.InlineBytes

The bytes a transaction carries inside the header: a buffer of header size and how much of it is
used. The rest of the buffer is zero, so two values are equal exactly when their used bytes are
(`ext_toBytes`).
-/

namespace LineExchange

/-- Up to 64 bytes carried in a header. -/
structure InlineBytes where
  buffer : Bytes
  /-- Bytes in use. -/
  len : Nat
  size_buffer : buffer.size = headerSize
  len_le : len ≤ headerSize
  byteAt_of_len_le : ∀ i, len ≤ i → buffer.byteAt i = 0

namespace InlineBytes

/-- Equality looks at the whole buffer. -/
instance : DecidableEq InlineBytes := fun a b =>
  if h : a.buffer = b.buffer ∧ a.len = b.len then
    .isTrue (by cases a; cases b; simp_all)
  else .isFalse fun e => h ⟨by rw [e], by rw [e]⟩

def toBytes (x : InlineBytes) : Bytes := x.buffer.slice 0 x.len

/-- `n` zero bytes; at most a header full. -/
def zeroed (n : Nat) : InlineBytes where
  buffer := .zeros headerSize
  len := min n headerSize
  size_buffer := Bytes.size_zeros _
  len_le := Nat.min_le_right ..
  byteAt_of_len_le i _ := Bytes.byteAt_zeros _ i

/-- A header has room for the first bytes of anything. -/
theorem slice_fits_header (b : Bytes) :
    0 + (b.slice 0 headerSize).size ≤ (Bytes.zeros headerSize).size := by
  rw [Bytes.size_slice, Bytes.size_zeros]
  omega

/-- The bytes of `b`; at most a header full. -/
def take (b : Bytes) : InlineBytes where
  buffer := (Bytes.zeros headerSize).patch 0 (b.slice 0 headerSize)
  len := min b.size headerSize
  size_buffer := by simp
  len_le := Nat.min_le_right ..
  byteAt_of_len_le i hi := by
    rw [Bytes.byteAt_patch (slice_fits_header b), if_neg, Bytes.byteAt_zeros]
    rw [Bytes.size_slice]
    omega

/-- The bytes of `b`, if a header can hold them. -/
def ofBytes? (b : Bytes) : Option InlineBytes := if b.size ≤ headerSize then some (take b) else none

instance : Inhabited InlineBytes := ⟨zeroed 0⟩

/-- `x` with `src` written over its bytes from `start`; nothing happens if it would not fit in
the bytes in use. -/
def patch (x : InlineBytes) (start : Nat) (src : Bytes) : InlineBytes where
  buffer := if start + src.size ≤ x.len then x.buffer.patch start src else x.buffer
  len := x.len
  size_buffer := by
    split
    · rw [Bytes.size_patch, x.size_buffer]
    · exact x.size_buffer
  len_le := x.len_le
  byteAt_of_len_le i hi := by
    split
    · have hl := x.len_le
      rw [Bytes.byteAt_patch (by rw [x.size_buffer]; omega), if_neg (by omega)]
      exact x.byteAt_of_len_le i hi
    · exact x.byteAt_of_len_le i hi

/-- The number with the four bytes of `b` from `start`, lowest first. -/
def littleEndian (b : Bytes) (start : Nat) : UInt32 :=
  UInt32.ofNat ((b.byteAt start).toNat + 0x100 * (b.byteAt (start + 1)).toNat +
    0x10000 * (b.byteAt (start + 2)).toNat + 0x1000000 * (b.byteAt (start + 3)).toNat)

/-- The four bytes of a number, lowest first. -/
def wordBytes (w : UInt32) : Bytes := Bytes.ofFn 4 fun i => UInt8.ofNat (w.toNat >>> (8 * i))

/-- The `i`-th 32-bit word. Bytes behind the last whole word belong to none. -/
def word? (x : InlineBytes) (i : Nat) : Option UInt32 :=
  if 4 * (i + 1) ≤ x.len then some (littleEndian x.buffer (4 * i)) else none

def words (x : InlineBytes) : List UInt32 :=
  (List.range (x.len / 4)).map fun i => littleEndian x.buffer (4 * i)

/-- Whether `x` has an `i`-th word, and `x` with that word replaced. -/
def setWord (x : InlineBytes) (i : Nat) (w : UInt32) : Bool × InlineBytes :=
  (4 * (i + 1) ≤ x.len, x.patch (4 * i) (wordBytes w))

/-- `x` with the byte at `i` replaced, if it is in use. -/
def setByte? (x : InlineBytes) (i : Nat) (v : UInt8) : Option InlineBytes :=
  if i < x.len then some (x.patch i (.replicate 1 v)) else none

/-- The bytes as a list of numbers. -/
def shown (x : InlineBytes) : String :=
  Text.listing (x.toBytes.toList.map fun v => toString v.toNat)

theorem size_toBytes (x : InlineBytes) : x.toBytes.size = x.len := by
  have h := x.len_le
  rw [toBytes, Bytes.size_slice, x.size_buffer]
  omega

theorem byteAt_toBytes (x : InlineBytes) (i : Nat) : x.toBytes.byteAt i = x.buffer.byteAt i := by
  rw [toBytes, Bytes.byteAt_slice, Nat.zero_add]
  split
  · rfl
  · exact (x.byteAt_of_len_le i (by omega)).symm

theorem ext_toBytes {x y : InlineBytes} (h : x.toBytes = y.toBytes) : x = y := by
  have hl : x.len = y.len := by rw [← size_toBytes, h, size_toBytes]
  have hb : x.buffer = y.buffer :=
    Bytes.ext_byteAt (by rw [x.size_buffer, y.size_buffer]) fun i _ => by
      rw [← byteAt_toBytes, h, byteAt_toBytes]
  cases x
  cases y
  simp_all

theorem toBytes_take {b : Bytes} (h : b.size ≤ headerSize) : (take b).toBytes = b := by
  have hs : (take b).len = b.size := Nat.min_eq_left h
  refine Bytes.ext_byteAt (by rw [size_toBytes, hs]) fun i hi => ?_
  rw [size_toBytes, hs] at hi
  rw [byteAt_toBytes]
  simp only [take]
  rw [Bytes.byteAt_patch (slice_fits_header b), if_pos (by rw [Bytes.size_slice]; omega),
    Bytes.byteAt_slice, if_pos (by omega), Nat.zero_add, Nat.sub_zero]

end InlineBytes
end LineExchange
