/-!
# LineExchange.Bytes

Byte strings and the two things done to them: a slice is read (`slice`) and a slice is
overwritten (`patch`). The view is `byteAt`, which is 0 past the end. Overwriting keeps the size
(`size_patch`), puts the new bytes in their place and leaves the others alone (`byteAt_patch`).
Two strings of one size with the same view are equal (`ext_byteAt`).
-/

namespace LineExchange

abbrev Bytes := ByteArray

namespace Bytes

/-- Equality compares byte by byte. -/
instance : DecidableEq Bytes := ByteArray.instDecidableEq

/-- The byte at `i`; 0 past the end. -/
def byteAt (b : Bytes) (i : Nat) : UInt8 := if h : i < b.size then b[i] else 0

def replicate (n : Nat) (v : UInt8) : Bytes := ⟨Array.replicate n v⟩

def zeros (n : Nat) : Bytes := replicate n 0

/-- The bytes `f 0`, `f 1`, … `f (n - 1)`. -/
def ofFn (n : Nat) (f : Nat → UInt8) : Bytes := ⟨Array.ofFn fun i : Fin n => f i.val⟩

/-- `b` with the byte at `i` replaced; nothing happens past the end. -/
def put (b : Bytes) (i : Nat) (v : UInt8) : Bytes := if h : i < b.size then b.set i v h else b

/-- The `len` bytes from `start`, or as many as there are. -/
def slice (b : Bytes) (start len : Nat) : Bytes := b.extract start (start + len)

/-- `b` with `src` written over the bytes from `start`; nothing happens if it would not fit. -/
def patch (b : Bytes) (start : Nat) (src : Bytes) : Bytes :=
  if start + src.size ≤ b.size then src.copySlice 0 b start src.size else b

theorem byteAt_of_lt {b : Bytes} {i : Nat} (h : i < b.size) : b.byteAt i = b[i] := dif_pos h

theorem byteAt_of_le {b : Bytes} {i : Nat} (h : b.size ≤ i) : b.byteAt i = 0 :=
  dif_neg (Nat.not_lt.2 h)

theorem ext_byteAt {a b : Bytes} (hs : a.size = b.size)
    (h : ∀ i, i < a.size → a.byteAt i = b.byteAt i) : a = b := by
  refine ByteArray.ext_getElem hs fun i ha hb => ?_
  rw [← byteAt_of_lt ha, ← byteAt_of_lt hb]
  exact h i ha

@[simp] theorem size_replicate (n : Nat) (v : UInt8) : (replicate n v).size = n := by
  simp [replicate, ByteArray.size]

theorem byteAt_replicate (n : Nat) (v : UInt8) (i : Nat) :
    (replicate n v).byteAt i = if i < n then v else 0 := by
  by_cases h : i < n
  · rw [byteAt_of_lt (by simpa using h), if_pos h, ByteArray.getElem_eq_getElem_data]
    simp [replicate]
  · rw [byteAt_of_le (by simpa using h), if_neg h]

@[simp] theorem size_zeros (n : Nat) : (zeros n).size = n := size_replicate n 0

@[simp] theorem byteAt_zeros (n i : Nat) : (zeros n).byteAt i = 0 := by
  simp [zeros, byteAt_replicate]

@[simp] theorem size_ofFn (n : Nat) (f : Nat → UInt8) : (ofFn n f).size = n := by
  simp [ofFn, ByteArray.size]

theorem byteAt_ofFn (n : Nat) (f : Nat → UInt8) (i : Nat) :
    (ofFn n f).byteAt i = if i < n then f i else 0 := by
  by_cases h : i < n
  · rw [byteAt_of_lt (by simpa using h), if_pos h, ByteArray.getElem_eq_getElem_data]
    simp [ofFn]
  · rw [byteAt_of_le (by simpa using h), if_neg h]

@[simp] theorem size_put (b : Bytes) (i : Nat) (v : UInt8) : (b.put i v).size = b.size := by
  unfold put
  split
  · rw [← ByteArray.size_data, ByteArray.data_set, Array.size_set, ByteArray.size_data]
  · rfl

theorem byteAt_put (b : Bytes) (i : Nat) (v : UInt8) (j : Nat) :
    (b.put i v).byteAt j = if j = i ∧ i < b.size then v else b.byteAt j := by
  by_cases hi : i < b.size
  · by_cases hj : j < b.size
    · have hs : j < (b.put i v).size := by simpa using hj
      rw [byteAt_of_lt hs, byteAt_of_lt hj]
      simp only [put, hi, dite_true, ByteArray.getElem_eq_getElem_data, ByteArray.data_set,
        Array.getElem_set, and_true]
      exact ite_congr (propext eq_comm) (fun _ => rfl) fun _ => rfl
    · have hne : ¬j = i := by omega
      rw [byteAt_of_le (by simpa using hj), byteAt_of_le (Nat.not_lt.1 hj)]
      simp [hne]
  · simp [put, hi]

@[simp] theorem size_slice (b : Bytes) (start len : Nat) :
    (b.slice start len).size = min len (b.size - start) := by
  simp only [slice, ByteArray.size_extract]
  omega

theorem byteAt_slice (b : Bytes) (start len i : Nat) :
    (b.slice start len).byteAt i = if i < len then b.byteAt (start + i) else 0 := by
  by_cases h : i < (b.slice start len).size
  · have hi := h
    rw [size_slice] at hi
    rw [byteAt_of_lt h, if_pos (by omega), byteAt_of_lt (by omega)]
    exact ByteArray.getElem_extract h
  · have hi := h
    rw [size_slice] at hi
    rw [byteAt_of_le (Nat.not_lt.1 h)]
    split
    · rw [byteAt_of_le (by omega)]
    · rfl

theorem slice_zero_size (b : Bytes) : b.slice 0 b.size = b := by
  refine ext_byteAt (by simp) fun i h => ?_
  rw [byteAt_slice, if_pos (by simpa using h), Nat.zero_add]

theorem copySlice_eq (src b : Bytes) (start : Nat) :
    src.copySlice 0 b start src.size =
      b.extract 0 start ++ src ++ b.extract (start + src.size) b.size := by
  apply ByteArray.ext
  simp only [ByteArray.copySlice, ByteArray.data_append, ByteArray.data_extract, Nat.zero_add,
    Nat.sub_zero, ByteArray.size_data, Nat.min_self]
  congr 2
  rw [← ByteArray.size_data, Array.extract_size]

@[simp] theorem size_patch (b : Bytes) (start : Nat) (src : Bytes) :
    (b.patch start src).size = b.size := by
  unfold patch
  split
  · rw [copySlice_eq]
    simp only [ByteArray.size_append, ByteArray.size_extract]
    omega
  · rfl

theorem byteAt_patch {b : Bytes} {start : Nat} {src : Bytes} (h : start + src.size ≤ b.size)
    (i : Nat) :
    (b.patch start src).byteAt i =
      if start ≤ i ∧ i < start + src.size then src.byteAt (i - start) else b.byteAt i := by
  by_cases hi : i < b.size
  · have hs : i < (b.patch start src).size := by simpa using hi
    have hp : b.patch start src =
        b.extract 0 start ++ src ++ b.extract (start + src.size) b.size := by
      rw [patch, if_pos h, copySlice_eq]
    have h0 : (b.extract 0 start).size = start := by
      simp only [ByteArray.size_extract]
      omega
    have h1 : (b.extract 0 start ++ src).size = start + src.size := by
      rw [ByteArray.size_append, h0]
    rw [byteAt_of_lt hs]
    simp only [hp]
    by_cases hl : i < start
    · rw [ByteArray.getElem_append_left (by omega), ByteArray.getElem_append_left (by omega),
        ByteArray.getElem_extract, if_neg (by omega), byteAt_of_lt hi]
      simp
    · by_cases hr : i < start + src.size
      · rw [ByteArray.getElem_append_left (by omega), ByteArray.getElem_append_right (by omega),
          if_pos ⟨by omega, hr⟩, byteAt_of_lt (by omega)]
        simp only [h0]
      · rw [ByteArray.getElem_append_right (by omega), ByteArray.getElem_extract,
          if_neg (by omega), byteAt_of_lt hi]
        simp only [h1]
        congr 1
        omega
  · rw [byteAt_of_le (by simpa using hi), if_neg (by omega), byteAt_of_le (Nat.not_lt.1 hi)]

theorem slice_patch_same {b : Bytes} {start : Nat} {src : Bytes}
    (h : start + src.size ≤ b.size) : (b.patch start src).slice start src.size = src := by
  refine ext_byteAt (by simp; omega) fun i hi => ?_
  simp only [size_slice, size_patch] at hi
  rw [byteAt_slice, if_pos (by omega), byteAt_patch h, if_pos (by omega)]
  congr 1
  omega

theorem slice_patch_of_disjoint {b : Bytes} {start : Nat} {src : Bytes} {pos len : Nat}
    (h : start + src.size ≤ b.size) (hd : pos + len ≤ start ∨ start + src.size ≤ pos) :
    (b.patch start src).slice pos len = b.slice pos len := by
  refine ext_byteAt (by simp) fun i hi => ?_
  simp only [size_slice, size_patch] at hi
  rw [byteAt_slice, byteAt_slice, if_pos (by omega), if_pos (by omega), byteAt_patch h,
    if_neg (by omega)]

end Bytes
end LineExchange
