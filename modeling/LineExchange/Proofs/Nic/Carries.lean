import LineExchange.Nic
import LineExchange.Proofs.Header.RoundTrip
import LineExchange.Proofs.Layout.Views

/-!
# LineExchange.Proofs.Nic.Carries

Which packet a raw transaction carries: the one that a host finds who reads its control line and
then its overflow bytes. What is encoded carries its wire form and its payload
(`Carries.of_encode`).
-/

namespace LineExchange

/-- The raw transaction carries the packet, whose payload is within the capacity. -/
structure Carries (f : Format) (capacity : Nat) (raw : RawTransaction) (p : Packet) : Prop where
  header : f.decode raw.control = ⟨true, p.payload.size, p.transaction⟩
  fits : p.payload.size ≤ capacity
  overflow : raw.overflow.size = p.payload.size - inlineSize
  payload : raw.control.inline.slice 0 p.payload.size ++ raw.overflow = p.payload

/-- It carries only one. -/
theorem Carries.unique {f : Format} {capacity : Nat} {raw : RawTransaction} {p q : Packet}
    (hp : Carries f capacity raw p) (hq : Carries f capacity raw q) : p = q := by
  obtain ⟨-, hsize, htransaction⟩ := Header.mk.inj (hp.header.symm.trans hq.header)
  have hpayload : p.payload = q.payload := by
    rw [← hp.payload, ← hq.payload, hsize]
  cases p
  cases q
  cases htransaction
  cases hpayload
  rfl

/-- A payload split into the bytes in the line and the others is put together again. -/
theorem Bytes.join_split (b : Bytes) (n : Nat) :
    (b.slice 0 n ++ Bytes.zeros (n - (b.slice 0 n).size)).slice 0 b.size ++
      b.slice n (b.size - n) = b := by
  have hsize : ((b.slice 0 n ++ Bytes.zeros (n - (b.slice 0 n).size)).slice 0 b.size).size =
      min n b.size := by
    simp only [Bytes.size_slice, ByteArray.size_append, Bytes.size_zeros]
    omega
  refine Bytes.ext_byteAt ?_ fun i hi => ?_
  · rw [ByteArray.size_append, hsize, Bytes.size_slice]
    omega
  · rw [ByteArray.size_append, hsize, Bytes.size_slice] at hi
    rw [Bytes.byteAt_append, hsize]
    by_cases hlt : i < min n b.size
    · rw [if_pos hlt, Bytes.byteAt_slice, if_pos (by omega), Nat.zero_add, Bytes.byteAt_append,
        Bytes.size_slice, if_pos (by omega), Bytes.byteAt_slice, if_pos (by omega), Nat.zero_add]
    · rw [if_neg hlt, Bytes.byteAt_slice, if_pos (by omega)]
      congr 1
      omega

theorem Carries.of_encode {f : Format} (ha : f.Accepted) {capacity : Nat} {t : Transaction}
    {payload : Bytes} {line : Line} (hfits : payload.size ≤ capacity)
    (h : f.encode t payload.size (payload.slice 0 inlineSize) = .ok line) :
    Carries f capacity ⟨line, payload.slice inlineSize (payload.size - inlineSize)⟩
      ⟨f.wireForm t, payload⟩ where
  header := Format.decode_encode ha h
  fits := hfits
  overflow := by
    rw [Bytes.size_slice, Nat.min_self]
  payload := by
    rw [Format.inline_encode ha h]
    exact Bytes.join_split payload inlineSize

end LineExchange
