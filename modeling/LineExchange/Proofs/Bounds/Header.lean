import LineExchange.Header.Fenced
import LineExchange.Proofs.Header.Accepted
import LineExchange.Proofs.Header.WireForm

/-!
# LineExchange.Proofs.Bounds.Header

The codec of an accepted format never meets its fence: every line is decoded
(`Format.decode?_eq`) and every transaction is encoded or refused (`Format.encode?_eq`) as without
one.
-/

namespace LineExchange

namespace Bytes

variable {b src : Bytes} {start len : Nat}

theorem slice?_eq (h : start + len ≤ b.size) (hw : start + len ≤ wordMax) :
    b.slice? start len = some (b.slice start len) := if_pos ⟨h, hw⟩

theorem copy?_eq (h : start + len ≤ b.size) (hw : start + len ≤ wordMax) (hsrc : src.size = len) :
    b.copy? start len src = some (b.patch start src) := if_pos ⟨h, hw, hsrc⟩

theorem size_slice_of_le (h : start + len ≤ b.size) : (b.slice start len).size = len := by
  rw [size_slice]
  omega

/-- As many bytes from the start as there are. -/
theorem slice?_start (hw : b.size ≤ wordMax) :
    b.slice? 0 (min len b.size) = some (b.slice 0 len) := by
  have heq : b.slice 0 (min len b.size) = b.slice 0 len := by
    refine ext_byteAt (by simp) ?_
    intro i hi
    rw [size_slice] at hi
    rw [byteAt_slice, byteAt_slice, if_pos (by omega), if_pos (by omega)]
  rw [slice?_eq (by omega) (by omega), heq]

theorem slice_slice {n i m : Nat} (h : i + m ≤ n) : (b.slice 0 n).slice i m = b.slice i m := by
  refine ext_byteAt (by simp; omega) ?_
  intro j hj
  rw [size_slice, size_slice] at hj
  rw [byteAt_slice, byteAt_slice, byteAt_slice, if_pos (by omega), if_pos (by omega),
    if_pos (by omega), Nat.zero_add]

theorem bit_slice {n i : Nat} (h : i < 8 * n) : (b.slice 0 n).bit i = b.bit i := by
  rw [bit, bit, byteAt_slice, if_pos (by omega), Nat.zero_add]

end Bytes

theorem headerSize_le_wordMax : headerSize ≤ wordMax := by decide

theorem lineSize_le_wordMax : lineSize ≤ wordMax := by decide

namespace Field

variable {g : Field}

theorem InHeader.indexes (h : g.InHeader) : g.Indexes headerSize := by
  intro i hi
  have hstop : g.start + g.width.toNat ≤ 8 * headerSize := h.stop_le
  omega

/-- A field of the header has the same value in the header alone. -/
theorem InHeader.get?_header (h : g.InHeader) (l : Line) :
    g.get? (l.bytes.slice 0 headerSize) = some (g.get l.bytes) := by
  have hsize : (l.bytes.slice 0 headerSize).size = headerSize :=
    Bytes.size_slice_of_le (by rw [l.size_bytes]; decide)
  have hget : g.get (l.bytes.slice 0 headerSize) = g.get l.bytes := by
    refine Nat.eq_of_testBit_eq ?_
    intro i
    rw [testBit_get, testBit_get]
    by_cases hi : i < g.width.toNat
    · have hstop : g.start + g.width.toNat ≤ 8 * headerSize := h.stop_le
      rw [Bytes.bit_slice (by omega)]
    · simp [hi]
  rw [get?, hsize, if_pos h.indexes, hget]

end Field

theorem Line.slice?_inline (l : Line) :
    l.bytes.slice? inlineOffset inlineSize = some l.inline := by
  refine Bytes.slice?_eq ?_ (by decide)
  rw [l.size_bytes]
  decide

theorem Line.put?_eq {g : Field} (h : g.InHeader) (l : Line) (value : Nat) :
    l.put? g value = some (l.put g value) := if_pos h.indexes

theorem Line.copy?_eq {start len stop : Nat} {src : Bytes} (l : Line) (h : start + len ≤ stop)
    (hstop : stop ≤ wordMax) (hsrc : src.size = len) :
    l.copy? start len stop src = some (l.patch start src) :=
  if_pos ⟨h, Nat.le_trans h hstop, hsrc⟩

namespace InlineBytes

theorem copyOf?_eq {n : Nat} {src : Bytes} (hn : n ≤ headerSize) (hsrc : src.size = n) :
    copyOf? n src = some (take src) := if_pos ((Nat.min_eq_left hn).trans hsrc.symm)

theorem slice?_buffer (x : InlineBytes) : x.buffer.slice? 0 x.len = some x.toBytes := by
  have hlen : 0 + x.len ≤ headerSize := (Nat.zero_add _).symm ▸ x.len_le
  exact Bytes.slice?_eq (x.size_buffer.symm ▸ hlen) (Nat.le_trans hlen headerSize_le_wordMax)

end InlineBytes

namespace Format

variable {f : Format}

theorem valid_in (h : f.Accepted) : f.valid.InHeader := by
  rw [h.valid_eq]
  constructor <;> decide

/-- A window of the header, read from the header alone. -/
theorem slice?_header {start len : Nat} (l : Line) (h : start + len ≤ headerSize) :
    (l.bytes.slice 0 headerSize).slice? start len = some (l.bytes.slice start len) := by
  have hsize : (l.bytes.slice 0 headerSize).size = headerSize :=
    Bytes.size_slice_of_le (by rw [l.size_bytes]; decide)
  rw [Bytes.slice?_eq (hsize.symm ▸ h) (Nat.le_trans h headerSize_le_wordMax), Bytes.slice_slice h]

theorem size_window {start len : Nat} (l : Line) (h : start + len ≤ headerSize) :
    (l.bytes.slice start len).size = len := by
  refine Bytes.size_slice_of_le ?_
  rw [l.size_bytes]
  exact Nat.le_trans h (by decide)

theorem bypassOf?_eq (h : f.Accepted) (l : Line) :
    f.bypassOf? (l.bytes.slice 0 headerSize) = some (f.bypassOf l) := by
  have hwindow : f.bypassOffset.toNat + f.headerLen (f.headerKind (f.hdrTy.get l.bytes)) ≤
      headerSize := Nat.le_trans (Nat.add_le_add_left (f.headerLen_le _) _) h.bypass_le
  have hlen := Nat.le_trans (Nat.le_add_left ..) hwindow
  simp only [bypassOf?, h.hdrTy_in.get?_header, slice?_header l hwindow,
    InlineBytes.copyOf?_eq hlen (size_window l hwindow), Option.bind_eq_bind, Option.bind_some]
  rfl

theorem rpcOf?_eq (h : f.Accepted) (l : Line) :
    f.rpcOf? (l.bytes.slice 0 headerSize) = some (f.rpcOf l) := by
  have hlen := Nat.le_trans (Nat.le_add_left ..) h.args_le
  simp only [rpcOf?, slice?_header l h.args_le, InlineBytes.copyOf?_eq hlen (size_window l h.args_le),
    h.funcPtr_in.get?_header, h.xid_in.get?_header, Option.bind_eq_bind, Option.bind_some]
  rfl

theorem transactionOf?_eq (h : f.Accepted) (l : Line) :
    f.transactionOf? (l.bytes.slice 0 headerSize) = some (f.transactionOf l) := by
  simp only [transactionOf?, transactionOf, h.ty_in.get?_header, bypassOf?_eq h, rpcOf?_eq h,
    Option.bind_eq_bind, Option.bind_some]
  split
  · rfl
  · split
    · rfl
    · split <;> rfl

/-- No line makes the decoder leave the header. -/
theorem decode?_eq (h : f.Accepted) (l : Line) : f.decode? l = some (f.decode l) := by
  have hheader : 0 + headerSize ≤ l.bytes.size := by
    rw [l.size_bytes]
    decide
  simp only [decode?, Bytes.slice?_eq hheader headerSize_le_wordMax, (valid_in h).get?_header,
    transactionOf?_eq h, h.len_in.get?_header, Option.bind_eq_bind, Option.bind_some]
  rfl

theorem writeBypass?_eq (h : f.Accepted) (kind : HeaderKind) (header : InlineBytes) :
    f.writeBypass? kind header = some (f.writeBypass kind header) := by
  unfold writeBypass? writeBypass
  cases f.headerCode? kind with
  | none => rfl
  | some code =>
    dsimp only
    split
    · next hlen =>
      have hwindow : f.bypassOffset.toNat + header.len ≤ headerSize := by
        rw [hlen]
        exact Nat.le_trans (Nat.add_le_add_left (f.headerLen_le _) _) h.bypass_le
      simp only [header.slice?_buffer, Line.put?_eq h.ty_in, Line.put?_eq h.hdrTy_in,
        Line.copy?_eq _ hwindow headerSize_le_wordMax header.size_toBytes, Option.bind_eq_bind,
        Option.bind_some]
      rfl
    · rfl

theorem writeRpc?_eq (h : f.Accepted) (tag : UInt64) (rpc : Rpc) :
    f.writeRpc? tag rpc = some (f.writeRpc tag rpc) := by
  unfold writeRpc? writeRpc
  split
  · rfl
  · next hlen =>
    have hwindow : f.argsOffset.toNat + rpc.words.len ≤ headerSize :=
      Nat.le_trans (Nat.add_le_add_left (Nat.not_lt.1 hlen) _) h.args_le
    simp only [rpc.words.slice?_buffer, Line.put?_eq h.ty_in, Line.put?_eq h.funcPtr_in,
      Line.put?_eq h.xid_in, Line.copy?_eq _ hwindow headerSize_le_wordMax rpc.words.size_toBytes,
      Option.bind_eq_bind, Option.bind_some]
    rfl

theorem writeTransaction?_eq (h : f.Accepted) (t : Transaction) :
    f.writeTransaction? t = some (f.writeTransaction t) := by
  cases t with
  | bypass kind header => exact writeBypass?_eq h kind header
  | call rpc => exact writeRpc?_eq h f.tags.call rpc
  | reply rpc => exact writeRpc?_eq h f.tags.reply rpc
  | error tag => rfl

/-- No transaction makes the encoder leave the line. -/
theorem encode?_eq (h : f.Accepted) (t : Transaction) (length : Nat) (inline : Bytes) :
    f.encode? t length inline = some (f.encode t length inline) := by
  unfold encode? encode
  split
  · rfl
  · next hinline =>
    split
    · rfl
    · have hpayload : inlineOffset + inline.size ≤ lineSize := by
        have hsplit : inlineOffset + inlineSize = lineSize := rfl
        omega
      rw [writeTransaction?_eq h]
      cases f.writeTransaction t with
      | error e => rfl
      | ok l =>
        simp only [Line.put?_eq h.len_in, Line.put?_eq (valid_in h),
          Line.copy?_eq _ hpayload lineSize_le_wordMax rfl, Option.bind_eq_bind, Option.bind_some]
        rfl

end Format
end LineExchange
