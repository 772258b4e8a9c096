import LineExchange.Proofs.Header.Selected
import LineExchange.Proofs.Header.Survival

/-!
# LineExchange.Proofs.Header.Canonical

Encoding what was decoded. A line whose codes are known (`Format.Known`) is written again from
its header and its payload half (`Format.reencode`). The new line says the same and is canonical:
bits that no part of its header covers are gone, and writing it once more changes nothing.

* `encode_wireForm`: cutting and padding a transaction before it is encoded makes no difference,
  since the encoder does both. So a line that `encode` made is made again from what it says
  (`reencode_encode`).
* `encodable_transactionOf`: what was decoded is encodable exactly if the codes are known.
* `keeps_transactionOf`: it never has more than a header keeps.
* `reencode_exact`: when writing again succeeds and what comes of it.
-/

namespace LineExchange

/-! ## Writes that come to the same -/

/-- A field takes the low bits of a value. -/
theorem Field.put_mod (g : Field) (b : Bytes) (v : Nat) :
    g.put b (v % 2 ^ g.width.toNat) = g.put b v := by
  refine Bytes.ext_bit (by rw [size_put, size_put]) fun n => ?_
  rw [bit_put, bit_put]
  refine ite_congr rfl (fun hn => ?_) fun _ => rfl
  have hin : n - g.start < g.width.toNat := by
    simp only [start, stop] at hn ⊢
    omega
  rw [Nat.testBit_mod_two_pow, decide_eq_true hin, Bool.true_and]

theorem Line.bit_put {g : Field} {n : Nat} (hn : g.start ≤ n ∧ n < g.stop)
    (hg : g.stop ≤ 8 * lineSize) (l : Line) (v : Nat) :
    (l.put g v).bytes.bit n = v.testBit (n - g.start) :=
  (Field.bit_put g l.bytes v n).trans (if_pos (by rw [l.size_bytes]; omega))

theorem Line.put_mod (l : Line) (g : Field) (v : Nat) :
    l.put g (v % 2 ^ g.width.toNat) = l.put g v := by
  simp only [put, Field.put_mod]

/-- Zeros written into a window that was zero. -/
theorem Line.patch_padded {l : Line} {src : Bytes} {pos len : Nat} (hlen : src.size ≤ len)
    (hf : pos + len ≤ lineSize) (hz : l.bytes.slice pos len = .zeros len) :
    l.patch pos (src ++ .zeros (len - src.size)) = l.patch pos src := by
  have hzero (i : Nat) (h0 : pos ≤ i) (h1 : i < pos + len) : l.bytes.byteAt i = 0 := by
    have hi := congrArg (Bytes.byteAt · (i - pos)) hz
    simp only [Bytes.byteAt_slice, Bytes.byteAt_zeros] at hi
    rwa [if_pos (by omega), show pos + (i - pos) = i by omega] at hi
  have hsize : (src ++ Bytes.zeros (len - src.size)).size = len := by
    rw [ByteArray.size_append, Bytes.size_zeros]
    omega
  have hroom := l.size_bytes
  have hbytes : l.bytes.patch pos (src ++ .zeros (len - src.size)) = l.bytes.patch pos src := by
    refine Bytes.ext_byteAt (by rw [Bytes.size_patch, Bytes.size_patch]) fun i _ => ?_
    rw [Bytes.byteAt_patch (by omega), Bytes.byteAt_patch (by omega), hsize, Bytes.byteAt_append]
    by_cases hsrc : pos ≤ i ∧ i < pos + src.size
    · rw [if_pos (by omega), if_pos (by omega), if_pos hsrc]
    · rw [if_neg hsrc]
      by_cases hwin : pos ≤ i ∧ i < pos + len
      · rw [if_pos hwin, if_neg (by omega), Bytes.byteAt_zeros, hzero i hwin.1 hwin.2]
      · rw [if_neg hwin]
  simp only [patch, hbytes]

namespace Format

variable {f : Format}

/-- The window for the words is still zero when they are written. -/
theorem rpcLine_wireRpc (ha : f.Accepted) (tag : UInt64) {r : Rpc}
    (hlen : r.words.len ≤ f.argsSize) : f.rpcLine tag (f.wireRpc r) = f.rpcLine tag r := by
  have hwin := ha.args_le
  have hsize := r.words.size_toBytes
  have hfit : f.argsOffset.toNat + f.argsSize ≤ lineSize := window_fits (Nat.le_refl _) hwin
  have hptr : (f.wireRpc r).funcPtr.toNat = r.funcPtr.toNat % 2 ^ f.funcPtr.width.toNat :=
    UInt64.toNat_ofNat_of_lt' (Nat.lt_of_le_of_lt (Nat.mod_le ..) r.funcPtr.toNat_lt)
  have hxid : (f.wireRpc r).xid.toNat = r.xid.toNat % 2 ^ f.xid.width.toNat :=
    UInt32.toNat_ofNat_of_lt' (Nat.lt_of_le_of_lt (Nat.mod_le ..) r.xid.toNat_lt)
  have hwords : (f.wireRpc r).words.toBytes =
      r.words.toBytes ++ .zeros (f.argsSize - r.words.toBytes.size) := by
    rw [hsize]
    exact InlineBytes.toBytes_padTo hlen (by omega)
  have tyArgs : f.tyPart.Apart f.argsPart := ha.ty_apart _ (by simp [privateParts])
  rw [rpcLine, rpcLine, hptr, hxid, hwords, Line.put_mod, Line.put_mod]
  refine Line.patch_padded (hsize ▸ hlen) hfit ?_
  rw [Line.slice_put_apart ha.xid_args, Line.slice_put_apart ha.funcPtr_args,
    Line.slice_put_apart tyArgs]
  exact Line.slice_zero hfit

theorem writeTransaction_wireForm (ha : f.Accepted) {t : Transaction} {l : Line}
    (h : f.writeTransaction t = .ok l) : f.writeTransaction (f.wireForm t) = .ok l := by
  have rpc (tag : UInt64) (r : Rpc) (h : f.writeRpc tag r = .ok l) :
      f.writeRpc tag (f.wireRpc r) = .ok l := by
    obtain ⟨hlen, rfl⟩ := writeRpc_eq_ok.1 h
    have hpad : (f.wireRpc r).words.len = f.argsSize :=
      InlineBytes.len_padTo hlen (by have := ha.args_le; omega)
    exact writeRpc_eq_ok.2 ⟨Nat.le_of_eq hpad, (rpcLine_wireRpc ha tag hlen).symm⟩
  cases t with
  | bypass kind header => exact h
  | call r => exact rpc f.tags.call r h
  | reply r => exact rpc f.tags.reply r h
  | error tag => cases h

theorem complete_padded (ha : f.Accepted) {inline : Bytes} (hi : inline.size ≤ inlineSize)
    {l : Line} (length : Nat) (hz : l.inline = .zeros inlineSize) :
    f.complete l length (inline ++ .zeros (inlineSize - inline.size)) =
      f.complete l length inline := by
  refine Line.patch_padded hi (by decide) ?_
  exact (Line.inline_put (valid_in ha).stop_le _ 1).trans
    ((Line.inline_put ha.len_in.stop_le l length).trans hz)

/-- Encoding what comes back of a transaction and of its payload gives the same line. -/
theorem encode_wireForm (ha : f.Accepted) {t : Transaction} {length : Nat} {inline : Bytes}
    {l : Line} (h : f.encode t length inline = .ok l) :
    f.encode (f.wireForm t) length (inline ++ .zeros (inlineSize - inline.size)) = .ok l := by
  obtain ⟨hi, hmax, written, hw, rfl⟩ := encode_eq_ok.1 h
  have hsize : (inline ++ Bytes.zeros (inlineSize - inline.size)).size ≤ inlineSize := by
    rw [ByteArray.size_append, Bytes.size_zeros]
    omega
  have hz := (writeTransaction_parts ha hw).2.1
  exact encode_eq_ok.2 ⟨hsize, hmax, written, writeTransaction_wireForm ha hw,
    (complete_padded ha hi length hz).symm⟩

/-! ## What was decoded -/

/-- The codes in a line are known. A call or reply has no header code. -/
def Known (f : Format) (l : Line) : Prop :=
  f.ty.get l.bytes ∈ [f.tags.bypass, f.tags.call, f.tags.reply].map UInt64.toNat ∧
    (f.ty.get l.bytes = f.tags.bypass.toNat →
      f.hdrTy.get l.bytes ∈ [f.tags.ethernet, f.tags.ip, f.tags.udp].map UInt64.toNat)

/-- The line that says what `l` says, written anew. -/
def reencode (f : Format) (l : Line) : Except EncodeError Line :=
  f.encode (f.decode l).transaction (f.decode l).length l.inline

theorem headerKind_known (f : Format) (code : Nat) :
    (f.headerKind code = .ethernet ∨ f.headerKind code = .ip ∨ f.headerKind code = .udp) ↔
      code ∈ [f.tags.ethernet, f.tags.ip, f.tags.udp].map UInt64.toNat := by
  simp only [List.map_cons, List.map_nil, List.mem_cons, List.not_mem_nil, or_false]
  unfold headerKind
  by_cases hethernet : code = f.tags.ethernet.toNat
  · rw [if_pos hethernet]
    exact iff_of_true (.inl rfl) (.inl hethernet)
  · rw [if_neg hethernet]
    by_cases hip : code = f.tags.ip.toNat
    · rw [if_pos hip]
      exact iff_of_true (.inr (.inl rfl)) (.inr (.inl hip))
    · rw [if_neg hip]
      by_cases hudp : code = f.tags.udp.toNat
      · rw [if_pos hudp]
        exact iff_of_true (.inr (.inr rfl)) (.inr (.inr hudp))
      · rw [if_neg hudp]
        simp [hethernet, hip, hudp]

theorem encodable_transactionOf (ha : f.Accepted) (l : Line) :
    f.Encodable (f.transactionOf l) ↔ f.Known l := by
  have hsized := sized_transactionOf ha l
  obtain ⟨hbc, hbr, -⟩ := tags_differ ha
  simp only [Known, List.map_cons, List.map_nil, List.mem_cons, List.not_mem_nil, or_false]
  unfold transactionOf at hsized ⊢
  dsimp only at hsized ⊢
  by_cases hbypass : f.ty.get l.bytes = f.tags.bypass.toNat
  · rw [if_pos hbypass] at hsized ⊢
    simp only [hbypass, true_or, true_and, forall_const]
    have hkind := headerKind_known f (f.hdrTy.get l.bytes)
    simp only [List.map_cons, List.map_nil, List.mem_cons, List.not_mem_nil, or_false] at hkind
    exact (and_iff_left hsized).trans hkind
  · rw [if_neg hbypass] at hsized ⊢
    simp only [hbypass, false_or, false_implies, and_true]
    by_cases hcall : f.ty.get l.bytes = f.tags.call.toNat
    · rw [if_pos hcall] at hsized ⊢
      exact iff_of_true (Nat.le_of_eq hsized) (.inl hcall)
    · rw [if_neg hcall] at hsized ⊢
      by_cases hreply : f.ty.get l.bytes = f.tags.reply.toNat
      · rw [if_pos hreply] at hsized ⊢
        exact iff_of_true (Nat.le_of_eq hsized) (.inr hreply)
      · rw [if_neg hreply]
        exact iff_of_false id (not_or.2 ⟨hcall, hreply⟩)

/-- An xid field wider than the 32 bits that are kept loses its high bits in decoding. -/
theorem keeps_rpcOf (ha : f.Accepted) (l : Line) :
    (f.rpcOf l).funcPtr.toNat ≤ f.funcPtr.maxValue ∧ (f.rpcOf l).xid.toNat ≤ f.xid.maxValue ∧
      (f.rpcOf l).words.len = f.argsSize := by
  have hptr : (f.rpcOf l).funcPtr.toNat ≤ f.funcPtr.get l.bytes := by
    rw [rpcOf, UInt64.toNat_ofNat']
    exact Nat.mod_le ..
  have hxid : (f.rpcOf l).xid.toNat ≤ f.xid.get l.bytes := by
    rw [rpcOf, UInt32.toNat_ofNat']
    exact Nat.mod_le ..
  exact ⟨Nat.le_trans hptr (Field.get_le_maxValue ha.funcPtr_in.width_le _),
    Nat.le_trans hxid (Field.get_le_maxValue ha.xid_in.width_le _), len_take_window l ha.args_le⟩

theorem keeps_transactionOf (ha : f.Accepted) (l : Line) : f.Keeps (f.transactionOf l) := by
  unfold transactionOf
  dsimp only
  split
  · trivial
  · split
    · exact keeps_rpcOf ha l
    · split
      · exact keeps_rpcOf ha l
      · trivial

/-! ## Writing it again -/

theorem reencode_isOk (ha : f.Accepted) (l : Line) :
    (∃ l', f.reencode l = .ok l') ↔ f.Known l := by
  have hinline : l.inline.size ≤ inlineSize := Nat.le_of_eq l.size_inline
  have hlen : (f.decode l).length ≤ f.maxLength := Field.get_le_maxValue ha.len_in.width_le l.bytes
  rw [reencode, encode_isOk]
  simp only [hinline, hlen, true_and]
  exact encodable_transactionOf ha l

theorem reencode_encode (ha : f.Accepted) {t : Transaction} {length : Nat} {inline : Bytes}
    {l : Line} (h : f.encode t length inline = .ok l) : f.reencode l = .ok l := by
  rw [reencode, decode_encode ha h, inline_encode ha h]
  exact encode_wireForm ha h

theorem decode_reencode (ha : f.Accepted) {l l' : Line} (h : f.reencode l = .ok l') :
    f.decode l' = { f.decode l with valid := true } := by
  have hencodable : f.Encodable (f.transactionOf l) :=
    (encodable_transactionOf ha l).2 ((reencode_isOk ha l).1 ⟨l', h⟩)
  have hkept : f.wireForm (f.transactionOf l) = f.transactionOf l :=
    (wireForm_eq_self ha hencodable).2 (keeps_transactionOf ha l)
  exact (decode_encode ha h).trans (congrArg (Header.mk true (f.decode l).length) hkept)

theorem inline_reencode (ha : f.Accepted) {l l' : Line} (h : f.reencode l = .ok l') :
    l'.inline = l.inline := by
  have hnone : Bytes.zeros (inlineSize - l.inline.size) = .empty := by
    rw [l.size_inline, Nat.sub_self]
    rfl
  rw [inline_encode ha h, hnone, ByteArray.append_empty]

/-- **Encoding undoes decoding.** Exactly the lines with known codes are written again from what
they say. The new line is valid and says the same, it has the same payload half, and writing it
again gives itself. A line that `encode` made is written again as it is. -/
theorem reencode_exact (hf : f.check = .ok ()) :
    (∀ l, (∃ l', f.reencode l = .ok l') ↔ f.Known l) ∧
    (∀ l l', f.reencode l = .ok l' → f.decode l' = { f.decode l with valid := true } ∧
      l'.inline = l.inline ∧ f.reencode l' = .ok l') ∧
    ∀ t length inline l, f.encode t length inline = .ok l →
      f.Known l ∧ f.reencode l = .ok l := by
  have ha := check_eq_ok.1 hf
  refine ⟨reencode_isOk ha, fun l l' h => ?_, fun t length inline l h => ?_⟩
  · exact ⟨decode_reencode ha h, inline_reencode ha h, reencode_encode ha h⟩
  · have hagain := reencode_encode ha h
    exact ⟨(reencode_isOk ha l).1 ⟨l, hagain⟩, hagain⟩

/-- A call with bit 22 set, which no part of its header covers and which is gone when the call is
written again. -/
theorem reencode_exact_stray :
    let stray : Line := (Line.zero.put ({} : Format).ty 2).put ⟨22, 1⟩ 1
    ({} : Format).check = .ok () ∧ stray.bytes.bit 22 = true ∧
    ∃ l, ({} : Format).reencode stray = .ok l ∧
      ({} : Format).decode l = { ({} : Format).decode stray with valid := true } ∧
      l.inline = stray.inline ∧ ({} : Format).reencode l = .ok l ∧ l.bytes.bit 22 = false := by
  intro stray
  have hf : ({} : Format).check = .ok () := rfl
  have hty : ({} : Format).ty.get stray.bytes = 2 :=
    (Line.get_put_apart (by decide) _ 1).trans (Line.get_put (by decide) .zero 2)
  have hset : stray.bytes.bit 22 = true := Line.bit_put (by decide) (by decide) _ 1
  have hcall : ({} : Format).transactionOf stray = .call (({} : Format).rpcOf stray) := by
    rw [transactionOf, hty]
    rfl
  have hparts : ({} : Format).partsOf (.call (({} : Format).rpcOf stray)) =
      [⟨"valid", 0, 1⟩, ⟨"len", 1, 15⟩, ⟨"ty", 15, 19⟩, ⟨"func_ptr", 64, 128⟩, ⟨"xid", 128, 160⟩,
        ⟨"rpc_args", 160, 512⟩] := rfl
  obtain ⟨hok, hall, -⟩ := reencode_exact hf
  obtain ⟨l, hl⟩ := (hok stray).2
    ⟨by rw [hty]; decide, fun h => absurd (hty.symm.trans h) (by decide)⟩
  obtain ⟨hdecode, hinline, hagain⟩ := hall stray l hl
  refine ⟨hf, hset, l, hl, hdecode, hinline, hagain, ?_⟩
  refine bit_encode (check_eq_ok.1 hf) hl (by decide) ?_
  show ∀ p ∈ ({} : Format).partsOf (({} : Format).transactionOf stray), ¬p.Covers 22
  rw [hcall, hparts]
  simp [HeaderPart.Covers]

end Format
end LineExchange
