import LineExchange.Proofs.Header.WireForm

/-!
# LineExchange.Proofs.Header.RoundTrip

What is encoded and decoded again.

* `bypassLine_parts`, `rpcLine_parts`: every part of a written transaction is read back from its
  line; `bit_bypassLine`, `bit_rpcLine`: the bits outside the parts are zero.
* `transactionOf_unknown`: a line with a code that is not known.
* `decode_encode`: a line that `encode` made decodes to the wire form of its transaction.
* `encode_exact`: which transactions are encoded, and everything about the lines they get.
-/

namespace LineExchange
namespace Format

variable {f : Format}

/-! ## What is written -/

def bypassLine (f : Format) (code : UInt64) (header : InlineBytes) : Line :=
  ((Line.zero.put f.ty f.tags.bypass.toNat).put f.hdrTy code.toNat).patch f.bypassOffset.toNat
    header.toBytes

def rpcLine (f : Format) (tag : UInt64) (r : Rpc) : Line :=
  (((Line.zero.put f.ty tag.toNat).put f.funcPtr r.funcPtr.toNat).put f.xid r.xid.toNat).patch
    f.argsOffset.toNat r.words.toBytes

theorem writeBypass_eq_ok {kind : HeaderKind} {header : InlineBytes} {l : Line} :
    f.writeBypass kind header = .ok l ↔ ∃ code, f.headerCode? kind = some code ∧
      header.len = f.headerLen kind ∧ l = f.bypassLine code header := by
  unfold writeBypass
  cases hc : f.headerCode? kind with
  | none => simp
  | some code =>
    by_cases hlen : header.len = f.headerLen kind
    · simp [hlen, bypassLine, eq_comm]
    · simp [hlen]

theorem writeRpc_eq_ok {tag : UInt64} {r : Rpc} {l : Line} :
    f.writeRpc tag r = .ok l ↔ r.words.len ≤ f.argsSize ∧ l = f.rpcLine tag r := by
  unfold writeRpc
  by_cases h : f.argsSize < r.words.len
  · simp [h, Nat.not_le.2 h]
  · simp [h, Nat.not_lt.1 h, rpcLine, eq_comm]

theorem tells_mod {g : Field} {codes : List UInt64} (hg : g.InHeader) (ht : g.Tells codes)
    {c : UInt64} (hc : c ∈ codes) : c.toNat % 2 ^ g.width.toNat = c.toNat := by
  have hle := (ht.fits c hc).2
  have hmax := Field.maxValue_of_le hg.width_le
  exact Nat.mod_eq_of_lt (by omega)

theorem headerKind_code (ha : f.Accepted) {kind : HeaderKind} {code : UInt64}
    (h : f.headerCode? kind = some code) : f.headerKind code.toNat = kind := by
  have hn := ha.hdrTy_tells.nodup
  simp only [List.nodup_cons, List.mem_cons, List.not_mem_nil, or_false, not_or,
    ← UInt64.toNat_inj] at hn
  obtain ⟨⟨hei, heu⟩, hiu, -⟩ := hn
  cases kind with
  | ethernet => cases h; simp [headerKind]
  | ip => cases h; simp [headerKind, Ne.symm hei]
  | udp => cases h; simp [headerKind, Ne.symm heu, Ne.symm hiu]
  | error => cases h

theorem headerCode_mem {kind : HeaderKind} {code : UInt64} (h : f.headerCode? kind = some code) :
    code ∈ [f.tags.ethernet, f.tags.ip, f.tags.udp] := by
  cases kind <;> cases h <;> simp

theorem window_fits {start len size : Nat} (hlen : len ≤ size) (h : start + size ≤ headerSize) :
    start + len ≤ lineSize := by
  simp only [headerSize, lineSize] at h ⊢
  omega

theorem bypassLine_parts (ha : f.Accepted) {kind : HeaderKind} {code : UInt64}
    {header : InlineBytes} (hc : f.headerCode? kind = some code)
    (hlen : header.len = f.headerLen kind) :
    f.ty.get (f.bypassLine code header).bytes = f.tags.bypass.toNat ∧
      f.bypassOf (f.bypassLine code header) = .bypass kind header ∧
      (f.bypassLine code header).inline = .zeros inlineSize := by
  have hsize : header.toBytes.size = f.headerLen kind := by rw [header.size_toBytes, hlen]
  have hle := f.headerLen_le kind
  have hwin := ha.bypass_le
  have hfit : f.bypassOffset.toNat + header.toBytes.size ≤ lineSize :=
    window_fits (hsize ▸ hle) hwin
  have tyHdr : f.tyPart.Apart f.hdrTyPart := ha.ty_apart _ (by simp [privateParts])
  have tyWindow : f.tyPart.Apart f.bypassPart := ha.ty_apart _ (by simp [privateParts])
  have hdrWindow : f.hdrTyPart.Apart f.bypassPart := ha.hdrTy_bypass
  simp only [HeaderPart.Apart, tyPart, hdrTyPart, bypassPart, HeaderPart.ofField,
    HeaderPart.ofWindow] at tyHdr tyWindow hdrWindow
  have hcode : f.hdrTy.get (f.bypassLine code header).bytes = code.toNat := by
    rw [bypassLine, Line.get_patch_apart hfit (by omega), Line.get_put ha.hdrTy_in.stop_le_line,
      tells_mod ha.hdrTy_in ha.hdrTy_tells (headerCode_mem hc)]
  have hwindow : (f.bypassLine code header).bytes.slice f.bypassOffset.toNat (f.headerLen kind) =
      header.toBytes := by
    rw [← hsize]
    exact Line.slice_patch hfit _
  refine ⟨?_, ?_, ?_⟩
  · rw [bypassLine, Line.get_patch_apart hfit (by omega), Line.get_put_apart tyHdr,
      Line.get_put ha.ty_in.stop_le_line, tells_mod ha.ty_in ha.ty_tells (by simp)]
  · simp only [bypassOf, hcode, headerKind_code ha hc, hwindow, InlineBytes.take_toBytes]
  · rw [bypassLine, Line.inline_patch (by omega), Line.inline_put ha.hdrTy_in.stop_le,
      Line.inline_put ha.ty_in.stop_le, Line.inline_zero]

theorem bit_bypassLine (ha : f.Accepted) {kind : HeaderKind} {code : UInt64}
    {header : InlineBytes} (hlen : header.len = f.headerLen kind) {n : Nat}
    (ht : ¬f.tyPart.Covers n) (hh : ¬f.hdrTyPart.Covers n) (hw : ¬f.bypassPart.Covers n) :
    (f.bypassLine code header).bytes.bit n = false := by
  have hsize : header.toBytes.size = f.headerLen kind := by rw [header.size_toBytes, hlen]
  have hle := f.headerLen_le kind
  have hfit : f.bypassOffset.toNat + header.toBytes.size ≤ lineSize :=
    window_fits (hsize ▸ hle) ha.bypass_le
  simp only [HeaderPart.Covers, bypassPart, HeaderPart.ofWindow] at hw
  rw [bypassLine, Line.bit_patch_apart hfit (by omega), Line.bit_put_apart hh,
    Line.bit_put_apart ht]
  exact Bytes.bit_zeros ..

theorem rpcLine_parts (ha : f.Accepted) (tag : UInt64) {r : Rpc}
    (ht : tag ∈ [f.tags.bypass, f.tags.call, f.tags.reply]) (hlen : r.words.len ≤ f.argsSize) :
    f.ty.get (f.rpcLine tag r).bytes = tag.toNat ∧ f.rpcOf (f.rpcLine tag r) = f.wireRpc r ∧
      (f.rpcLine tag r).inline = .zeros inlineSize := by
  have hsize := r.words.size_toBytes
  have hwin := ha.args_le
  have hfit : f.argsOffset.toNat + r.words.toBytes.size ≤ lineSize :=
    window_fits (hsize ▸ hlen) hwin
  have tyPtr : f.tyPart.Apart f.funcPtrPart := ha.ty_apart _ (by simp [privateParts])
  have tyXid : f.tyPart.Apart f.xidPart := ha.ty_apart _ (by simp [privateParts])
  have tyArgs : f.tyPart.Apart f.argsPart := ha.ty_apart _ (by simp [privateParts])
  have ptrXid : f.funcPtrPart.Apart f.xidPart := ha.funcPtr_xid
  have ptrArgs : f.funcPtrPart.Apart f.argsPart := ha.funcPtr_args
  have xidArgs : f.xidPart.Apart f.argsPart := ha.xid_args
  simp only [HeaderPart.Apart, tyPart, funcPtrPart, xidPart, argsPart, HeaderPart.ofField,
    HeaderPart.ofWindow] at tyPtr tyXid tyArgs ptrXid ptrArgs xidArgs
  have hptr : f.funcPtr.get (f.rpcLine tag r).bytes =
      r.funcPtr.toNat % 2 ^ f.funcPtr.width.toNat := by
    rw [rpcLine, Line.get_patch_apart hfit (by omega), Line.get_put_apart ptrXid,
      Line.get_put ha.funcPtr_in.stop_le_line]
  have hxid : f.xid.get (f.rpcLine tag r).bytes = r.xid.toNat % 2 ^ f.xid.width.toNat := by
    rw [rpcLine, Line.get_patch_apart hfit (by omega), Line.get_put ha.xid_in.stop_le_line]
  have hwords : (f.rpcLine tag r).bytes.slice f.argsOffset.toNat f.argsSize =
      r.words.toBytes ++ .zeros (f.argsSize - r.words.len) := by
    rw [← hsize]
    refine Line.slice_patch_front (hsize ▸ hlen) (window_fits (Nat.le_refl _) hwin) ?_
    rw [Line.slice_put_apart xidArgs, Line.slice_put_apart ptrArgs, Line.slice_put_apart tyArgs]
    exact Line.slice_zero (window_fits (Nat.le_refl _) hwin)
  refine ⟨?_, ?_, ?_⟩
  · rw [rpcLine, Line.get_patch_apart hfit (by omega), Line.get_put_apart tyXid,
      Line.get_put_apart tyPtr, Line.get_put ha.ty_in.stop_le_line,
      tells_mod ha.ty_in ha.ty_tells ht]
  · simp only [rpcOf, wireRpc, hptr, hxid, hwords, InlineBytes.padTo]
  · rw [rpcLine, Line.inline_patch (by omega), Line.inline_put ha.xid_in.stop_le,
      Line.inline_put ha.funcPtr_in.stop_le, Line.inline_put ha.ty_in.stop_le, Line.inline_zero]

theorem bit_rpcLine (ha : f.Accepted) {tag : UInt64} {r : Rpc} (hlen : r.words.len ≤ f.argsSize)
    {n : Nat} (ht : ¬f.tyPart.Covers n) (hp : ¬f.funcPtrPart.Covers n)
    (hx : ¬f.xidPart.Covers n) (hw : ¬f.argsPart.Covers n) :
    (f.rpcLine tag r).bytes.bit n = false := by
  have hsize := r.words.size_toBytes
  have hfit : f.argsOffset.toNat + r.words.toBytes.size ≤ lineSize :=
    window_fits (hsize ▸ hlen) ha.args_le
  simp only [HeaderPart.Covers, argsPart, HeaderPart.ofWindow] at hw
  rw [rpcLine, Line.bit_patch_apart hfit (by omega), Line.bit_put_apart hx,
    Line.bit_put_apart hp, Line.bit_put_apart ht]
  exact Bytes.bit_zeros ..

theorem tags_differ (ha : f.Accepted) :
    f.tags.bypass.toNat ≠ f.tags.call.toNat ∧ f.tags.bypass.toNat ≠ f.tags.reply.toNat ∧
      f.tags.call.toNat ≠ f.tags.reply.toNat := by
  have hn := ha.ty_tells.nodup
  simp only [List.nodup_cons, List.mem_cons, List.not_mem_nil, or_false, not_or,
    ← UInt64.toNat_inj] at hn
  exact ⟨hn.1.1, hn.1.2, hn.2.1⟩

/-- A written transaction is in its line; the payload half and all bits outside the parts of the
transaction are zero. -/
theorem writeTransaction_parts (ha : f.Accepted) {t : Transaction} {l : Line}
    (h : f.writeTransaction t = .ok l) :
    f.transactionOf l = f.wireForm t ∧ l.inline = .zeros inlineSize ∧
      ∀ n, (∀ p ∈ f.tyPart :: f.groupParts t, ¬p.Covers n) → l.bytes.bit n = false := by
  obtain ⟨hbc, hbr, hcr⟩ := tags_differ ha
  cases t with
  | bypass kind header =>
    obtain ⟨code, hc, hlen, rfl⟩ := writeBypass_eq_ok.1 h
    obtain ⟨hty, hof, hinline⟩ := bypassLine_parts ha hc hlen
    refine ⟨by simp [transactionOf, hty, hof, wireForm], hinline, fun n hn => ?_⟩
    exact bit_bypassLine ha hlen (hn _ (by simp)) (hn _ (by simp [groupParts]))
      (hn _ (by simp [groupParts]))
  | call r =>
    obtain ⟨hlen, rfl⟩ := writeRpc_eq_ok.1 h
    obtain ⟨hty, hof, hinline⟩ := rpcLine_parts ha f.tags.call (by simp) hlen
    refine ⟨by simp [transactionOf, hty, hof, wireForm, hbc.symm], hinline, fun n hn => ?_⟩
    exact bit_rpcLine ha hlen (hn _ (by simp)) (hn _ (by simp [groupParts]))
      (hn _ (by simp [groupParts])) (hn _ (by simp [groupParts]))
  | reply r =>
    obtain ⟨hlen, rfl⟩ := writeRpc_eq_ok.1 h
    obtain ⟨hty, hof, hinline⟩ := rpcLine_parts ha f.tags.reply (by simp) hlen
    refine ⟨by simp [transactionOf, hty, hof, wireForm, hbr.symm, hcr.symm], hinline,
      fun n hn => ?_⟩
    exact bit_rpcLine ha hlen (hn _ (by simp)) (hn _ (by simp [groupParts]))
      (hn _ (by simp [groupParts])) (hn _ (by simp [groupParts]))
  | error tag => cases h

/-! ## Lines that nobody wrote a transaction into -/

theorem isValid_zero (f : Format) : f.isValid .zero = false := by
  have hget : f.valid.get Line.zero.bytes = 0 := f.valid.get_zeros lineSize
  simp [isValid, hget]

/-- A code that is not known is kept. -/
theorem transactionOf_unknown (ha : f.Accepted) {l : Line}
    (hcode : f.ty.get l.bytes ∉ [f.tags.bypass, f.tags.call, f.tags.reply].map UInt64.toNat) :
    ∃ tag, tag.toNat = f.ty.get l.bytes ∧ f.transactionOf l = .error tag := by
  simp only [List.map_cons, List.map_nil, List.mem_cons, List.not_mem_nil, or_false,
    not_or] at hcode
  obtain ⟨hbypass, hcall, hreply⟩ := hcode
  have hlt : f.ty.get l.bytes < UInt64.size :=
    Nat.lt_of_lt_of_le (f.ty.get_lt _) (Nat.pow_le_pow_right (by decide) ha.ty_in.width_le)
  refine ⟨.ofNat (f.ty.get l.bytes), UInt64.toNat_ofNat_of_lt' hlt, ?_⟩
  rw [transactionOf, if_neg hbypass, if_neg hcall, if_neg hreply]

/-! ## Encoding and decoding -/

theorem decode_encode (ha : f.Accepted) {t : Transaction} {length : Nat} {inline : Bytes}
    {l : Line} (h : f.encode t length inline = .ok l) :
    f.decode l = ⟨true, length, f.wireForm t⟩ := by
  obtain ⟨hi, hmax, written, hw, rfl⟩ := encode_eq_ok.1 h
  have hv := valid_complete ha hi written length
  have hl := len_complete ha hi written hmax
  have ht := transactionOf_complete ha hi written length
  simp [decode, isValid, hv, hl, ht, (writeTransaction_parts ha hw).1]

theorem inline_encode (ha : f.Accepted) {t : Transaction} {length : Nat} {inline : Bytes}
    {l : Line} (h : f.encode t length inline = .ok l) :
    l.inline = inline ++ .zeros (inlineSize - inline.size) := by
  obtain ⟨hi, -, written, hw, rfl⟩ := encode_eq_ok.1 h
  exact inline_complete ha hi length (writeTransaction_parts ha hw).2.1

/-- The parts of the header that a line for a transaction uses. -/
def partsOf (f : Format) (t : Transaction) : List HeaderPart :=
  [f.validPart, f.lenPart, f.tyPart] ++ f.groupParts t

theorem bit_encode (ha : f.Accepted) {t : Transaction} {length : Nat} {inline : Bytes} {l : Line}
    (h : f.encode t length inline = .ok l) {n : Nat} (hn : n < 8 * headerSize)
    (hp : ∀ p ∈ f.partsOf t, ¬p.Covers n) : l.bytes.bit n = false := by
  obtain ⟨hi, -, written, hw, rfl⟩ := encode_eq_ok.1 h
  rw [bit_complete hi written length hn (hp _ (by simp [partsOf])) (hp _ (by simp [partsOf]))]
  refine (writeTransaction_parts ha hw).2.2 n fun p hmem => hp p ?_
  exact List.mem_cons_of_mem _ (List.mem_cons_of_mem _ hmem)

/-- **The codec, exactly.** A transaction is encoded if and only if its payload prefix fits the
line, its length fits the `len` field and its parts have their sizes. Then the line is valid, it
decodes to the length and the wire form of the transaction, its payload half is the prefix with
zeros behind it, and no header bit is set outside the parts of the transaction. -/
theorem encode_exact (hf : f.check = .ok ()) (t : Transaction) (length : Nat) (inline : Bytes) :
    ((∃ l, f.encode t length inline = .ok l) ↔
      inline.size ≤ inlineSize ∧ length ≤ f.maxLength ∧ f.Encodable t) ∧
    ∀ l, f.encode t length inline = .ok l →
      f.isValid l = true ∧
      f.decode l = ⟨true, length, f.wireForm t⟩ ∧
      l.inline = inline ++ .zeros (inlineSize - inline.size) ∧
      ∀ n, n < 8 * headerSize → (∀ p ∈ f.partsOf t, ¬p.Covers n) → l.bytes.bit n = false := by
  have ha := check_eq_ok.1 hf
  refine ⟨encode_isOk t length inline, fun l h => ?_⟩
  have hd := decode_encode ha h
  refine ⟨congrArg Header.valid hd, hd, inline_encode ha h, fun n hn hp => ?_⟩
  exact bit_encode ha h hn hp

theorem encode_exact_default : ({} : Format).check = .ok () ∧
    ∃ l, ({} : Format).encode (.call ⟨0x1234, 7, .take (.replicate 8 0xab)⟩) 3
        (.replicate 3 0xcd) = .ok l ∧
      (({} : Format).decode l).transaction =
        ({} : Format).wireForm (.call ⟨0x1234, 7, .take (.replicate 8 0xab)⟩) := by
  have hf : ({} : Format).check = .ok () := rfl
  obtain ⟨hok, hall⟩ := encode_exact hf (.call ⟨0x1234, 7, .take (.replicate 8 0xab)⟩) 3
    (.replicate 3 0xcd)
  obtain ⟨l, hl⟩ := hok.2 ⟨by decide, by decide, by decide⟩
  exact ⟨hf, l, hl, congrArg Header.transaction (hall l hl).2.1⟩

end Format
end LineExchange
