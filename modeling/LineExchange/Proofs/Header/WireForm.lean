import LineExchange.Proofs.Header.Accepted
import LineExchange.Proofs.Header.Lens

/-!
# LineExchange.Proofs.Header.WireForm

What a header keeps of a transaction, and what the encoder writes.

* `Format.wireForm`: a frame as it is; of a call or reply the low bits of handler and xid, and
  the words with zeros behind them.
* `Format.Encodable`: the transactions that have a control line (`encode_isOk`).
* `Format.complete`: what `encode` adds to a written transaction. Outside `valid` and `len` it
  leaves every header bit alone (`bit_complete`).
-/

namespace LineExchange

namespace InlineBytes

/-- `x` with zeros behind it, `n` bytes in all. -/
def padTo (x : InlineBytes) (n : Nat) : InlineBytes :=
  .take (x.toBytes ++ .zeros (n - x.len))

theorem take_toBytes (x : InlineBytes) : take x.toBytes = x :=
  ext_toBytes (toBytes_take (by rw [size_toBytes]; exact x.len_le))

theorem toBytes_padTo {x : InlineBytes} {n : Nat} (hx : x.len ≤ n) (hn : n ≤ headerSize) :
    (x.padTo n).toBytes = x.toBytes ++ .zeros (n - x.len) :=
  toBytes_take (by rw [ByteArray.size_append, size_toBytes, Bytes.size_zeros]; omega)

theorem len_padTo {x : InlineBytes} {n : Nat} (hx : x.len ≤ n) (hn : n ≤ headerSize) :
    (x.padTo n).len = n := by
  rw [← size_toBytes, toBytes_padTo hx hn, ByteArray.size_append, size_toBytes, Bytes.size_zeros]
  omega

theorem padTo_eq_self {x : InlineBytes} {n : Nat} (hx : x.len ≤ n) (hn : n ≤ headerSize) :
    x.padTo n = x ↔ x.len = n := by
  constructor
  · intro h
    rw [← h, len_padTo hx hn]
  · intro h
    have hz : Bytes.zeros (n - x.len) = .empty := by
      rw [h, Nat.sub_self]
      rfl
    rw [padTo, hz, ByteArray.append_empty, take_toBytes]

end InlineBytes

def HeaderPart.Covers (p : HeaderPart) (n : Nat) : Prop := p.start ≤ n ∧ n < p.stop

namespace Format

variable {f : Format}

def wireRpc (f : Format) (r : Rpc) : Rpc where
  funcPtr := .ofNat (r.funcPtr.toNat % 2 ^ f.funcPtr.width.toNat)
  xid := .ofNat (r.xid.toNat % 2 ^ f.xid.width.toNat)
  words := r.words.padTo f.argsSize

/-- What comes back of a transaction that went through a header. -/
def wireForm (f : Format) : Transaction → Transaction
  | .bypass kind header => .bypass kind header
  | .call r => .call (f.wireRpc r)
  | .reply r => .reply (f.wireRpc r)
  | .error tag => .error tag

/-- The transaction has a code, and its parts have the sizes that the header asks for. -/
def Encodable (f : Format) : Transaction → Prop
  | .bypass kind header =>
    (kind = .ethernet ∨ kind = .ip ∨ kind = .udp) ∧ header.len = f.headerLen kind
  | .call r => r.words.len ≤ f.argsSize
  | .reply r => r.words.len ≤ f.argsSize
  | .error _ => False

instance (f : Format) : DecidablePred f.Encodable
  | .bypass _ _ => inferInstanceAs (Decidable (_ ∧ _))
  | .call _ => inferInstanceAs (Decidable (_ ≤ _))
  | .reply _ => inferInstanceAs (Decidable (_ ≤ _))
  | .error _ => inferInstanceAs (Decidable False)

/-- The parts that a transaction has besides `valid`, `len` and `ty`. -/
def groupParts (f : Format) : Transaction → List HeaderPart
  | .bypass .. => [f.hdrTyPart, f.bypassPart]
  | .call _ => [f.funcPtrPart, f.xidPart, f.argsPart]
  | .reply _ => [f.funcPtrPart, f.xidPart, f.argsPart]
  | .error _ => []

/-- A written transaction made a valid line with its length and payload. -/
def complete (f : Format) (l : Line) (length : Nat) (inline : Bytes) : Line :=
  ((l.put f.len length).put f.valid 1).patch inlineOffset inline

theorem headerLen_le (f : Format) (kind : HeaderKind) :
    f.headerLen kind ≤ f.bypassSize.toNat := by
  unfold headerLen
  split
  · exact Nat.min_le_right ..
  · exact Nat.le_refl _

theorem encode_eq_ok {t : Transaction} {length : Nat} {inline : Bytes} {l : Line} :
    f.encode t length inline = .ok l ↔ inline.size ≤ inlineSize ∧ length ≤ f.maxLength ∧
      ∃ written, f.writeTransaction t = .ok written ∧ l = f.complete written length inline := by
  by_cases hi : inlineSize < inline.size
  · simp [encode, hi, Nat.not_le.2 hi]
  · by_cases hl : f.maxLength < length
    · simp [encode, hi, hl, Nat.not_le.2 hl]
    · rw [encode, if_neg hi, if_neg hl]
      cases ht : f.writeTransaction t with
      | error e => simp
      | ok written => simp [Nat.not_lt.1 hi, Nat.not_lt.1 hl, complete, eq_comm]

theorem writeRpc_isOk (tag : UInt64) (r : Rpc) :
    (∃ l, f.writeRpc tag r = .ok l) ↔ r.words.len ≤ f.argsSize := by
  unfold writeRpc
  by_cases h : f.argsSize < r.words.len
  · simp [h, Nat.not_le.2 h]
  · simp [h, Nat.not_lt.1 h]

theorem writeTransaction_isOk (t : Transaction) :
    (∃ l, f.writeTransaction t = .ok l) ↔ f.Encodable t := by
  cases t with
  | bypass kind header =>
    by_cases hlen : header.len = f.headerLen kind
    · cases kind <;> simp [writeTransaction, writeBypass, headerCode?, Encodable, hlen]
    · cases kind <;> simp [writeTransaction, writeBypass, headerCode?, Encodable, hlen]
  | call r => exact writeRpc_isOk f.tags.call r
  | reply r => exact writeRpc_isOk f.tags.reply r
  | error tag => simp [writeTransaction, Encodable]

theorem encode_isOk (t : Transaction) (length : Nat) (inline : Bytes) :
    (∃ l, f.encode t length inline = .ok l) ↔
      inline.size ≤ inlineSize ∧ length ≤ f.maxLength ∧ f.Encodable t := by
  rw [← writeTransaction_isOk]
  constructor
  · rintro ⟨l, h⟩
    obtain ⟨hi, hl, written, hw, -⟩ := encode_eq_ok.1 h
    exact ⟨hi, hl, written, hw⟩
  · rintro ⟨hi, hl, written, hw⟩
    exact ⟨_, encode_eq_ok.2 ⟨hi, hl, written, hw, rfl⟩⟩

/-! ## Completing a line -/

theorem Accepted.valid_start (ha : f.Accepted) : f.valid.start = 0 ∧ f.valid.stop = 1 := by
  rw [ha.valid_eq]
  exact ⟨rfl, rfl⟩

theorem inline_fits {inline : Bytes} (hi : inline.size ≤ inlineSize) :
    inlineOffset + inline.size ≤ lineSize := by
  simp only [inlineSize, inlineOffset, headerSize, lineSize] at hi ⊢
  omega

theorem bit_complete {inline : Bytes} (hi : inline.size ≤ inlineSize) (l : Line)
    (length : Nat) {n : Nat} (hn : n < 8 * headerSize) (hv : ¬f.validPart.Covers n)
    (hl : ¬f.lenPart.Covers n) : (f.complete l length inline).bytes.bit n = l.bytes.bit n := by
  rw [complete, Line.bit_patch_apart (inline_fits hi) (by simp only [inlineOffset]; omega),
    Line.bit_put_apart hv, Line.bit_put_apart hl]

/-- A field apart from `valid` and `len` is not touched. -/
theorem get_complete {inline : Bytes} (hi : inline.size ≤ inlineSize) (l : Line)
    (length : Nat) {g : Field} {name : String} (hg : g.InHeader)
    (hv : f.validPart.Apart (.ofField name g)) (hl : f.lenPart.Apart (.ofField name g)) :
    g.get (f.complete l length inline).bytes = g.get l.bytes := by
  refine Field.get_congr fun n h0 h1 => bit_complete hi l length ?_ ?_ ?_
  · exact Nat.lt_of_lt_of_le h1 hg.stop_le
  · rintro ⟨a, b⟩
    cases hv with
    | inl h => exact absurd (Nat.lt_of_lt_of_le b h) (Nat.not_lt.2 h0)
    | inr h => exact absurd (Nat.lt_of_lt_of_le h1 h) (Nat.not_lt.2 a)
  · rintro ⟨a, b⟩
    cases hl with
    | inl h => exact absurd (Nat.lt_of_lt_of_le b h) (Nat.not_lt.2 h0)
    | inr h => exact absurd (Nat.lt_of_lt_of_le h1 h) (Nat.not_lt.2 a)

theorem slice_complete {inline : Bytes} (hi : inline.size ≤ inlineSize) (l : Line)
    (length : Nat) {name : String} {offset size len : Nat} (hlen : len ≤ size)
    (hin : offset + size ≤ headerSize) (hv : f.validPart.Apart (.ofWindow name offset size))
    (hl : f.lenPart.Apart (.ofWindow name offset size)) :
    (f.complete l length inline).bytes.slice offset len = l.bytes.slice offset len := by
  refine Bytes.slice_congr (by rw [Line.size_bytes, Line.size_bytes]) fun n h0 h1 =>
    bit_complete hi l length (by omega) ?_ ?_
  · rintro ⟨a, b⟩
    cases hv with
    | inl h => exact absurd (Nat.lt_of_lt_of_le b h) (Nat.not_lt.2 h0)
    | inr h => simp only [HeaderPart.ofWindow] at h; omega
  · rintro ⟨a, b⟩
    cases hl with
    | inl h => exact absurd (Nat.lt_of_lt_of_le b h) (Nat.not_lt.2 h0)
    | inr h => simp only [HeaderPart.ofWindow] at h; omega

theorem valid_complete (ha : f.Accepted) {inline : Bytes} (hi : inline.size ≤ inlineSize)
    (l : Line) (length : Nat) : f.valid.get (f.complete l length inline).bytes = 1 := by
  have hs := ha.valid_start
  rw [complete, Line.get_patch_apart (inline_fits hi) (.inl (by rw [hs.2]; decide)),
    Line.get_put (by rw [hs.2]; decide), ha.valid_eq]
  rfl

theorem len_complete (ha : f.Accepted) {inline : Bytes} (hi : inline.size ≤ inlineSize)
    (l : Line) {length : Nat} (hmax : length ≤ f.maxLength) :
    f.len.get (f.complete l length inline).bytes = length := by
  have hw := Field.maxValue_of_le ha.len_in.width_le
  have hv : f.validPart.Apart f.lenPart := ha.valid_apart _ List.mem_cons_self
  rw [complete, Line.get_patch_apart (inline_fits hi) (.inl ha.len_in.stop_le),
    Line.get_put_apart hv.symm, Line.get_put ha.len_in.stop_le_line]
  exact Nat.mod_eq_of_lt (by simp only [maxLength] at hmax; omega)

theorem inline_complete (ha : f.Accepted) {inline : Bytes} (hi : inline.size ≤ inlineSize)
    {l : Line} (length : Nat) (hz : l.inline = .zeros inlineSize) :
    (f.complete l length inline).inline = inline ++ .zeros (inlineSize - inline.size) := by
  have hs := ha.valid_start
  have hv : f.valid.stop ≤ 8 * headerSize := by
    rw [hs.2]
    decide
  refine Line.slice_patch_front hi (by decide) ?_
  exact (Line.inline_put hv _ 1).trans ((Line.inline_put ha.len_in.stop_le l length).trans hz)

theorem transactionOf_complete (ha : f.Accepted) {inline : Bytes} (hi : inline.size ≤ inlineSize)
    (l : Line) (length : Nat) :
    f.transactionOf (f.complete l length inline) = f.transactionOf l := by
  have hv (p : HeaderPart) (hp : p ∈ f.tyPart :: f.privateParts) : f.validPart.Apart p :=
    ha.valid_apart p (List.mem_cons_of_mem _ hp)
  have field (name : String) {g : Field} (hg : g.InHeader)
      (hp : .ofField name g ∈ f.tyPart :: f.privateParts) :
      g.get (f.complete l length inline).bytes = g.get l.bytes :=
    get_complete hi l length hg (hv _ hp) (ha.len_apart _ hp)
  have hty := field "ty" ha.ty_in List.mem_cons_self
  have hhdr := field "hdr_ty" ha.hdrTy_in (by simp [privateParts, hdrTyPart])
  have hptr := field "func_ptr" ha.funcPtr_in (by simp [privateParts, funcPtrPart])
  have hxid := field "xid" ha.xid_in (by simp [privateParts, xidPart])
  have hbypass (kind : HeaderKind) :=
    slice_complete hi l length (f.headerLen_le kind) ha.bypass_le
      (hv f.bypassPart (by simp [privateParts]))
      (ha.len_apart f.bypassPart (by simp [privateParts]))
  have hargs :=
    slice_complete hi l length (Nat.le_refl f.argsSize) ha.args_le
      (hv f.argsPart (by simp [privateParts])) (ha.len_apart f.argsPart (by simp [privateParts]))
  simp only [transactionOf, bypassOf, rpcOf, hty, hhdr, hptr, hxid, hbypass, hargs]

end Format
end LineExchange
