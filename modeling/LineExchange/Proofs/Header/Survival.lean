import LineExchange.Proofs.Header.RoundTrip
import LineExchange.Walk.Header

/-!
# LineExchange.Proofs.Header.Survival

Which transactions come back from their line as they were. The encoder refuses a frame header of
another size than its kind has, but it takes a handler or an xid wider than its field and fewer
words than the window has. These come back cut or padded.

* `wireForm_eq_self`: the wire form of a transaction is the transaction itself exactly if the
  header keeps all of it (`Format.Keeps`).
* `survives_iff`: so a transaction that was encoded comes back as it was, and the round trip of a
  sample passes its check, under this condition and no other.
* `narrow_call_is_cut`: a call that is encoded and comes back with another handler.
-/

namespace LineExchange
namespace Format

variable {f : Format}

/-- The header has room for all of the transaction. -/
def Keeps (f : Format) : Transaction → Prop
  | .call r => r.funcPtr.toNat ≤ f.funcPtr.maxValue ∧ r.xid.toNat ≤ f.xid.maxValue ∧
      r.words.len = f.argsSize
  | .reply r => r.funcPtr.toNat ≤ f.funcPtr.maxValue ∧ r.xid.toNat ≤ f.xid.maxValue ∧
      r.words.len = f.argsSize
  | .bypass _ _ => True
  | .error _ => True

theorem mod_eq_iff {g : Field} (hg : g.InHeader) (n : Nat) :
    n % 2 ^ g.width.toNat = n ↔ n ≤ g.maxValue := by
  have hmax := Field.maxValue_of_le hg.width_le
  constructor
  · intro h
    have hlt := Nat.mod_lt n (Nat.two_pow_pos g.width.toNat)
    omega
  · intro h
    exact Nat.mod_eq_of_lt (by omega)

theorem wireRpc_eq_self (ha : f.Accepted) {r : Rpc} (hlen : r.words.len ≤ f.argsSize) :
    f.wireRpc r = r ↔ r.funcPtr.toNat ≤ f.funcPtr.maxValue ∧ r.xid.toNat ≤ f.xid.maxValue ∧
      r.words.len = f.argsSize := by
  have hargs := ha.args_le
  have hptr : UInt64.ofNat (r.funcPtr.toNat % 2 ^ f.funcPtr.width.toNat) = r.funcPtr ↔
      r.funcPtr.toNat ≤ f.funcPtr.maxValue := by
    have hlt : r.funcPtr.toNat % 2 ^ f.funcPtr.width.toNat < UInt64.size :=
      Nat.lt_of_le_of_lt (Nat.mod_le ..) r.funcPtr.toNat_lt
    rw [← mod_eq_iff ha.funcPtr_in, ← UInt64.toNat_inj, UInt64.toNat_ofNat_of_lt' hlt]
  have hxid : UInt32.ofNat (r.xid.toNat % 2 ^ f.xid.width.toNat) = r.xid ↔
      r.xid.toNat ≤ f.xid.maxValue := by
    have hlt : r.xid.toNat % 2 ^ f.xid.width.toNat < UInt32.size :=
      Nat.lt_of_le_of_lt (Nat.mod_le ..) r.xid.toNat_lt
    rw [← mod_eq_iff ha.xid_in, ← UInt32.toNat_inj, UInt32.toNat_ofNat_of_lt' hlt]
  rw [← hptr, ← hxid, ← InlineBytes.padTo_eq_self hlen (by omega)]
  cases r
  simp [wireRpc]

theorem wireForm_eq_self (ha : f.Accepted) {t : Transaction} (ht : f.Encodable t) :
    f.wireForm t = t ↔ f.Keeps t := by
  cases t with
  | bypass kind header => simp [wireForm, Keeps]
  | call r => rw [wireForm, Transaction.call.injEq, wireRpc_eq_self ha ht, Keeps]
  | reply r => rw [wireForm, Transaction.reply.injEq, wireRpc_eq_self ha ht, Keeps]
  | error tag => exact ht.elim

/-! ## Samples -/

theorem len_setWords (words : List (UInt32 × Nat)) (x : InlineBytes) :
    (words.foldl (fun x (w, i) => (x.setWord i w).2) x).len = x.len := by
  induction words generalizing x with
  | nil => rfl
  | cons w ws ih =>
    rw [List.foldl_cons, ih]
    rfl

theorem len_inlineWords (ha : f.Accepted) (s : HeaderSample) :
    (s.inlineWords f).len = f.argsSize := by
  have hargs := ha.args_le
  rw [HeaderSample.inlineWords, len_setWords]
  exact Nat.min_eq_left (by omega)

theorem size_inlinePayload (s : HeaderSample) : s.inlinePayload.size ≤ inlineSize := by
  rw [HeaderSample.inlinePayload, Bytes.size_ofFn]
  exact Nat.min_le_right ..

/-- A sample has the sizes of the format: it lacks a code or it is encodable. -/
theorem sample_encodable (ha : f.Accepted) (s : HeaderSample) :
    f.Encodable (s.transaction f) ∨
      (f.Keeps (s.transaction f) ∧ f.isUnencodable (s.transaction f) s.length.toNat = true) := by
  have hwords := len_inlineWords ha s
  have hbypass := ha.bypass_le
  unfold HeaderSample.transaction
  split
  · have hlen := f.headerLen_le s.bypassKind
    have hfull : (InlineBytes.take (.ofFn (min (f.headerLen s.bypassKind) headerSize)
        fun i => s.seed + UInt8.ofNat i)).len = f.headerLen s.bypassKind := by
      simp only [InlineBytes.take, Bytes.size_ofFn]
      omega
    cases hk : s.bypassKind with
    | error => exact .inr ⟨trivial, rfl⟩
    | ethernet => exact .inl ⟨.inl rfl, hk ▸ hfull⟩
    | ip => exact .inl ⟨.inr (.inl rfl), hk ▸ hfull⟩
    | udp => exact .inl ⟨.inr (.inr rfl), hk ▸ hfull⟩
  · exact .inl (Nat.le_of_eq hwords)
  · exact .inl (Nat.le_of_eq hwords)
  · exact .inr ⟨trivial, rfl⟩

theorem checkRoundTrip_eq_ok (ha : f.Accepted) (s : HeaderSample) :
    f.checkRoundTrip s = .ok () ↔
      f.maxLength < s.length.toNat ∨ f.Keeps (s.transaction f) := by
  have hpayload := size_inlinePayload s
  have hok := encode_isOk (f := f) (s.transaction f) s.length.toNat s.inlinePayload
  unfold checkRoundTrip
  cases he : f.encode (s.transaction f) s.length.toNat s.inlinePayload with
  | error e =>
    have refused : f.maxLength < s.length.toNat ∨ ¬f.Encodable (s.transaction f) := by
      by_cases hl : f.maxLength < s.length.toNat
      · exact .inl hl
      · refine .inr fun ht => ?_
        obtain ⟨l, hl⟩ := hok.2 ⟨hpayload, Nat.not_lt.1 hl, ht⟩
        rw [he] at hl
        cases hl
    rcases refused with hl | ht
    · simp [he, isUnencodable, hl]
    · obtain ⟨hkeeps, hun⟩ := (sample_encodable ha s).resolve_left ht
      simp [he, hun, hkeeps]
  | ok l =>
    obtain ⟨-, hl, ht⟩ := hok.1 ⟨l, he⟩
    have hinline : l.inline.slice 0 s.inlinePayload.size = s.inlinePayload := by
      rw [inline_encode ha he]
      refine Bytes.ext_byteAt ?_ fun i hi => ?_
      · rw [Bytes.size_slice, ByteArray.size_append]
        omega
      · rw [Bytes.size_slice] at hi
        rw [Bytes.byteAt_slice, if_pos (by omega), Bytes.byteAt_append, if_pos (by omega),
          Nat.zero_add]
    have hd := decode_encode ha he
    have checked : assertAll [(f.decode l).valid, (f.decode l).length = s.length.toNat,
        (f.decode l).transaction = s.transaction f,
        l.inline.slice 0 s.inlinePayload.size = s.inlinePayload] = .ok () ↔
          f.wireForm (s.transaction f) = s.transaction f := by
      simp [assertAll, hd, hinline]
    simp only [he]
    rw [checked, wireForm_eq_self ha ht]
    simp [Nat.not_lt.2 hl]

/-- **What survives the header.** A transaction that was encoded comes back as it was if and only
if the header keeps all of it: handler and xid fit their fields and the words fill their window.
The round trip of a sample passes its check if and only if the sample is too long to be encoded
or the header keeps all of it. -/
theorem survives_iff (hf : f.check = .ok ()) :
    (∀ t length inline l, f.encode t length inline = .ok l →
      ((f.decode l).transaction = t ↔ f.Keeps t)) ∧
    ∀ s : HeaderSample, f.checkRoundTrip s = .ok () ↔
      f.maxLength < s.length.toNat ∨ f.Keeps (s.transaction f) := by
  have ha := check_eq_ok.1 hf
  refine ⟨fun t length inline l h => ?_, checkRoundTrip_eq_ok ha⟩
  rw [decode_encode ha h]
  exact wireForm_eq_self ha ((encode_isOk t length inline).1 ⟨l, h⟩).2.2

/-- A format whose handler field has only one byte. -/
def narrow : Format := { funcPtr := ⟨64, 8⟩ }

/-- A call of handler 256, which is one more than `narrow` has room for. -/
def wideCall : HeaderSample := ⟨1, 0, 0, 0, 256, 7, List.replicate 11 0⟩

theorem survives_iff_narrow : narrow.check = .ok () ∧
    (narrow.checkRoundTrip wideCall = .ok () ↔ narrow.maxLength < wideCall.length.toNat ∨
      narrow.Keeps (wideCall.transaction narrow)) :=
  ⟨rfl, (survives_iff rfl).2 wideCall⟩

/-- The law that what is encoded comes back as it was fails: the call is encoded, comes back with
another handler, and the check of its round trip breaks off. -/
theorem narrow_call_is_cut : narrow.check = .ok () ∧
    (∃ l, narrow.encode (wideCall.transaction narrow) 0 .empty = .ok l ∧
      (narrow.decode l).transaction ≠ wideCall.transaction narrow) ∧
    narrow.checkRoundTrip wideCall ≠ .ok () := by
  have hf : narrow.check = .ok () := rfl
  have ha := check_eq_ok.1 hf
  have hcut : ¬narrow.Keeps (wideCall.transaction narrow) := fun h =>
    absurd (show 256 ≤ 255 from h.1) (by decide)
  have hencodable : narrow.Encodable (wideCall.transaction narrow) :=
    Nat.le_of_eq (len_inlineWords ha wideCall)
  obtain ⟨l, hl⟩ := (encode_isOk (f := narrow) (wideCall.transaction narrow) 0 .empty).2
    ⟨by decide, by decide, hencodable⟩
  refine ⟨hf, ⟨l, hl, ?_⟩, ?_⟩
  · rw [decode_encode ha hl]
    exact fun h => hcut ((wireForm_eq_self ha hencodable).1 h)
  · intro h
    exact ((checkRoundTrip_eq_ok ha wideCall).1 h).elim (by decide) hcut

end Format
end LineExchange
