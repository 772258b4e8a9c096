import LineExchange.Proofs.Bounds.Header
import LineExchange.Proofs.Header.Lens

/-!
# LineExchange.Proofs.Header.Selected

Which bits of a line its header is read from. The codes in a line select the parts that are read
(`Format.selectedParts`): of a frame those of the bypass group, up to the length of its header; of
a call or reply those of the other group; and if the code is not known, neither.

* `Field.get_agree`, `Line.slice_agree`: what is read from a part on which two lines agree.
* `Format.transactionOf_congr`: two lines that agree on the selected parts of one of them hold the
  same transaction.
* `Format.sized_transactionOf`: its bytes and words are as many as the format says.
* `Format.decode_selects`: so decoding has an answer for every line and depends on nothing else.
-/

namespace LineExchange

/-- The bits in the part are the same. -/
def HeaderPart.Agree (p : HeaderPart) (a b : Bytes) : Prop := ∀ n, p.Covers n → a.bit n = b.bit n

theorem Field.get_agree {name : String} {g : Field} {a b : Bytes}
    (h : (HeaderPart.ofField name g).Agree a b) : g.get a = g.get b :=
  get_congr fun n hstart hstop => h n ⟨hstart, hstop⟩

theorem Line.slice_agree {name : String} {offset size : Nat} {a b : Line}
    (h : (HeaderPart.ofWindow name offset size).Agree a.bytes b.bytes) :
    a.bytes.slice offset size = b.bytes.slice offset size :=
  Bytes.slice_congr (a.size_bytes.trans b.size_bytes.symm) fun n hstart hstop => h n ⟨hstart, hstop⟩

namespace Format

variable {f : Format}

/-- The bytes of the bypass window that hold the header of a frame. -/
def framePart (f : Format) (kind : HeaderKind) : HeaderPart :=
  .ofWindow "bypass_header" f.bypassOffset.toNat (f.headerLen kind)

/-- The parts that the transaction in a line is read from, besides its code. -/
def selectedGroup (f : Format) (l : Line) : List HeaderPart :=
  if f.ty.get l.bytes = f.tags.bypass.toNat then
    [f.hdrTyPart, f.framePart (f.headerKind (f.hdrTy.get l.bytes))]
  else if f.ty.get l.bytes = f.tags.call.toNat ∨ f.ty.get l.bytes = f.tags.reply.toNat then
    [f.funcPtrPart, f.xidPart, f.argsPart]
  else []

/-- The parts that the header of a line is read from. -/
def selectedParts (f : Format) (l : Line) : List HeaderPart :=
  [f.validPart, f.lenPart, f.tyPart] ++ f.selectedGroup l

/-- The parts of the transaction have the sizes that the format says. -/
def Sized (f : Format) : Transaction → Prop
  | .bypass kind header => header.len = f.headerLen kind
  | .call r => r.words.len = f.argsSize
  | .reply r => r.words.len = f.argsSize
  | .error _ => True

/-! ## What is read -/

theorem bypassOf_congr {a b : Line} (hcode : f.hdrTyPart.Agree a.bytes b.bytes)
    (hframe : (f.framePart (f.headerKind (f.hdrTy.get a.bytes))).Agree a.bytes b.bytes) :
    f.bypassOf a = f.bypassOf b := by
  have hkind : f.hdrTy.get a.bytes = f.hdrTy.get b.bytes := Field.get_agree hcode
  have hheader := Line.slice_agree hframe
  rw [hkind] at hheader
  simp only [bypassOf, hkind, hheader]

theorem rpcOf_congr {a b : Line} (hptr : f.funcPtrPart.Agree a.bytes b.bytes)
    (hxid : f.xidPart.Agree a.bytes b.bytes) (hargs : f.argsPart.Agree a.bytes b.bytes) :
    f.rpcOf a = f.rpcOf b := by
  have hptr' : f.funcPtr.get a.bytes = f.funcPtr.get b.bytes := Field.get_agree hptr
  have hxid' : f.xid.get a.bytes = f.xid.get b.bytes := Field.get_agree hxid
  have hwords := Line.slice_agree hargs
  simp only [rpcOf, hptr', hxid', hwords]

/-- The code of the transaction is the same, so both lines are read in the same way. -/
theorem transactionOf_congr {a b : Line} (hcode : f.tyPart.Agree a.bytes b.bytes)
    (hgroup : ∀ p ∈ f.selectedGroup a, p.Agree a.bytes b.bytes) :
    f.transactionOf a = f.transactionOf b := by
  have hty : f.ty.get a.bytes = f.ty.get b.bytes := Field.get_agree hcode
  unfold selectedGroup at hgroup
  unfold transactionOf
  rw [hty] at hgroup ⊢
  dsimp only
  by_cases hbypass : f.ty.get b.bytes = f.tags.bypass.toNat
  · rw [if_pos hbypass] at hgroup
    rw [if_pos hbypass, if_pos hbypass]
    exact bypassOf_congr (hgroup _ (by simp)) (hgroup _ (by simp))
  · rw [if_neg hbypass] at hgroup
    rw [if_neg hbypass, if_neg hbypass]
    by_cases hrpc : f.ty.get b.bytes = f.tags.call.toNat ∨ f.ty.get b.bytes = f.tags.reply.toNat
    · rw [if_pos hrpc] at hgroup
      have hsame := rpcOf_congr (hgroup f.funcPtrPart (by simp)) (hgroup f.xidPart (by simp))
        (hgroup f.argsPart (by simp))
      rw [hsame]
    · obtain ⟨hcall, hreply⟩ := not_or.1 hrpc
      rw [if_neg hcall, if_neg hcall, if_neg hreply, if_neg hreply]

theorem decode_congr {a b : Line} (h : ∀ p ∈ f.selectedParts a, p.Agree a.bytes b.bytes) :
    f.decode a = f.decode b := by
  have hvalid : f.valid.get a.bytes = f.valid.get b.bytes :=
    Field.get_agree (h f.validPart (by simp [selectedParts]))
  have hlen : f.len.get a.bytes = f.len.get b.bytes :=
    Field.get_agree (h f.lenPart (by simp [selectedParts]))
  have htransaction : f.transactionOf a = f.transactionOf b :=
    transactionOf_congr (h f.tyPart (by simp [selectedParts])) fun p hp =>
      h p (List.mem_append_right _ hp)
  simp only [decode, isValid, hvalid, hlen, htransaction]

/-! ## Sizes -/

theorem len_take_window {start len : Nat} (l : Line) (h : start + len ≤ headerSize) :
    (InlineBytes.take (l.bytes.slice start len)).len = len := by
  show min (l.bytes.slice start len).size headerSize = len
  rw [size_window l h]
  omega

theorem sized_transactionOf (ha : f.Accepted) (l : Line) : f.Sized (f.transactionOf l) := by
  have hargs : (f.rpcOf l).words.len = f.argsSize := len_take_window l ha.args_le
  unfold transactionOf
  dsimp only
  split
  · exact len_take_window l (Nat.le_trans (Nat.add_le_add_left (f.headerLen_le _) _) ha.bypass_le)
  · split
    · exact hargs
    · split
      · exact hargs
      · trivial

theorem stop_framePart_le (ha : f.Accepted) (kind : HeaderKind) :
    (f.framePart kind).stop ≤ 8 * headerSize :=
  Nat.mul_le_mul_left 8 (Nat.le_trans (Nat.add_le_add_left (f.headerLen_le kind) _) ha.bypass_le)

/-- No part of the payload half is ever selected. -/
theorem stop_selectedParts_le (ha : f.Accepted) {l : Line} {p : HeaderPart}
    (hp : p ∈ f.selectedParts l) : p.stop ≤ 8 * headerSize := by
  have hvalid : f.validPart.stop ≤ 8 * headerSize := (valid_in ha).stop_le
  have hargs : f.argsPart.stop ≤ 8 * headerSize := Nat.mul_le_mul_left 8 ha.args_le
  unfold selectedParts selectedGroup at hp
  rcases List.mem_append.1 hp with hp | hp
  · simp only [List.mem_cons, List.not_mem_nil, or_false] at hp
    rcases hp with rfl | rfl | rfl
    · exact hvalid
    · exact ha.len_in.stop_le
    · exact ha.ty_in.stop_le
  · split at hp
    · simp only [List.mem_cons, List.not_mem_nil, or_false] at hp
      rcases hp with rfl | rfl
      · exact ha.hdrTy_in.stop_le
      · exact stop_framePart_le ha _
    · split at hp
      · simp only [List.mem_cons, List.not_mem_nil, or_false] at hp
        rcases hp with rfl | rfl | rfl
        · exact ha.funcPtr_in.stop_le
        · exact ha.xid_in.stop_le
        · exact hargs
      · cases hp

/-- **What a header is read from.** Every line decodes: behind the fence, which checks each index
and each copy, as in front of it. Lines that agree on the parts that the codes of one of them
select have the same header. These parts lie in the header half, and what is read has the sizes of
the format. -/
theorem decode_selects (hf : f.check = .ok ()) :
    (∀ l, f.decode? l = some (f.decode l)) ∧
    (∀ a b : Line, (∀ p ∈ f.selectedParts a, p.Agree a.bytes b.bytes) → f.decode a = f.decode b) ∧
    (∀ l, ∀ p ∈ f.selectedParts l, p.stop ≤ 8 * headerSize) ∧
    ∀ l, f.Sized (f.decode l).transaction := by
  have ha := check_eq_ok.1 hf
  exact ⟨decode?_eq ha, fun a b => decode_congr, fun l p => stop_selectedParts_le ha,
    sized_transactionOf ha⟩

/-- A call whose bypass group and payload half are overwritten is still the same call. -/
theorem decode_selects_call :
    let call : Line := Line.zero.put ({} : Format).ty 2
    let other : Line := (call.put ({} : Format).hdrTy 7).patch headerSize (.replicate 64 0xff)
    ({} : Format).check = .ok () ∧ ({} : Format).decode call = ({} : Format).decode other ∧
      ({} : Format).Sized (({} : Format).decode other).transaction := by
  intro call other
  have hf : ({} : Format).check = .ok () := rfl
  have hty : ({} : Format).ty.get call.bytes = 2 := Line.get_put (by decide) .zero 2
  have hgroup : ({} : Format).selectedParts call =
      [⟨"valid", 0, 1⟩, ⟨"len", 1, 15⟩, ⟨"ty", 15, 19⟩, ⟨"func_ptr", 64, 128⟩, ⟨"xid", 128, 160⟩,
        ⟨"rpc_args", 160, 512⟩] := by
    unfold selectedParts selectedGroup
    rw [hty]
    rfl
  have hsame (n : Nat) (hn : n < 19 ∨ 64 ≤ n) (hn' : n < 512) :
      call.bytes.bit n = other.bytes.bit n := by
    have hend : 8 * headerSize = 512 := rfl
    have hhdr : ({} : Format).hdrTy.start = 19 ∧ ({} : Format).hdrTy.stop = 22 := ⟨rfl, rfl⟩
    have hsize : (Bytes.replicate 64 0xff).size = 64 := Bytes.size_replicate ..
    have hpatch : other.bytes.bit n = (call.put ({} : Format).hdrTy 7).bytes.bit n :=
      Line.bit_patch_apart (by rw [hsize]; decide) (by rw [hsize]; omega)
        (call.put ({} : Format).hdrTy 7)
    have hput : (call.put ({} : Format).hdrTy 7).bytes.bit n = call.bytes.bit n :=
      Line.bit_put_apart (by omega) call 7
    exact (hpatch.trans hput).symm
  obtain ⟨-, hdecode, -, hsized⟩ := decode_selects hf
  refine ⟨hf, hdecode call other ?_, hsized other⟩
  rw [hgroup]
  simp only [List.forall_mem_cons, HeaderPart.Agree, HeaderPart.Covers]
  refine ⟨?_, ?_, ?_, ?_, ?_, ?_, nofun⟩
  all_goals
    intro n hn
    exact hsame n (by omega) (by omega)

end Format
end LineExchange
