import LineExchange.Proofs.Header.WireForm
import LineExchange.Proofs.Layout.Exact

/-!
# LineExchange.Proofs.Header.Exact

The check of a format always has a verdict, and accepts exactly the formats in which no part and no
code can be taken for another (`Format.Unambiguous`, `Format.check?_exact`).

The windows are held against the header by sums that are stopped at the largest word; only then are
their bits computed, as products that have to be words (`HeaderPart.ofWindow?_eq_some`). So it is
the rules on single parts that give the rules on pairs a verdict.
-/

namespace LineExchange

open Word

namespace Field

variable {g : Field}

theorem toNat_one_shiftLeft {n : UInt8} (h : n < 64) :
    ((1 : UInt64) <<< n.toUInt64).toNat = 2 ^ n.toNat := by
  have hn : n.toNat < 64 := h
  have hpow : 2 ^ n.toNat < 2 ^ 64 := Nat.pow_lt_pow_right (by decide) hn
  rw [UInt64.toNat_shiftLeft, UInt8.toNat_toUInt64, Nat.mod_eq_of_lt hn, UInt64.toNat_one,
    Nat.one_shiftLeft, Nat.mod_eq_of_lt hpow]

theorem exists_maxWord? (g : Field) : ∃ m, g.maxWord? = some m ∧ m.toNat = g.maxValue := by
  by_cases hwide : 64 ≤ g.width
  · have hwidth : min g.width.toNat 64 = 64 := Nat.min_eq_right hwide
    refine ⟨.ofNat wordMax, by simp [maxWord?, hwide], ?_⟩
    rw [toNat_ofNat (Nat.le_refl _), maxValue, hwidth]
    rfl
  · have hlt : g.width < 64 := UInt8.not_le.1 hwide
    have hone := toNat_one_shiftLeft hlt
    have hle : (1 : UInt64) ≤ 1 <<< g.width.toUInt64 := by
      rw [UInt64.le_iff_toNat_le, hone]
      exact Nat.one_le_two_pow
    refine ⟨1 <<< g.width.toUInt64 - 1, by simp [maxWord?, hwide, shl?, hlt, sub?, hle], ?_⟩
    have hmax := maxValue_of_le (Nat.le_of_lt hlt)
    rw [UInt64.toNat_sub_of_le _ _ hle, hone, UInt64.toNat_one]
    omega

end Field

namespace HeaderPart

theorem ofWindow?_eq_some (name : String) {offset size : UInt64}
    (h : offset.toNat + size.toNat ≤ headerSize) :
    ofWindow? name offset size = some (ofWindow name offset.toNat size.toNat) := by
  have hmax : 8 * headerSize ≤ wordMax := by decide
  obtain ⟨start, hstart⟩ := exists_toNat_eq (n := offset.toNat * 8) (by omega)
  obtain ⟨bytes, hbytes⟩ := exists_toNat_eq (n := offset.toNat + size.toNat) (by omega)
  obtain ⟨stop, hstop⟩ := exists_toNat_eq (n := bytes.toNat * 8) (by omega)
  have hmul : mul? bytes 8 = some stop := mul?_eq_some.2 hstop
  rw [ofWindow?, mul?_eq_some.2 hstart, add?_eq_some.2 hbytes]
  simp only [Option.bind_eq_bind, Option.bind_some, hmul, ofWindow, hstart, hstop, hbytes,
    Nat.mul_comm _ 8]
  rfl

/-- Two parts overlap if each starts before the other ends. -/
def Overlaps (p q : HeaderPart) : Prop := p.start < q.stop ∧ q.start < p.stop

theorem apart_iff {p q : HeaderPart} : p.Apart q ↔ ¬p.Overlaps q := by
  unfold Apart Overlaps
  omega

/-- Parts with bits overlap exactly if they share one. -/
theorem overlaps_iff {p q : HeaderPart} (hp : p.start < p.stop) (hq : q.start < q.stop) :
    p.Overlaps q ↔ ∃ n, p.Covers n ∧ q.Covers n := by
  unfold Overlaps Covers
  constructor
  · intro h
    exact ⟨max p.start q.start, by omega, by omega⟩
  · rintro ⟨n, hn, hm⟩
    omega

end HeaderPart

namespace Format

variable {f : Format}

/-! ## The rules, computed in words -/

theorem windowRule_inWords (name : String) {offset size : UInt64} {bytes : Nat}
    (h : size.toNat = saturate bytes) :
    windowRuleInWords name offset size = windowRule (.ofWindow name offset.toNat bytes) := by
  have hheader : (64 : UInt64).toNat = headerSize := rfl
  have hlt : headerSize < wordMax := by decide
  refine Rule.mk_congr ?_ _
  rw [UInt64.le_iff_toNat_le, toNat_satAdd, h, saturate_add_saturate, hheader]
  show saturate _ ≤ _ ↔ 8 * (offset.toNat + bytes) ≤ 8 * headerSize
  unfold saturate
  omega

theorem partRules_eq (f : Format) : f.partRules =
    [⟨f.valid = ⟨0, 1⟩, .validNotBitZero f.valid⟩] ++
      fieldRules "len" f.len ++ fieldRules "ty" f.ty ++ fieldRules "hdr_ty" f.hdrTy ++
      fieldRules "func_ptr" f.funcPtr ++ fieldRules "xid" f.xid ++
      [windowRule f.bypassPart, windowRule f.argsPart] := by
  have hbypass : windowRuleInWords "bypass_header" f.bypassOffset f.bypassSize =
      windowRule f.bypassPart :=
    windowRule_inWords _ (saturate_of_le (toNat_le_wordMax _)).symm
  have hargs : windowRuleInWords "rpc_args" f.argsOffset (satMul f.argsWords 4) =
      windowRule f.argsPart :=
    windowRule_inWords _ ((toNat_satMul ..).trans (congrArg saturate (Nat.mul_comm ..)))
  rw [partRules, hbypass, hargs]
  rfl

theorem codeRules_eq {g : Field} {m : UInt64} (hm : m.toNat = g.maxValue)
    (tag₁ tag₂ tag₃ : String) (a b c : UInt64) :
    codeRules m [(tag₁, a), (tag₂, b), (tag₃, c)] =
      [tagRange g tag₁ a, tagsDiffer tag₁ a tag₂ b, tagsDiffer tag₁ a tag₃ c,
        tagRange g tag₂ b, tagsDiffer tag₂ b tag₃ c, tagRange g tag₃ c] := by
  have range (tag : String) (code : UInt64) :
      (⟨code ≠ 0 && code ≤ m, .tagOutOfRange tag code.toNat⟩ : Rule FormatError) =
        tagRange g tag code := by
    simp only [tagRange, UInt64.le_iff_toNat_le, hm]
  simp only [codeRules, range]
  rfl

theorem rules_eq (f : Format) {ty hdrTy : UInt64} (hty : ty.toNat = f.ty.maxValue)
    (hhdrTy : hdrTy.toNat = f.hdrTy.maxValue) :
    f.rules = f.partRules ++ (f.pairRules f.bypassPart f.argsPart ++
      (codeRules ty [("bypass", f.tags.bypass), ("onc_rpc_call", f.tags.call),
          ("onc_rpc_reply", f.tags.reply)] ++
        codeRules hdrTy [("hdr_ethernet", f.tags.ethernet), ("hdr_ip", f.tags.ip),
          ("hdr_udp", f.tags.udp)])) := by
  rw [codeRules_eq hty, codeRules_eq hhdrTy, partRules_eq, rules, List.append_assoc]
  rfl

theorem windows_le (h : Rule.check f.partRules = .ok ()) :
    f.bypassOffset.toNat + f.bypassSize.toNat ≤ headerSize ∧
      f.argsOffset.toNat + f.argsSize ≤ headerSize := by
  rw [partRules_eq, Rule.check_eq_ok] at h
  have bound (p : HeaderPart)
      (hp : windowRule p ∈ [windowRule f.bypassPart, windowRule f.argsPart]) :
      p.stop ≤ 8 * headerSize := of_decide_eq_true (h _ (List.mem_append_right _ hp))
  have hbypass := bound f.bypassPart (by simp)
  have hargs := bound f.argsPart (by simp)
  exact ⟨Nat.le_of_mul_le_mul_left hbypass (by decide),
    Nat.le_of_mul_le_mul_left hargs (by decide)⟩

/-- Rules checked before a computation, which runs only if they hold. -/
theorem run_check_append {rs ss : List (Rule FormatError)} {x : ExceptT FormatError Option Unit}
    (h : Rule.check rs = .ok () → x.run = some (Rule.check ss)) :
    (do Rule.check rs; x : ExceptT FormatError Option Unit).run = some (Rule.check (rs ++ ss)) := by
  rw [Rule.check_append]
  cases hrs : Rule.check rs with
  | error e => rfl
  | ok => exact h hrs

theorem check?_eq (f : Format) : f.check?.run = some f.check := by
  obtain ⟨ty, hty, htyMax⟩ := f.ty.exists_maxWord?
  obtain ⟨hdrTy, hhdrTy, hhdrTyMax⟩ := f.hdrTy.exists_maxWord?
  rw [check, f.rules_eq htyMax hhdrTyMax, check?, hty, hhdrTy]
  -- past the rules on single parts, the windows lie in the header and their bits are words
  refine run_check_append fun hparts => ?_
  obtain ⟨hbypass, hargs⟩ := windows_le hparts
  have hheader : headerSize ≤ wordMax := by decide
  obtain ⟨size, hsize⟩ := exists_toNat_eq (n := f.argsSize) (by omega)
  have hmul : mul? f.argsWords 4 = some size :=
    mul?_eq_some.2 (hsize.trans (Nat.mul_comm ..))
  have hargsPart : HeaderPart.ofWindow? "rpc_args" f.argsOffset size = some f.argsPart := by
    rw [HeaderPart.ofWindow?_eq_some _ (hsize ▸ hargs), hsize]
    rfl
  rw [HeaderPart.ofWindow?_eq_some _ hbypass, hmul]
  show (do
    let args ← HeaderPart.ofWindow? "rpc_args" f.argsOffset size
    _ : ExceptT FormatError Option Unit).run = _
  rw [hargsPart]
  exact run_check_append fun _ => run_check_append fun _ => rfl

/-! ## What the check accepts -/

/-- No part and no code of the format can be taken for another. -/
structure Unambiguous (f : Format) : Prop where
  valid_bit : f.valid.start = 0 ∧ f.valid.width.toNat = 1
  fields_in : ∀ g ∈ [f.len, f.ty, f.hdrTy, f.funcPtr, f.xid],
    1 ≤ g.width.toNat ∧ g.width.toNat ≤ 64 ∧ g.stop ≤ 8 * headerSize
  bypass_in : f.bypassOffset.toNat + f.bypassSize.toNat ≤ headerSize
  args_in : f.argsOffset.toNat + 4 * f.argsWords.toNat ≤ headerSize
  /-- The parts of every header. -/
  common_apart : [f.validPart, f.lenPart, f.tyPart].Pairwise fun p q => ¬p.Overlaps q
  private_apart : ∀ p ∈ [f.validPart, f.lenPart, f.tyPart],
    ∀ q ∈ [f.hdrTyPart, f.funcPtrPart, f.xidPart, f.bypassPart, f.argsPart], ¬p.Overlaps q
  /-- The parts of a bypass. -/
  bypass_apart : ¬f.hdrTyPart.Overlaps f.bypassPart
  /-- The parts of a call or reply. -/
  rpc_apart : [f.funcPtrPart, f.xidPart, f.argsPart].Pairwise fun p q => ¬p.Overlaps q
  ty_codes : [f.tags.bypass, f.tags.call, f.tags.reply].Nodup ∧
    ∀ c ∈ [f.tags.bypass, f.tags.call, f.tags.reply], c ≠ 0 ∧ c.toNat < 2 ^ f.ty.width.toNat
  hdrTy_codes : [f.tags.ethernet, f.tags.ip, f.tags.udp].Nodup ∧
    ∀ c ∈ [f.tags.ethernet, f.tags.ip, f.tags.udp], c ≠ 0 ∧ c.toNat < 2 ^ f.hdrTy.width.toNat

theorem tells_iff {g : Field} (hg : g.width.toNat ≤ 64) {codes : List UInt64} : g.Tells codes ↔
    codes.Nodup ∧ ∀ c ∈ codes, c ≠ 0 ∧ c.toNat < 2 ^ g.width.toNat := by
  rw [← Field.maxValue_of_le hg]
  simp only [Nat.lt_succ_iff]
  exact ⟨fun h => ⟨h.nodup, h.fits⟩, fun h => ⟨h.2, h.1⟩⟩

theorem eq_bitZero_iff {g : Field} : g = ⟨0, 1⟩ ↔ g.start = 0 ∧ g.width.toNat = 1 := by
  cases g
  rw [Field.mk.injEq, ← UInt16.toNat_inj, ← UInt8.toNat_inj]
  rfl

/-- Each of three parts stays apart from those behind it and from all of `others`. -/
theorem common_apart_iff {p q r : HeaderPart} {others : List HeaderPart} :
    (∀ x ∈ q :: r :: others, p.Apart x) ∧ (∀ x ∈ r :: others, q.Apart x) ∧
        (∀ x ∈ others, r.Apart x) ↔
      [p, q, r].Pairwise (fun x y => ¬x.Overlaps y) ∧
        ∀ x ∈ [p, q, r], ∀ y ∈ others, ¬x.Overlaps y := by
  simp only [List.pairwise_cons, List.Pairwise.nil, List.forall_mem_cons, List.not_mem_nil,
    false_implies, implies_true, and_true, HeaderPart.apart_iff]
  constructor
  · rintro ⟨⟨pq, pr, po⟩, ⟨qr, qo⟩, ro⟩
    exact ⟨⟨⟨pq, pr⟩, qr⟩, po, qo, ro⟩
  · rintro ⟨⟨⟨pq, pr⟩, qr⟩, po, qo, ro⟩
    exact ⟨⟨pq, pr, po⟩, ⟨qr, qo⟩, ro⟩

theorem three_apart_iff {p q r : HeaderPart} :
    [p, q, r].Pairwise (fun x y => ¬x.Overlaps y) ↔ p.Apart q ∧ p.Apart r ∧ q.Apart r := by
  simp only [List.pairwise_cons, List.Pairwise.nil, List.forall_mem_cons, List.not_mem_nil,
    false_implies, implies_true, and_true, HeaderPart.apart_iff, and_assoc]

theorem accepted_iff : f.Accepted ↔ f.Unambiguous := by
  constructor
  · intro h
    obtain ⟨hcommon, hprivate⟩ := common_apart_iff.1 ⟨h.valid_apart, h.len_apart, h.ty_apart⟩
    have inHeader {g : Field} (hg : g.InHeader) :
        1 ≤ g.width.toNat ∧ g.width.toNat ≤ 64 ∧ g.stop ≤ 8 * headerSize :=
      ⟨hg.width_pos, hg.width_le, hg.stop_le⟩
    exact {
      valid_bit := eq_bitZero_iff.1 h.valid_eq
      fields_in := by
        simp only [List.forall_mem_cons]
        exact ⟨inHeader h.len_in, inHeader h.ty_in, inHeader h.hdrTy_in, inHeader h.funcPtr_in,
          inHeader h.xid_in, nofun⟩
      bypass_in := h.bypass_le
      args_in := h.args_le
      common_apart := hcommon
      private_apart := hprivate
      bypass_apart := HeaderPart.apart_iff.1 h.hdrTy_bypass
      rpc_apart := three_apart_iff.2 ⟨h.funcPtr_xid, h.funcPtr_args, h.xid_args⟩
      ty_codes := (tells_iff h.ty_in.width_le).1 h.ty_tells
      hdrTy_codes := (tells_iff h.hdrTy_in.width_le).1 h.hdrTy_tells }
  · intro h
    obtain ⟨hvalid, hlen, hty⟩ := common_apart_iff.2 ⟨h.common_apart, h.private_apart⟩
    obtain ⟨hxid, hargs, hxidArgs⟩ := three_apart_iff.1 h.rpc_apart
    have inHeader (g : Field) (hg : g ∈ [f.len, f.ty, f.hdrTy, f.funcPtr, f.xid]) : g.InHeader :=
      have ⟨hpos, hle, hstop⟩ := h.fields_in g hg
      ⟨hpos, hle, hstop⟩
    exact {
      valid_eq := eq_bitZero_iff.2 h.valid_bit
      len_in := inHeader _ (by simp)
      ty_in := inHeader _ (by simp)
      hdrTy_in := inHeader _ (by simp)
      funcPtr_in := inHeader _ (by simp)
      xid_in := inHeader _ (by simp)
      bypass_le := h.bypass_in
      args_le := h.args_in
      valid_apart := hvalid
      len_apart := hlen
      ty_apart := hty
      hdrTy_bypass := HeaderPart.apart_iff.2 h.bypass_apart
      funcPtr_xid := hxid
      funcPtr_args := hargs
      xid_args := hxidArgs
      ty_tells := (tells_iff (inHeader _ (by simp)).width_le).2 h.ty_codes
      hdrTy_tells := (tells_iff (inHeader _ (by simp)).width_le).2 h.hdrTy_codes }

/-- **The check of a format is exact.** It has a verdict for every format, as no number on the way
to it is out of range, and accepts a format exactly if, by sums without a bound, each part lies in
the header and no part and no code can be taken for another. For parts that are not empty, to
overlap is to share a bit. -/
theorem check?_exact (f : Format) :
    f.check?.run = some f.check ∧ (f.check = .ok () ↔ f.Unambiguous) ∧
    ∀ p q : HeaderPart, p.start < p.stop → q.start < q.stop →
      (p.Overlaps q ↔ ∃ n, p.Covers n ∧ q.Covers n) :=
  ⟨f.check?_eq, check_eq_ok.trans accepted_iff, fun _ _ => HeaderPart.overlaps_iff⟩

end Format
end LineExchange
