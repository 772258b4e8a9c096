import LineExchange.Header.Format

/-!
# LineExchange.Proofs.Header.Accepted

What `Format.check` accepts, as facts to work with: `Format.check_eq_ok` says that a format
passes exactly if it is `Accepted`. Two parts of a header are `Apart` if one ends before the
other starts; a field tells codes from each other (`Field.Tells`) if they fit it, are positive
and differ.
-/

namespace LineExchange

/-- The field is neither empty nor wider than a word, and lies in the header. -/
structure Field.InHeader (g : Field) : Prop where
  width_pos : 0 < g.width.toNat
  width_le : g.width.toNat ≤ 64
  stop_le : g.stop ≤ 8 * headerSize

theorem Field.InHeader.stop_le_line {g : Field} (h : g.InHeader) : g.stop ≤ 8 * lineSize :=
  Nat.le_trans h.stop_le (by decide)

/-- The codes are positive, fit the field and differ. -/
structure Field.Tells (g : Field) (codes : List UInt64) : Prop where
  fits : ∀ c ∈ codes, c ≠ 0 ∧ c.toNat ≤ g.maxValue
  nodup : codes.Nodup

def HeaderPart.Apart (p q : HeaderPart) : Prop := p.stop ≤ q.start ∨ q.stop ≤ p.start

namespace Format

/-- A format that can be used. -/
structure Accepted (f : Format) : Prop where
  valid_eq : f.valid = ⟨0, 1⟩
  len_in : f.len.InHeader
  ty_in : f.ty.InHeader
  hdrTy_in : f.hdrTy.InHeader
  funcPtr_in : f.funcPtr.InHeader
  xid_in : f.xid.InHeader
  bypass_le : f.bypassOffset.toNat + f.bypassSize.toNat ≤ headerSize
  args_le : f.argsOffset.toNat + f.argsSize ≤ headerSize
  valid_apart : ∀ p ∈ f.lenPart :: f.tyPart :: f.privateParts, f.validPart.Apart p
  len_apart : ∀ p ∈ f.tyPart :: f.privateParts, f.lenPart.Apart p
  ty_apart : ∀ p ∈ f.privateParts, f.tyPart.Apart p
  hdrTy_bypass : f.hdrTyPart.Apart f.bypassPart
  funcPtr_xid : f.funcPtrPart.Apart f.xidPart
  funcPtr_args : f.funcPtrPart.Apart f.argsPart
  xid_args : f.xidPart.Apart f.argsPart
  ty_tells : f.ty.Tells [f.tags.bypass, f.tags.call, f.tags.reply]
  hdrTy_tells : f.hdrTy.Tells [f.tags.ethernet, f.tags.ip, f.tags.udp]

theorem holds_apart {p q : HeaderPart} : (p.apart q).holds = true ↔ p.Apart q := by
  simp only [HeaderPart.apart, HeaderPart.Apart, Field.runsMeet, Bool.not_eq_true',
    Bool.and_eq_false_iff, decide_eq_false_iff_not, Nat.not_lt]
  exact or_comm

theorem holds_fieldRules {name : String} {g : Field} :
    (∀ r ∈ fieldRules name g, r.holds = true) ↔ g.InHeader := by
  simp only [fieldRules, List.forall_mem_cons, List.not_mem_nil, false_implies, implies_true,
    and_true, Bool.and_eq_true, decide_eq_true_eq]
  exact ⟨fun ⟨⟨h0, h1⟩, h2⟩ => ⟨h0, h1, h2⟩, fun h => ⟨⟨h.width_pos, h.width_le⟩, h.stop_le⟩⟩

theorem holds_tagRange {g : Field} {tag : String} {c : UInt64} :
    (tagRange g tag c).holds = true ↔ c ≠ 0 ∧ c.toNat ≤ g.maxValue := by
  simp [tagRange]

theorem holds_overlapRules (f : Format) :
    (∀ r ∈ f.overlapRules, r.holds = true) ↔
      ((∀ p ∈ f.lenPart :: f.tyPart :: f.privateParts, f.validPart.Apart p) ∧
        (∀ p ∈ f.tyPart :: f.privateParts, f.lenPart.Apart p) ∧
        (∀ p ∈ f.privateParts, f.tyPart.Apart p)) ∧
      f.hdrTyPart.Apart f.bypassPart ∧ f.funcPtrPart.Apart f.xidPart ∧
      f.funcPtrPart.Apart f.argsPart ∧ f.xidPart.Apart f.argsPart := by
  simp only [overlapRules, List.forall_mem_append, List.forall_mem_map, holds_apart,
    List.forall_mem_cons, List.cons_append, List.nil_append, List.not_mem_nil, false_implies,
    implies_true, and_true, and_assoc]

theorem holds_tagRules (f : Format) :
    (∀ r ∈ f.tagRules, r.holds = true) ↔
      f.ty.Tells [f.tags.bypass, f.tags.call, f.tags.reply] ∧
        f.hdrTy.Tells [f.tags.ethernet, f.tags.ip, f.tags.udp] := by
  have distinct (a b c : UInt64) : [a, b, c].Nodup ↔ a ≠ b ∧ a ≠ c ∧ b ≠ c := by
    simp [and_assoc]
  have split (g : Field) (a b c : UInt64) : g.Tells [a, b, c] ↔
      (∀ x ∈ [a, b, c], x ≠ 0 ∧ x.toNat ≤ g.maxValue) ∧ a ≠ b ∧ a ≠ c ∧ b ≠ c := by
    rw [← distinct]
    exact ⟨fun h => ⟨h.fits, h.nodup⟩, fun h => ⟨h.1, h.2⟩⟩
  simp only [split, tagRules, List.forall_mem_cons, holds_tagRange, tagsDiffer,
    List.not_mem_nil, false_implies, implies_true, and_true, decide_eq_true_eq]
  constructor
  · rintro ⟨b, bc, br, c, cr, r, e, ei, eu, i, iu, u⟩
    exact ⟨⟨⟨b, c, r⟩, bc, br, cr⟩, ⟨e, i, u⟩, ei, eu, iu⟩
  · rintro ⟨⟨⟨b, c, r⟩, bc, br, cr⟩, ⟨e, i, u⟩, ei, eu, iu⟩
    exact ⟨b, bc, br, c, cr, r, e, ei, eu, i, iu, u⟩

theorem check_eq_ok {f : Format} : f.check = .ok () ↔ f.Accepted := by
  have window (p : HeaderPart) : (windowRule p).holds = true ↔ p.stop ≤ 8 * headerSize := by
    simp [windowRule]
  rw [check, Rule.check_eq_ok]
  simp only [rules, List.forall_mem_append, List.forall_mem_cons, List.not_mem_nil,
    false_implies, implies_true, and_true, holds_fieldRules, window, decide_eq_true_eq]
  have hb : f.bypassPart.stop ≤ 8 * headerSize ↔
      f.bypassOffset.toNat + f.bypassSize.toNat ≤ headerSize := by
    simp only [bypassPart, HeaderPart.ofWindow]
    omega
  have ha : f.argsPart.stop ≤ 8 * headerSize ↔ f.argsOffset.toNat + f.argsSize ≤ headerSize := by
    simp only [argsPart, HeaderPart.ofWindow]
    omega
  rw [hb, ha, holds_overlapRules, holds_tagRules]
  constructor
  · rintro ⟨⟨⟨⟨⟨⟨⟨⟨v, l⟩, t⟩, h⟩, p⟩, x⟩, b, a⟩, ⟨vs, ls, ts⟩, hb, px, pa, xa⟩, tt, ht⟩
    exact ⟨v, l, t, h, p, x, b, a, vs, ls, ts, hb, px, pa, xa, tt, ht⟩
  · rintro ⟨v, l, t, h, p, x, b, a, vs, ls, ts, hb, px, pa, xa, tt, ht⟩
    exact ⟨⟨⟨⟨⟨⟨⟨⟨v, l⟩, t⟩, h⟩, p⟩, x⟩, b, a⟩, ⟨vs, ls, ts⟩, hb, px, pa, xa⟩, tt, ht⟩

end Format
end LineExchange
