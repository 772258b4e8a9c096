import LineExchange.Proofs.Layout.Lines
import LineExchange.Proofs.Memory.Lawful

/-!
# LineExchange.Proofs.Nic.Locate

Which accesses a device reacts to. It divides an offset by the stride and looks for the rest among
the control lines of a window. In a checked layout this undoes the address map.

* `Nic.of_locate`: a line that is found starts at the offset. This holds of any layout.
* `Nic.locate_eq_some`: in a checked layout every control line is found.
* `Nic.locate_line`, `Nic.locate_beyond`: inside a line, at a line of another kind and behind the
  last window nothing is found.
* `Nic.cores_after`: an access changes what the device keeps for a core only if it starts at a
  control line of this core.
* `Nic.reacts_to_control`: so reads of RX control lines and touches of TX control lines are answered
  by the reaction of their own line, and all other accesses go to the memory as they are.
-/

namespace LineExchange
namespace Nic

variable {M : Type} {n : Nic M} {core offset : Nat} {d : Direction} {parity : Bool}

/-! ## Offsets taken apart -/

theorem of_locate (h : n.locate offset = some (core, d, parity)) :
    core < n.cores.size ∧ offset = n.layout.controlAt core d parity := by
  unfold locate at h
  dsimp only at h
  split at h
  · next hlt =>
    obtain ⟨⟨d', parity'⟩, -, hsome⟩ := List.exists_of_findSome?_eq_some h
    dsimp only at hsome
    split at hsome
    · next hrel =>
      cases hsome
      refine ⟨hlt, ?_⟩
      rw [Layout.controlAt, Layout.coreBase, ← hrel]
      exact (Nat.div_add_mod' offset _).symm
    · cases hsome
  · cases h

theorem locate_offset {o : Nat} (ho : o < n.layout.stride.toNat) (hcore : core < n.cores.size) :
    n.locate (n.layout.coreBase core + o) =
      [(Direction.rx, false), (.tx, false), (.rx, true), (.tx, true)].findSome? fun (d, parity) =>
        if o = n.layout.controlOffset d parity then some (core, d, parity) else none := by
  have hpos : 0 < n.layout.stride.toNat := by omega
  have hdiv : (n.layout.coreBase core + o) / n.layout.stride.toNat = core := by
    rw [Layout.coreBase, Nat.mul_comm, Nat.mul_add_div hpos, Nat.div_eq_of_lt ho, Nat.add_zero]
  have hmod : (n.layout.coreBase core + o) % n.layout.stride.toNat = o := by
    rw [Layout.coreBase, Nat.mul_comm, Nat.mul_add_mod, Nat.mod_eq_of_lt ho]
  simp only [locate, hdiv, hmod, hcore, if_true]

section Ordered

variable (h : n.layout.Ordered)
include h

theorem controlOffset_ne {d' : Direction} {parity' : Bool}
    (hne : Part.control d parity ≠ .control d' parity') :
    n.layout.controlOffset d parity ≠ n.layout.controlOffset d' parity' := by
  have hpos : 0 < lineSize := by decide
  have hlen (d : Direction) (parity : Bool) : (Part.control d parity).len n.layout = lineSize := rfl
  have hat (d : Direction) (parity : Bool) :
      (Part.control d parity).offset n.layout = n.layout.controlOffset d parity := rfl
  have := Part.apart h hne
  simp only [hlen, hat] at this
  omega

/-- The order in which the four lines are tried does not matter, as no two start together. -/
theorem locate_control (hcore : core < n.cores.size) (d : Direction) (parity : Bool) :
    n.locate (n.layout.controlAt core d parity) = some (core, d, parity) := by
  have hlt : n.layout.controlOffset d parity < n.layout.stride.toNat :=
    Layout.lt_of_line_le ((Part.control d parity).within h)
  have hne (d' : Direction) (parity' : Bool)
      (hn : Part.control d parity ≠ .control d' parity') :
      n.layout.controlOffset d parity ≠ n.layout.controlOffset d' parity' :=
    controlOffset_ne h hn
  rw [Layout.controlAt, locate_offset hlt hcore]
  cases d <;> cases parity <;> simp [List.findSome?, hne]

theorem locate_eq_some : n.locate offset = some (core, d, parity) ↔
    core < n.cores.size ∧ offset = n.layout.controlAt core d parity := by
  constructor
  · exact of_locate
  · rintro ⟨hcore, rfl⟩
    exact locate_control h hcore d parity

theorem locate_eq_none : n.locate offset = none ↔
    ∀ core d parity, core < n.cores.size → offset ≠ n.layout.controlAt core d parity := by
  rw [Option.eq_none_iff_forall_ne_some]
  constructor
  · rintro hnone core d parity hcore rfl
    exact hnone _ (locate_control h hcore d parity)
  · rintro hne ⟨core, d, parity⟩ hsome
    obtain ⟨hcore, hat⟩ := of_locate hsome
    exact hne core d parity hcore hat

/-- A byte of a line is the start of a control line only if it is the first of this line. -/
theorem eq_of_lineAt_add_eq {s : WindowLine} (hs : s.In n.layout) {i other : Nat}
    (hi : i < lineSize) (heq : n.layout.lineAt core s + i = n.layout.controlAt other d parity) :
    core = other ∧ s = .control d parity ∧ i = 0 := by
  have hat : n.layout.lineAt other (.control d parity) = n.layout.controlAt other d parity := rfl
  by_cases hsame : (core, s) = (other, .control d parity)
  · cases hsame
    exact ⟨rfl, rfl, by omega⟩
  · have := n.layout.lineAt_apart h hs (t := .control d parity) trivial hsame
    omega

theorem locate_line {s : WindowLine} (hs : s.In n.layout) {i : Nat} (hi : i < lineSize)
    (hne : i = 0 → ∀ d parity, s ≠ .control d parity) :
    n.locate (n.layout.lineAt core s + i) = none := by
  refine (locate_eq_none h).2 fun other d parity _ heq => ?_
  obtain ⟨-, hline, hzero⟩ := eq_of_lineAt_add_eq h hs hi heq
  exact hne hzero d parity hline

theorem locate_beyond (hcore : n.cores.size ≤ core) (i : Nat) :
    n.locate (n.layout.coreBase core + i) = none := by
  refine (locate_eq_none h).2 fun other d parity hother => ?_
  have hwindow := n.layout.coreBase_add_stride_le (Nat.lt_of_lt_of_le hother hcore)
  have hline : n.layout.controlOffset d parity < n.layout.stride.toNat :=
    Layout.lt_of_line_le ((Part.control d parity).within h)
  unfold Layout.controlAt
  omega

/-- Where an overflow array starts no RX control line does, even if the array is empty. -/
theorem locate_overflow (hcore : core < n.cores.size) (parity : Bool) (other : Nat) :
    n.locate (n.layout.overflowAt core .rx) ≠ some (other, .rx, parity) := by
  obtain ⟨h1, h2, h3, h4⟩ := h
  have hpos : lineSize = 128 := rfl
  unfold Layout.span at h2 h3
  have hlt : n.layout.overflowBase .rx < n.layout.stride.toNat := by
    simp only [Layout.overflowBase, Layout.directionBase]
    omega
  have hne (parity : Bool) : n.layout.overflowBase .rx ≠ n.layout.controlOffset .rx parity := by
    cases parity <;>
      simp only [Layout.overflowBase, Layout.controlOffset, Layout.directionBase, Bool.toNat_false,
        Bool.toNat_true] <;> omega
  rw [Layout.overflowAt, locate_offset hlt hcore]
  intro hfound
  obtain ⟨⟨dir, parity'⟩, -, hsome⟩ := List.exists_of_findSome?_eq_some hfound
  dsimp only at hsome
  split at hsome
  · next heq =>
    cases hsome
    exact hne _ heq
  · cases hsome

end Ordered

/-! ## Reactions -/

/-- Whether there is a reaction is decided in the state in which an access starts. -/
theorem run_get_bind {α : Type} (f : Nic M → Access (Nic M) α) (n : Nic M) :
    Access.run (get >>= f) n = Access.run (f n) n := Ends.bind (.get n) (.intro (f n) n)

variable [Memory M]

/-- What is kept for another core stays. -/
theorem keepsParts_other {other : Nat} (hne : other ≠ core) (k : Option NicCore) :
    KeepsParts core fun n : Nic M => n.cores[other]? = k where
  load _ := .onPart fun _ _ _ _ h => h
  read _ _ := .onPart fun _ _ _ _ h => h
  write _ _ := .onPart fun _ _ _ _ h => h
  modifyCore f := .modify fun n h => by
    rw [Array.getElem?_modify, if_neg (Ne.symm hne)]
    exact h

/-- An access changes what is kept for a core only if it starts at one of its control lines. -/
theorem cores_after (n : Nic M) (a : HostAccess) (other : Nat)
    (hne : ∀ d parity, a.start ≠ n.layout.controlAt other d parity) :
    (a.after n).cores[other]? = n.cores[other]? := by
  have apart {core : Nat} {d : Direction} {parity : Bool}
      (hat : n.locate a.start = some (core, d, parity)) : other ≠ core := by
    rintro rfl
    exact hne d parity (of_locate hat).2
  have passed {α : Type} (b : Access M α) :
      Keeps (fun k : Nic M => k.cores[other]? = n.cores[other]?) (onMemory b) :=
    .onPart fun _ _ _ _ h => h
  have decided {α : Type} {f : Nic M → Access (Nic M) α}
      (hf : Keeps (fun k => k.cores[other]? = n.cores[other]?) (f n)) :
      (Access.run (get >>= f) n).2.cores[other]? = n.cores[other]? := by
    rw [run_get_bind]
    exact hf.out (.intro (f n) n) rfl
  cases a with
  | read offset len =>
    rw [← HostAccess.after_read]
    refine decided ?_
    split
    · next hat => exact ((keepsParts_other (apart hat) _).serveRx _).bind fun _ => passed _
    · exact passed _
  | write offset data => rfl
  | touch offset =>
    refine decided ?_
    split
    · next hat => exact ((keepsParts_other (apart hat) _).consumeTx _).bind fun _ => passed _
    · exact passed _
  | invalidate offset => rfl

theorem run_read_control (hat : n.locate offset = some (core, .rx, parity)) (len : Nat) :
    Access.run (Memory.read offset len) n =
      Access.run (serveRx core parity >>= fun _ => onMemory (Memory.read offset len)) n := by
  refine (run_get_bind _ n).trans ?_
  rw [hat]

theorem run_read_other (hne : ∀ core parity, n.locate offset ≠ some (core, .rx, parity))
    (len : Nat) :
    Access.run (Memory.read offset len) n = Access.run (onMemory (Memory.read offset len)) n := by
  refine (run_get_bind _ n).trans ?_
  split
  · next core parity hat => exact absurd hat (hne core parity)
  · rfl

theorem run_touch_control (hat : n.locate offset = some (core, .tx, parity)) :
    Access.run (Memory.touch offset) n =
      Access.run (consumeTx core parity >>= fun _ => onMemory (Memory.touch offset)) n := by
  refine (run_get_bind _ n).trans ?_
  rw [hat]

theorem run_touch_other (hne : ∀ core parity, n.locate offset ≠ some (core, .tx, parity)) :
    Access.run (Memory.touch offset) n = Access.run (onMemory (Memory.touch offset)) n := by
  refine (run_get_bind _ n).trans ?_
  split
  · next core parity hat => exact absurd hat (hne core parity)
  · rfl

/-- The device undoes the address map: what it makes of an offset. -/
structure DecodesOffsets (n : Nic M) : Prop where
  some_iff : ∀ offset core d parity, n.locate offset = some (core, d, parity) ↔
    core < n.cores.size ∧ offset = n.layout.coreBase core + n.layout.controlOffset d parity
  none_iff : ∀ offset, n.locate offset = none ↔ ∀ core d parity, core < n.cores.size →
    offset ≠ n.layout.coreBase core + n.layout.controlOffset d parity
  /-- The bytes of all other lines, and those of a control line but the first, are nothing to it. -/
  line : ∀ core (s : WindowLine) i, s.In n.layout → i < lineSize →
    (i = 0 → ∀ d parity, s ≠ .control d parity) → n.locate (n.layout.lineAt core s + i) = none
  beyond : ∀ core i, n.cores.size ≤ core → n.locate (n.layout.coreBase core + i) = none
  /-- The sums are words. -/
  words : ∀ core d parity, core < n.cores.size →
    n.layout.coreBase core + n.layout.controlOffset d parity ≤ wordMax

/-- The device reacts to reads of RX control lines and to touches of TX control lines, by the
reaction of the line. Every other access goes to the memory behind it as it is. -/
structure ReactsByLine (n : Nic M) : Prop where
  read_control : ∀ core parity len, core < n.cores.size →
    Access.run (Memory.read (n.layout.controlAt core .rx parity) len) n =
      Access.run (serveRx core parity >>= fun _ =>
        onMemory (Memory.read (n.layout.controlAt core .rx parity) len)) n
  read_other : ∀ offset len,
    (∀ core parity, core < n.cores.size → offset ≠ n.layout.controlAt core .rx parity) →
    Access.run (Memory.read offset len) n = Access.run (onMemory (Memory.read offset len)) n
  read_overflow : ∀ core d i k len, i < n.layout.overflowLines.toNat → k < lineSize →
    Access.run (Memory.read (n.layout.overflowAt core d + i * lineSize + k) len) n =
      Access.run (onMemory (Memory.read (n.layout.overflowAt core d + i * lineSize + k) len)) n
  touch_control : ∀ core parity, core < n.cores.size →
    Access.run (Memory.touch (n.layout.controlAt core .tx parity)) n =
      Access.run (consumeTx core parity >>= fun _ =>
        onMemory (Memory.touch (n.layout.controlAt core .tx parity))) n
  touch_other : ∀ offset,
    (∀ core parity, core < n.cores.size → offset ≠ n.layout.controlAt core .tx parity) →
    Access.run (Memory.touch offset) n = Access.run (onMemory (Memory.touch offset)) n
  write : ∀ offset data,
    Access.run (Memory.write offset data) n = Access.run (onMemory (Memory.write offset data)) n
  /-- What is kept for a core is changed by an access to its own control lines only. -/
  others : ∀ (a : HostAccess) other, (∀ d parity, a.start ≠ n.layout.controlAt other d parity) →
    (a.after n).cores[other]? = n.cores[other]?

omit [Memory M] in
theorem decodes_of_check (h : n.layout.Ordered) {r : Nat}
    (hr : n.layout.regionSize n.cores.size = some r) : n.DecodesOffsets where
  some_iff _ _ _ _ := locate_eq_some h
  none_iff _ := locate_eq_none h
  line _ _ _ hs hi hne := locate_line h hs hi hne
  beyond _ i hcore := locate_beyond h hcore i
  words core d parity hcore := by
    have hend : n.layout.controlAt core d parity + lineSize ≤ r :=
      n.layout.fits_of_regionSize h hr (Nat.le_refl r) core hcore (.control d parity)
    have hmax := (n.layout.regionSize_eq (by omega) hr).2
    exact Nat.le_trans (Nat.le_add_right _ lineSize) (Nat.le_trans hend hmax)

theorem reacts_of_ordered (h : n.layout.Ordered) : n.ReactsByLine where
  read_control core parity len hcore := run_read_control (locate_control h hcore .rx parity) len
  read_other offset len hne := by
    refine run_read_other (fun core parity hat => ?_) len
    obtain ⟨hcore, heq⟩ := of_locate hat
    exact hne core parity hcore heq
  read_overflow core d i k len hi hk := by
    have hnone : n.locate (n.layout.lineAt core (.overflow d i) + k) = none :=
      locate_line h (s := .overflow d i) hi hk fun _ _ _ => nofun
    have hat : n.layout.lineAt core (.overflow d i) =
        n.layout.overflowAt core d + i * lineSize := (Nat.add_assoc ..).symm
    rw [hat] at hnone
    exact run_read_other (fun core parity => by rw [hnone]; exact nofun) len
  touch_control core parity hcore := run_touch_control (locate_control h hcore .tx parity)
  touch_other offset hne := by
    refine run_touch_other fun core parity hat => ?_
    obtain ⟨hcore, heq⟩ := of_locate hat
    exact hne core parity hcore heq
  write _ _ := rfl
  others := cores_after n

/-- **The device's decoder undoes the address map** of a checked layout, so each control line has
its own reaction, and nothing else has one. -/
theorem reacts_to_control (hl : n.layout.check = .ok ()) {r : Nat}
    (hr : n.layout.regionSize n.cores.size = some r) : n.DecodesOffsets ∧ n.ReactsByLine :=
  ⟨decodes_of_check (n.layout.ordered_of_check hl) hr,
    reacts_of_ordered (n.layout.ordered_of_check hl)⟩

/-- Three windows whose stride is no power of two, and an unused line before the first part of each.
In the second window a TX control line, and the overflow line behind the RX control lines. -/
theorem reacts_to_control_narrow :
    let l : Layout := ⟨0x80, 0x280, 0x100, 2, 0x480, 0x580⟩
    let n : Nic Region := ⟨.zeros 0x1000, l, {}, #[{}, {}, {}]⟩
    l.check = .ok () ∧ l.regionSize 3 = some 0x1000 ∧ n.DecodesOffsets ∧ n.ReactsByLine ∧
      n.locate 0x880 = some (1, .tx, true) ∧ n.locate 0x700 = none := by
  intro l n
  have hl : l.check = .ok () := by decide
  have hr : l.regionSize 3 = some 0x1000 := by decide
  obtain ⟨hdecodes, hreacts⟩ := reacts_to_control (n := n) hl hr
  have hat : n.layout.lineAt 1 (.overflow .rx 0) + 0 = 0x700 := by decide
  refine ⟨hl, hr, hdecodes, hreacts, (hdecodes.some_iff ..).2 ⟨by decide, by decide⟩, ?_⟩
  rw [← hat]
  exact hdecodes.line 1 (.overflow .rx 0) 0 (by decide : 0 < 2) (by decide) fun _ _ _ => nofun

end Nic
end LineExchange
