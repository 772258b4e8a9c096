import LineExchange.Proofs.Exchange.Section
import LineExchange.Proofs.Parity.Device

/-!
# LineExchange.Proofs.Parity.Calls

What calls do to the pace of an owner and a device. A call on a mapped core never breaks off, and
its result tells whether it made an exchange (`Exchange.Ended`); bringing up a core makes one for
each of its receives that tells so (`Exchange.Paced.bringUp`).
-/

namespace LineExchange

open ControlByte (isBusy setBusy LetsIn)
open Memory (stored)

variable {α β σ : Type} {c : Config} {core : Nat} {p p' : Pace}

theorem Nic.Counts.put {t : Tally} {d : Nic Region} (h : d.Counts c core t) (byte : UInt8) :
    Nic.Counts c core t
      { d with memory := ⟨d.memory.bytes.put (c.layout.workerAt core) byte⟩ } :=
  h.withMemory (Bytes.size_put ..)

namespace Host

variable {P : Nic Region → Prop} {t : Tally} {h : Host Backing}

/-- A host with the settings `c`, on a device that is in `P`. -/
structure On (c : Config) (P : Nic Region → Prop) (h : Host Backing) : Prop where
  config : h.config = c
  device : ∃ d, h.memory = .device d ∧ P d

theorem meets_access (onPlain : Access Region α) {onDevice : Access (Nic Region) α}
    {Q : α → Nic Region → Prop} {E : Fault → Host Backing → Prop}
    (ha : Meets P onDevice Q Never) :
    Meets (On c P) (onMemory (Backing.access onPlain onDevice)) (fun v => On c (Q v)) E := by
  refine .of_ends ?_
  intro h hh
  obtain ⟨d, hmem, hd⟩ := hh.device
  cases hr : (ExceptT.run onDevice).run d with
  | mk r d' =>
    have hpost := ha.out hr hd
    have hend : Ends (Backing.access onPlain onDevice) h.memory r (.device d') := by
      rw [hmem]
      exact Backing.ends_access_device hr
    cases r with
    | ok v => exact ⟨_, _, ends_onMemory hend, hh.config, d', rfl, hpost⟩
    | error f => exact hpost.elim

theorem On.workerAt_lt (hh : h.On c (Nic.Counts c core t)) :
    h.workerAt core < Memory.size h.memory := by
  obtain ⟨d, hmem, hd⟩ := hh.device
  rw [workerAt, hh.config, hmem]
  exact hd.worker_lt

theorem On.lt_numCores (hh : h.On c (Nic.Counts c core t)) : core < c.numCores := by
  obtain ⟨d, -, hd⟩ := hh.device
  exact hd.lt_numCores

theorem On.coreError? (hh : h.On c (Nic.Counts c core t)) : h.coreError? core = none := by
  rw [Host.coreError?, hh.config, if_pos hh.lt_numCores]

theorem On.counts (hh : h.On c (Nic.Held c core t)) : h.On c (Nic.Counts c core t) := by
  obtain ⟨d, hmem, hd⟩ := hh.device
  exact ⟨hh.config, d, hmem, hd.counts⟩

/-- Storing a control byte changes nothing that is counted. -/
theorem On.withGate (hh : h.On c (Nic.Counts c core t)) (g : Gate) :
    (h.withGate core g).On c (Nic.Counts c core t) ∧
      (isBusy g.byte = true → (h.withGate core g).On c (Nic.Held c core t)) := by
  obtain ⟨d, hmem, hd⟩ := hh.device
  have hin := hd.worker_lt
  have hstored : stored (h.workerAt core) g.byte h.memory =
      .device { d with memory := ⟨d.memory.bytes.put (c.layout.workerAt core) g.byte⟩ } := by
    rw [workerAt, hh.config, hmem]
    have hend : Ends (Memory.storeControl (c.layout.workerAt core) g.byte) (Backing.device d)
        (.ok ()) _ :=
      Backing.ends_access_device (Nic.ends_onMemory (Region.ends_storeControl g.byte hin))
    exact congrArg Prod.snd hend
  refine ⟨⟨hh.config, _, hstored, hd.put _⟩, ?_⟩
  intro hbusy
  refine ⟨hh.config, _, hstored, hd.put _, ?_⟩
  rw [Layout.byteAt_put_worker _ hin]
  exact hbusy

theorem meets_onGate {E : Fault → Host Backing → Prop} (f : Gate → α × Gate) :
    Meets (On c (Nic.Counts c core t)) (onGate core f) (fun _ => On c (Nic.Counts c core t)) E :=
  .of_ends fun _ hh => ⟨_, _, ends_onGate f hh.workerAt_lt, (hh.withGate _).1⟩

end Host

namespace Exchange

/-- An owner that expects the lines `next`, on a device that is in `P`. -/
structure On (c : Config) (core : Nat) (next : Parity) (P : Nic Region → Prop)
    (x : Exchange Backing) : Prop where
  host : x.host.On c P
  core : x.owner.core = core
  next : x.owner.next = next

/-- Owner and device are at a pace. -/
def Paced (c : Config) (core : Nat) (p : Pace) : Exchange Backing → Prop :=
  On c core p.owner (Nic.Counts c core p.device)

/-- So they are, and someone is inside the gate of the core. -/
def Held (c : Config) (core : Nat) (p : Pace) : Exchange Backing → Prop :=
  On c core p.owner (Nic.Held c core p.device)

section Body

variable {next : Parity} {P : Nic Region → Prop} {E : Stop → Exchange Backing → Prop}

theorem meets_access {onPlain : Access Region α} {onDevice : Access (Nic Region) α}
    {Q : α → Nic Region → Prop} (h : Meets P onDevice Q Never) :
    Meets (On c core next P) (onMemory (Backing.access onPlain onDevice) : Step Backing α)
      (fun v => On c core next (Q v)) E := by
  refine .of_ends ?_
  intro x hx
  cases hr : (ExceptT.run (Host.onMemory (Backing.access onPlain onDevice))).run x.host with
  | mk r host =>
    have hpost := (Host.meets_access (E := Never) onPlain h).out hr hx.host
    cases r with
    | ok v => exact ⟨_, _, ends_onHost hr, hpost, hx.core, hx.next⟩
    | error f => exact hpost.elim

theorem meets_count (f : Stats → Stats) :
    Meets (On c core next P) (count f : Step Backing Unit) (fun _ => On c core next P) E :=
  .modify fun _ hx => ⟨hx.host, hx.core, hx.next⟩

theorem meets_toggle (d : Direction) : Meets (On c core next P) (toggle d : Step Backing Unit)
    (fun _ => On c core (next.toggle d) P) E :=
  .modify fun _ hx => ⟨hx.host, hx.core, congrArg (Parity.toggle · d) hx.next⟩

theorem meets_fillBuffer (start : Nat) (data : Bytes) :
    Meets (On c core next P) (fillBuffer start data : Step Backing Unit)
      (fun _ => On c core next P) E :=
  .modify fun _ hx => ⟨hx.host, hx.core, hx.next⟩

variable (hl : c.layout.Ordered)
include hl

/-- Inside the gate, a receive makes an exchange, also where the payload is too large. -/
theorem meets_poll : Meets (Held c core p) (poll : Step Backing (Option Received))
    (fun _ => Held c core (p.exchange .rx))
    (fun e x => (∃ len capacity, e = .refused (.overflowExceeded len capacity)) ∧
      Held c core (p.exchange .rx) x) := by
  refine .get_bind ?_
  intro x hx
  rw [hx.host.config, hx.core, hx.next]
  refine .bind (.map (meets_access (Nic.Held.read_control hl p.owner.rx)) _ fun _ _ h => h)
    fun line => (meets_toggle .rx).bind fun _ => ?_
  change Meets (Held c core (p.exchange .rx)) _ _ _
  have finish {r : Exchange Backing → Received} : Meets (Held c core (p.exchange .rx))
      (get >>= fun z => pure (some (r z)) : Step Backing (Option Received))
      (fun _ => Held c core (p.exchange .rx))
      (fun e x => (∃ len capacity, e = .refused (.overflowExceeded len capacity)) ∧
        Held c core (p.exchange .rx) x) :=
    .get_bind fun _ _ => .pure fun _ h => h
  dsimp only
  split
  · split
    · exact .throw fun _ h => ⟨⟨_, _, rfl⟩, h⟩
    · next hfits =>
      have hcap := c.layout.payloadCapacity_eq hl
      have hlen : (c.format.decode line).length - inlineSize ≤ c.layout.overflowSize := by
        unfold rxLimit at hfits
        rw [hx.host.config] at hfits
        omega
      refine (meets_fillBuffer 0 _).bind fun _ => ?_
      split
      · refine .bind (meets_access (Nic.Held.read_overflow hl hlen)) fun data => ?_
        exact (meets_fillBuffer _ data).bind fun _ => finish
      · exact finish
  · exact (meets_count _).bind fun _ => .pure fun _ h => h

theorem meets_ringDoorbell : Meets (Held c core p) (ringDoorbell : Step Backing Unit)
    (fun _ => Held c core (p.exchange .tx)) E := by
  refine (meets_toggle .tx).bind fun _ => .get_bind ?_
  intro x hx
  rw [hx.host.config, hx.core, hx.next]
  have touch : Meets (Nic.Held c core p.device) _ _ Never :=
    Nic.Held.touch hl (p.owner.toggle .tx).tx
  have hparity : (!(p.owner.toggle .tx).tx) = p.owner.tx := Bool.not_not p.owner.tx
  rw [hparity] at touch
  exact meets_access touch

theorem meets_writeStaged {d : Descriptor} (line : Line)
    (hd : d.payload.size ≤ c.layout.payloadCapacity) :
    Meets (Held c core p) (writeStaged d line : Step Backing Unit) (fun _ => Held c core p) E := by
  refine .get_bind ?_
  intro x hx
  rw [hx.host.config, hx.core]
  have control : Meets (Held c core p) (onMemory (Memory.write
      (c.layout.controlAt core .tx x.owner.next.tx) line.bytes) : Step Backing Unit)
      (fun _ => Held c core p) E :=
    meets_access (Nic.Held.writeLine hl .tx _ line)
  have hsize : (d.payload.slice inlineSize (d.payload.size - inlineSize)).size ≤
      c.layout.overflowSize := by
    rw [c.layout.payloadCapacity_eq hl] at hd
    rw [Bytes.size_slice]
    omega
  dsimp only
  split
  · exact (meets_access (Nic.Held.write hl (.overflow .tx) (by simp) hsize)).bind fun _ => control
  · exact control

/-- Inside the gate, a transmit makes an exchange, also where nothing can be sent. -/
theorem meets_send {d : Descriptor} (hd : d.payload.size ≤ c.layout.payloadCapacity) :
    Meets (Held c core p) (send d : Step Backing (Except EncodeError Unit))
      (fun _ => Held c core (p.exchange .tx)) E := by
  have ring {r : Except EncodeError Unit} : Meets (Held c core p)
      (ringDoorbell >>= fun _ => pure r : Step Backing (Except EncodeError Unit))
      (fun _ => Held c core (p.exchange .tx)) E :=
    (meets_ringDoorbell hl).bind fun _ => .pure fun _ h => h
  refine .get_bind ?_
  intro x _
  split
  · exact (meets_writeStaged hl _ hd).bind fun _ => ring
  · exact ring

end Body

/-! ## The gate -/

theorem Paced.workerAt_lt {x : Exchange Backing} (hx : Paced c core p x) :
    x.host.workerAt x.owner.core < Memory.size x.host.memory := by
  rw [hx.core]
  exact hx.host.workerAt_lt

theorem Paced.coreError? {x : Exchange Backing} (hx : Paced c core p x) :
    x.host.coreError? x.owner.core = none := by
  rw [hx.core]
  exact hx.host.coreError?

theorem Held.paced {x : Exchange Backing} (hx : Held c core p x) : Paced c core p x :=
  ⟨hx.host.counts, hx.core, hx.next⟩

theorem Paced.withGate {x : Exchange Backing} (hx : Paced c core p x) (g : Gate) :
    Paced c core p { x with host := x.host.withGate x.owner.core g } ∧
      (isBusy g.byte = true →
        Held c core p { x with host := x.host.withGate x.owner.core g }) := by
  obtain ⟨hcounts, hheld⟩ := hx.host.withGate g
  rw [hx.core]
  exact ⟨⟨hcounts, hx.core, hx.next⟩, fun hbusy => ⟨hheld hbusy, hx.core, hx.next⟩⟩

theorem meets_guarded {body : Step Backing α} {F : Stop → Prop}
    (h : Meets (Held c core p) body (fun _ => Held c core p')
      (fun e x => F e ∧ Held c core p' x)) :
    Meets (Held c core p) (guarded body) (fun _ => Paced c core p')
      (fun e x => F e ∧ Paced c core p' x) := by
  refine .of_ends ?_
  intro x hx
  cases hr : (ExceptT.run body).run x with
  | mk r y =>
    have hpost := h.out hr hx
    cases r with
    | ok v =>
      have hy : Paced c core p' y := Held.paced hpost
      exact ⟨_, _, ends_guarded hr hy.workerAt_lt, (hy.withGate _).1⟩
    | error e =>
      have hy : Paced c core p' y := Held.paced hpost.2
      exact ⟨_, _, ends_guarded hr hy.workerAt_lt, hpost.1, (hy.withGate _).1⟩

/-- How a call ends that may make an exchange: it does if its result tells so, and it has not
broken off. -/
structure Ended (c : Config) (core : Nat) (made : Except Stop α → Bool) (p p' : Pace)
    (r : Except Stop α) (y : Exchange Backing) : Prop where
  paced : Paced c core (if made r then p' else p) y
  whole : ∀ f, r ≠ .error (.fault f)

section Ended

variable {made : Except Stop α → Bool} {r : Except Stop α} {y : Exchange Backing}

theorem Ended.of_made (hmade : made r = true) (hy : Paced c core p' y)
    (hwhole : ∀ f, r ≠ .error (.fault f)) : Ended c core made p p' r y :=
  ⟨(if_pos hmade).symm ▸ hy, hwhole⟩

theorem Ended.of_none (hmade : made r = false) (hy : Paced c core p y)
    (hwhole : ∀ f, r ≠ .error (.fault f)) : Ended c core made p p' r y :=
  ⟨(if_neg (ne_true_of_eq_false hmade)).symm ▸ hy, hwhole⟩

end Ended

/-- A call enters and makes an exchange, or gives up in front of the gate. -/
theorem Paced.entering {x : Exchange Backing} (hx : Paced c core p x) {made : Except Stop α → Bool}
    {rest : Step Backing α}
    (hrest : Meets (Held c core p) rest (fun v y => made (.ok v) = true ∧ Paced c core p' y)
      fun e y => made (.error e) = true ∧ (∀ f, e ≠ .fault f) ∧ Paced c core p' y)
    (hstuck : ∀ k attempts, made (.error (.refused (.handshakeStuck k attempts))) = false)
    (hendless : made (.error .endless) = false) (q : SpinPolicy σ) (s : σ) :
    let y := x.entering q s rest
    Ended c core made p p' y.1 y.2.2 := by
  have inside (z : Exchange Backing) (hz : Held c core p z) :
      Ended c core made p p' (Step.run rest z).1 (Step.run rest z).2 := by
    have hpost := hrest.out (.intro rest z) hz
    change Ended c core made p p' ((ExceptT.run rest).run z).1 ((ExceptT.run rest).run z).2
    generalize (ExceptT.run rest).run z = q at hpost ⊢
    obtain ⟨r, y⟩ := q
    cases r with
    | ok v =>
      obtain ⟨hmade, hy⟩ := hpost
      exact .of_made hmade hy nofun
    | error e =>
      obtain ⟨hmade, hfault, hy⟩ := hpost
      refine .of_made hmade hy ?_
      intro f hf
      exact hfault f (Except.error.inj hf)
  have spun := Gate.spun_enter (p := q) (x.host.gateOf x.owner.core) s
  unfold Exchange.entering
  rw [enter_eq hx.workerAt_lt]
  generalize (x.host.gateOf x.owner.core).enter q s = tries at spun ⊢
  obtain ⟨r, t, g⟩ := tries
  dsimp only at spun ⊢
  cases spun with
  | stuck attempts _ => exact .of_none (hstuck ..) (hx.withGate _).1 nofun
  | endless _ => exact .of_none hendless (hx.withGate _).1 nofun
  | @entered b spins _ _ =>
    exact inside _ ((hx.withGate ⟨setBusy b true, _⟩).2 (ControlByte.isBusy_setBusy b true))

theorem Paced.ends_checkCore {x : Exchange Backing} (hx : Paced c core p x) :
    Ends checkCore x (.ok ()) x := Exchange.ends_checkCore hx.coreError?

/-- A receive makes an exchange iff it comes to a result or the payload is too large. -/
theorem Paced.receiveWith {x : Exchange Backing} (hx : Paced c core p x) (q : SpinPolicy σ) (s : σ) :
    let y := x.receiveWith q s
    Ended c core polled p (p.exchange .rx) y.1 y.2.2 := by
  have hl : c.layout.Ordered := hx.host.config ▸ x.host.ordered
  unfold Exchange.receiveWith
  rw [hx.coreError?]
  refine hx.entering ?_ (fun _ _ => rfl) rfl q s
  refine ((meets_guarded (meets_poll hl)).conseq (fun _ h => h) (fun _ _ h => h) ?_).bind fun r => ?_
  · rintro e y ⟨⟨len, capacity, rfl⟩, hy⟩
    exact ⟨rfl, nofun, hy⟩
  · cases r with
    | none => exact .pure fun y hy => ⟨rfl, hy⟩
    | some r => exact (meets_count _).bind fun _ => .pure fun y hy => ⟨rfl, hy⟩

theorem Paced.transmitStaged {x : Exchange Backing} (hx : Paced c core p x) (q : SpinPolicy σ)
    (s : σ) (d : Descriptor) :
    let y := x.transmitStaged q s d
    Ended c core rang p (p.exchange .tx) y.1 y.2.2 := by
  have hl : c.layout.Ordered := hx.host.config ▸ x.host.ordered
  unfold Exchange.transmitStaged
  rw [hx.coreError?]
  dsimp only
  split
  · exact .of_none rfl ⟨hx.host, hx.core, hx.next⟩ nofun
  · next hfits =>
    rw [hx.host.config] at hfits
    have send : Meets (Held c core p) (send d : Step Backing (Except EncodeError Unit))
        (fun _ => Held c core (p.exchange .tx))
        fun e y => False ∧ Held c core (p.exchange .tx) y := meets_send hl (Nat.not_lt.1 hfits)
    refine hx.entering ?_ (fun _ _ => rfl) rfl q s
    refine ((meets_guarded send).conseq (fun _ h => h) (fun _ _ h => h)
      fun _ _ h => h.1.elim).bind fun r => ?_
    cases r with
    | ok _ =>
      exact (meets_count _).conseq (fun _ h => h) (fun _ y hy => ⟨rfl, hy⟩) fun _ _ h => h
    | error e => exact (meets_count _).bind fun _ => .throw fun y hy => ⟨rfl, nofun, hy⟩

/-- A transmit makes an exchange iff it succeeds or nothing can be sent. -/
theorem Paced.transmitWith {x : Exchange Backing} (hx : Paced c core p x) (q : SpinPolicy σ)
    (s : σ) (d : Descriptor) :
    let y := x.transmitWith q s d
    Ended c core rang p (p.exchange .tx) y.1 y.2.2 := by
  have staged := hx.transmitStaged q s d
  unfold Exchange.transmitWith
  generalize x.transmitStaged q s d = y at staged ⊢
  obtain ⟨r, t, y⟩ := y
  obtain ⟨hpaced, hwhole⟩ := staged
  rcases r with (_ | f | _) | _
  · exact ⟨⟨hpaced.host, hpaced.core, hpaced.next⟩, hwhole⟩
  · exact absurd rfl (hwhole f)
  · exact ⟨⟨hpaced.host, hpaced.core, hpaced.next⟩, hwhole⟩
  · exact ⟨⟨hpaced.host, hpaced.core, hpaced.next⟩, hwhole⟩

theorem Paced.resync {x : Exchange Backing} (hx : Paced c core p x) (next : Parity) :
    ∃ y, Ends (resync next) x (.ok ()) y ∧ Paced c core { p with owner := next } y := by
  exact ⟨_, hx.ends_checkCore.bind (.modify _ x), hx.host, hx.core, rfl⟩

/-- Draining makes an exchange for each of its receives that tells so. -/
theorem Paced.drain {q : SpinPolicy Unit} (fuel drained : Nat) {x : Exchange Backing}
    (hx : Paced c core p x) :
    ∃ r y, Ends (Exchange.drain q fuel drained) x r y ∧
      Paced c core ((Pace.exchange .rx)^[drainPolls q fuel x] p) y ∧ ∀ f, r ≠ .error (.fault f) := by
  induction fuel generalizing x p drained with
  | zero => exact ⟨_, x, .throw _ x, hx, nofun⟩
  | succ fuel ih =>
    have receive : Ended c core polled p (p.exchange .rx) (x.receiveWith q ()).1
      (x.receiveWith q ()).2.2 := hx.receiveWith q ()
    have hend : Ends (Exchange.receive q) x (x.receiveWith q ()).1 (x.receiveWith q ()).2.2 := rfl
    have hrun : Step.run (Exchange.receive q) x = _ := hend
    unfold drainPolls
    rw [hrun]
    generalize (x.receiveWith q ()).1 = r at receive hend ⊢
    generalize (x.receiveWith q ()).2.2 = z at receive hend ⊢
    obtain ⟨hz, hwhole⟩ := receive
    rcases r with e | _ | received
    · refine ⟨_, z, .bind_error hend, ?_, ?_⟩
      · dsimp only
        cases hmade : polled (.error e) <;> rw [hmade] at hz <;> exact hz
      · intro f hf
        exact hwhole f (congrArg _ (Except.error.inj hf))
    · exact ⟨_, z, hend.bind (.pure _ z), hz, nofun⟩
    · obtain ⟨r, y, hrest, hy, hfaults⟩ := ih (drained + 1) hz
      refine ⟨r, y, hend.bind hrest, ?_, hfaults⟩
      dsimp only
      rw [Nat.add_comm]
      exact hy

theorem meets_invalidateLines : Meets (Paced c core p) (invalidateLines : Step Backing Unit)
    (fun _ => Paced c core p) Never := by
  refine .get_bind fun _ _ => .forM fun _ => meets_access ?_
  refine .of_ends ?_
  intro d hd
  exact ⟨_, d, Nic.ends_onMemory (.pure () d.memory), hd⟩

theorem Paced.ends_invalidateLines {x : Exchange Backing} (hx : Paced c core p x) :
    ∃ y, Ends invalidateLines x (.ok ()) y ∧ Paced c core p y := by
  cases hr : (ExceptT.run invalidateLines).run x with
  | mk r y =>
    have hpost := meets_invalidateLines.out hr hx
    cases r with
    | ok _ => exact ⟨y, hr, hpost⟩
    | error _ => exact hpost.elim

/-- Bringing up a core makes an exchange for each of its receives that tells so. -/
theorem Paced.bringUp {q : SpinPolicy Unit} (fuel : Nat) {x : Exchange Backing}
    (hx : Paced c core p x) :
    ∃ r y, Ends (Exchange.bringUp q fuel) x r y ∧
      Paced c core ((Pace.exchange .rx)^[bringUpPolls q fuel x] p) y ∧
      ∀ f, r ≠ .error (.fault f) := by
  obtain ⟨y, hlines, hy⟩ := hx.ends_invalidateLines
  have hrun : Step.run (checkCore >>= fun _ => invalidateLines) x = (.ok (), y) :=
    hx.ends_checkCore.bind hlines
  obtain ⟨r, z, hdrain, hz, hfaults⟩ := hy.drain (q := q) fuel 0
  refine ⟨r, z, hx.ends_checkCore.bind (hlines.bind hdrain), ?_, hfaults⟩
  unfold bringUpPolls
  rw [hrun]
  exact hz

/-- Lending out the transmit buffer makes no exchange; there may be no room for it. -/
theorem meets_prepare (kind : TransactionKind) :
    Meets (Paced c core p) (prepare kind : Step Backing Descriptor) (fun _ => Paced c core p)
      fun e y => e = .fault .outOfStorage ∧ Paced c core p y := by
  refine .get_bind ?_
  intro x hx
  refine .bind (Q := fun _ => Paced c core p) (.of_ends fun z _ => ⟨_, _, .set _ z, ?_⟩) fun _ => ?_
  · exact ⟨hx.host, hx.core, hx.next⟩
  · split
    · exact .pure fun _ h => h
    · exact .throw fun _ h => ⟨rfl, h⟩

end Exchange
end LineExchange
