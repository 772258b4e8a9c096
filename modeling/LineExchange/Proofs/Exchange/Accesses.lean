import LineExchange.Proofs.Exchange.Watch
import LineExchange.Proofs.Parity.Pace

/-!
# LineExchange.Proofs.Exchange.Accesses

Which accesses a call makes, on any memory: those that its result tells, in this order, and no
others. A receive reads the control line that comes next, and then the overflow bytes; a transmit
writes the overflow bytes, then the control line, and touches the other control line last. The
same results tell whether the call went on to the next line.

* `Exchange.receiveLog`, `Exchange.transmitLog`: the accesses of a call with a result.
* `Exchange.Watched.receiveWith`, `Exchange.Watched.transmitWith`, `Exchange.Watched.bringUp`: a
  call that did not break off made them.
-/

namespace LineExchange
namespace Exchange

/-- The read of the overflow bytes of a payload, if it has any. -/
def overflowRead (l : Layout) (core len : Nat) : List LogEntry :=
  if inlineSize < len then [.read (l.overflowAt core .rx) (len - inlineSize)] else []

/-- The accesses of a receive with this result. -/
def receiveLog (l : Layout) (core : Nat) (parity : Bool) :
    Except Stop (Option Received) → List LogEntry
  | .ok none => [.read (l.controlAt core .rx parity) lineSize]
  | .ok (some r) =>
    .read (l.controlAt core .rx parity) lineSize :: overflowRead l core r.payload.size
  | .error (.refused (.overflowExceeded ..)) => [.read (l.controlAt core .rx parity) lineSize]
  | .error _ => []

/-- The write of the overflow bytes of a payload, if it has any. -/
def overflowWrite (l : Layout) (core len : Nat) : List LogEntry :=
  if inlineSize < len then [.write (l.overflowAt core .tx) (len - inlineSize)] else []

/-- The accesses of a transmit of `len` payload bytes with this result. -/
def transmitLog (l : Layout) (core : Nat) (parity : Bool) (len : Nat) :
    Except Stop Unit → List LogEntry
  | .ok () =>
      overflowWrite l core len ++
        [.write (l.controlAt core .tx parity) lineSize, .touch (l.controlAt core .tx !parity)]
  | .error (.refused (.unsupportedTransmit _)) => [.touch (l.controlAt core .tx !parity)]
  | .error _ => []

/-- What a transmit comes to whose critical section came to this. -/
def sent : Except Stop (Except EncodeError Unit) → Except Stop Unit
  | .ok (.ok ()) => .ok ()
  | .ok (.error e) => .error (.refused (.unsupportedTransmit e))
  | .error e => .error e

/-- The accesses of a drain. -/
def drainLog {M : Type} [Memory M] (p : SpinPolicy Unit) :
    (fuel : Nat) → Exchange M → List LogEntry
  | 0, _ => []
  | fuel + 1, x =>
    let (r, y) := Step.run (receive p) x
    receiveLog x.host.config.layout x.owner.core x.owner.next.rx r ++
      match r with
      | .ok (some _) => drainLog p fuel y
      | _ => []

/-- The invalidations of all lines that exchanges on a core use. -/
def invalidateLog (l : Layout) (core : Nat) : List LogEntry :=
  (l.exchangeOffsets l.exchangeLines).map fun offset => .invalidate (l.coreBase core + offset)

/-- The accesses of a bring-up. -/
def bringUpLog {M : Type} [Memory M] (p : SpinPolicy Unit) (fuel : Nat) (x : Exchange M) :
    List LogEntry :=
  match Step.run (checkCore >>= fun _ => invalidateLines) x with
  | (.ok (), y) => invalidateLog x.host.config.layout x.owner.core ++ drainLog p fuel y
  | (.error _, _) => []

/-- A receive makes no accesses but reads. -/
theorem read_of_mem_receiveLog {l : Layout} {core : Nat} {parity : Bool}
    {r : Except Stop (Option Received)} {e : LogEntry} (h : e ∈ receiveLog l core parity r) :
    ∃ offset len, e = .read offset len := by
  have single {offset len : Nat} (h : e ∈ [LogEntry.read offset len]) :
      ∃ offset len, e = .read offset len := ⟨offset, len, List.mem_singleton.1 h⟩
  rcases r with (e | _ | _) | _ | r
  · cases e with
    | overflowExceeded len capacity => exact single h
    | _ => cases h
  · cases h
  · cases h
  · exact single h
  · rcases List.mem_cons.1 h with rfl | h
    · exact ⟨_, _, rfl⟩
    · unfold overflowRead at h
      split at h
      · exact single h
      · cases h

theorem read_of_mem_drainLog {M : Type} [Memory M] {p : SpinPolicy Unit} {fuel : Nat}
    {x : Exchange M} {e : LogEntry} (h : e ∈ drainLog p fuel x) :
    ∃ offset len, e = .read offset len := by
  induction fuel generalizing x with
  | zero => cases h
  | succ fuel ih =>
    unfold drainLog at h
    rcases List.mem_append.1 h with h | h
    · exact read_of_mem_receiveLog h
    · split at h
      · exact ih h
      · cases h

theorem outside_receive {e : Stop} (he : e.Outside) (l : Layout) (core : Nat) (parity : Bool) :
    polled (.error e) = false ∧ receiveLog l core parity (.error e) = [] := by
  cases he <;> exact ⟨rfl, rfl⟩

theorem outside_transmit {e : Stop} (he : e.Outside) (l : Layout) (core : Nat) (parity : Bool)
    (len : Nat) : rang (.error e) = false ∧ transmitLog l core parity len (.error e) = [] := by
  cases he <;> exact ⟨rfl, rfl⟩

variable {M σ : Type} [Memory M] {w : Watch M} {c : Config} {core size n : Nat} {next : Parity}
  {d : Direction} {es log : List LogEntry}

namespace Watched

/-! ## Receiving -/

theorem tells_poll : Tells w c core size next es .rx polled (receiveLog c.layout core next.rx)
    (poll : Step M (Option Received)) := by
  refine .get_bind ?_
  intro x hx
  rw [hx.config, hx.core, hx.next]
  refine .bind (.map (meets_access (w.read es _ _) fun f y hy =>
    .of_fault (Nat.le_refl 0) (Nat.zero_le 1) hy) _ fun _ _ h => h) fun line =>
      (meets_toggle .rx).bind fun _ => ?_
  dsimp only
  split
  · split
    · exact .throw fun _ hy => .of_whole nofun hy
    · next hfits =>
      have hlen : (c.format.decode line).length ≤ size := by
        have hcapacity : x.owner.rxCapacity = size := hx.buffer
        unfold rxLimit at hfits
        omega
      -- the payload is as long as the header says, whatever was read
      have finish {z : Exchange M} (hz : z.owner.rxBuffer.size = size) :
          (z.owner.rxBuffer.slice 0 (c.format.decode line).length).size =
            (c.format.decode line).length := by
        rw [Bytes.size_slice]
        omega
      refine (meets_fillBuffer 0 _).bind fun _ => ?_
      split
      · next hmore =>
        refine .bind (meets_access (w.read _ _ _) fun f y hy =>
          .of_fault (m := 1) (Nat.zero_le 1) (Nat.le_refl 1) hy) fun data => ?_
        refine (meets_fillBuffer _ data).bind fun _ => .get_bind fun z hz => .pure fun y hy => ?_
        refine .of_whole nofun ?_
        rw [receiveLog, overflowRead, finish hz.buffer, if_pos hmore]
        rw [List.append_assoc] at hy
        exact hy
      · next hmore =>
        refine .get_bind fun z hz => .pure fun y hy => .of_whole nofun ?_
        rw [receiveLog, overflowRead, finish hz.buffer, if_neg hmore]
        exact hy
  · exact (meets_count _).bind fun _ => .pure fun _ hy => .of_whole nofun hy

theorem tells_receiveEntered : Tells w c core size next es .rx polled
    (receiveLog c.layout core next.rx) (receiveEntered : Step M (Option Received)) := by
  refine .bind tells_poll.guarded fun r => ?_
  cases r with
  | none => exact .pure fun _ hy => hy
  | some r =>
    refine .bind (Q := fun _ => Made w c core size next es .rx 1
      (receiveLog c.layout core next.rx (.ok (some r))) (.ok (some r))) ?_ fun _ =>
        .pure fun _ hy => hy
    refine .modify fun y hy => .of_whole nofun ?_
    have hwhole := hy.whole nofun
    exact ⟨hwhole.config, hwhole.core, hwhole.buffer, hwhole.next, hwhole.seen⟩

/-- **A receive.** Its result tells which accesses it made and whether it went on. -/
theorem receiveWith {x : Exchange M} (hx : Watched w c core size next es x) (p : SpinPolicy σ)
    (s : σ) :
    let y := x.receiveWith p s
    Made w c core size next es .rx (polled y.1).toNat (receiveLog c.layout core next.rx y.1)
      y.1 y.2.2 := by
  unfold Exchange.receiveWith
  cases hcore : x.host.coreError? x.owner.core with
  | some e =>
    obtain ⟨hmade, hlog⟩ := outside_receive (.of_coreError? hcore) c.layout core next.rx
    dsimp only
    rw [hmade, hlog]
    exact .of_none nofun hx
  | none =>
    exact hx.entering tells_receiveEntered (fun e he => outside_receive he ..) (fun _ => rfl) p s

/-! ## Transmitting -/

section Send

variable {E : Stop → Exchange M → Prop}

theorem meets_ringDoorbell (hE : ∀ f y, y.owner.next = next.toggle .tx → E (.fault f) y) :
    Meets (Watched w c core size next es) (ringDoorbell : Step M Unit)
      (fun _ => Watched w c core size (next.toggle .tx)
        (es ++ [.touch (c.layout.controlAt core .tx !next.tx)])) E := by
  refine (meets_toggle .tx).bind fun _ => .get_bind ?_
  intro x hx
  rw [hx.config, hx.core, hx.next]
  exact meets_access (w.touch es _) hE

theorem meets_writeStaged (desc : Descriptor) (line : Line)
    (hE : ∀ f y, y.owner.next = next → E (.fault f) y) :
    Meets (Watched w c core size next es) (writeStaged desc line : Step M Unit)
      (fun _ => Watched w c core size next (es ++ (overflowWrite c.layout core desc.payload.size ++
        [.write (c.layout.controlAt core .tx next.tx) lineSize]))) E := by
  refine .get_bind ?_
  intro x hx
  rw [hx.config, hx.core, hx.next]
  unfold overflowWrite
  dsimp only
  split
  · refine .bind (meets_access (w.write es _ _) hE) fun _ => ?_
    rw [Bytes.size_slice, Nat.min_self, ← List.append_assoc, ← line.size_bytes]
    exact meets_access (w.write _ _ _) hE
  · rw [List.nil_append, ← line.size_bytes]
    exact meets_access (w.write _ _ _) hE

end Send

theorem tells_send (desc : Descriptor) : Tells w c core size next es .tx (fun r => rang (sent r))
    (fun r => transmitLog c.layout core next.tx desc.payload.size (sent r))
    (send desc : Step M (Except EncodeError Unit)) := by
  refine .get_bind fun x _ => ?_
  have hring (f : Fault) (y : Exchange M) (hy : y.owner.next = next.toggle .tx) :
      Made w c core size next es .tx 0 []
        (.error (.fault f) : Except Stop (Except EncodeError Unit)) y :=
    .of_fault (m := 1) (Nat.zero_le 1) (Nat.le_refl 1) hy
  split
  · refine .bind (meets_writeStaged desc _ fun f y hy =>
      .of_fault (Nat.le_refl 0) (Nat.zero_le 1) hy) fun _ => .bind (meets_ringDoorbell hring)
        fun _ => .pure fun y hy => .of_whole nofun ?_
    rw [List.append_assoc, List.append_assoc] at hy
    exact hy
  · exact .bind (meets_ringDoorbell hring) fun _ => .pure fun y hy => .of_whole nofun hy

theorem tells_transmitEntered (desc : Descriptor) : Tells w c core size next es .tx rang
    (transmitLog c.layout core next.tx desc.payload.size)
    (transmitEntered desc : Step M Unit) := by
  refine .bind ((tells_send desc).guarded.conseq (fun _ h => h) (fun _ _ h => h)
    fun e y hy => ?_) fun r => ?_
  · refine hy.of_faults fun f => ⟨fun hf => congrArg sent hf, fun hf => ?_⟩
    cases hf
    rfl
  · cases r with
    | ok _ =>
      exact .conseq (meets_count _) (fun y hy => hy.whole nofun)
        (fun _ y hy => .of_whole nofun hy) fun _ _ h => h
    | error e =>
      exact .bind (.conseq (meets_count _) (fun y hy => hy.whole nofun) (fun _ _ h => h)
        fun _ _ h => h) fun _ => .throw fun y hy => .of_whole nofun hy

/-- **A transmit.** Its result tells which accesses it made and whether it went on. -/
theorem transmitStaged {x : Exchange M} (hx : Watched w c core size next es x) (p : SpinPolicy σ)
    (s : σ) (desc : Descriptor) :
    let y := x.transmitStaged p s desc
    Made w c core size next es .tx (rang y.1).toNat
      (transmitLog c.layout core next.tx desc.payload.size y.1) y.1 y.2.2 := by
  unfold Exchange.transmitStaged
  cases hcore : x.host.coreError? x.owner.core with
  | some e =>
    obtain ⟨hmade, hlog⟩ :=
      outside_transmit (.of_coreError? hcore) c.layout core next.tx desc.payload.size
    dsimp only
    rw [hmade, hlog]
    exact .of_none nofun hx
  | none =>
    dsimp only
    split
    · exact .of_none nofun ⟨hx.config, hx.core, hx.buffer, hx.next, hx.seen⟩
    · exact hx.entering (tells_transmitEntered desc) (fun e he => outside_transmit he ..)
        (fun _ => rfl) p s

theorem transmitWith {x : Exchange M} (hx : Watched w c core size next es x) (p : SpinPolicy σ)
    (s : σ) (desc : Descriptor) :
    let y := x.transmitWith p s desc
    Made w c core size next es .tx (rang y.1).toNat
      (transmitLog c.layout core next.tx desc.payload.size y.1) y.1 y.2.2 := by
  have staged := hx.transmitStaged p s desc
  unfold Exchange.transmitWith
  generalize x.transmitStaged p s desc = q at staged ⊢
  obtain ⟨r, t, y⟩ := q
  have returned (hr : ∀ f, r ≠ .error (.fault f)) : Made w c core size next es .tx (rang r).toNat
      (transmitLog c.layout core next.tx desc.payload.size r) r
      { y with owner := { y.owner with txBuffer := some ByteArray.empty } } := by
    have hy := staged.whole hr
    exact .of_whole hr ⟨hy.config, hy.core, hy.buffer, hy.next, hy.seen⟩
  rcases r with (_ | f | _) | _
  · exact returned nofun
  · exact staged
  · exact returned nofun
  · exact returned nofun

/-! ## Getting in step -/

theorem meets_invalidateLines {E : Stop → Exchange M → Prop}
    (hE : ∀ f y, y.owner.next = next → E (.fault f) y) :
    Meets (Watched w c core size next es) (invalidateLines : Step M Unit)
      (fun _ => Watched w c core size next (es ++ invalidateLog c.layout core)) E := by
  have loop (offsets : List Nat) (before : List LogEntry) :
      Meets (Watched w c core size next before)
        (offsets.forM fun offset =>
          (onMemory (Memory.invalidate (c.layout.coreBase core + offset)) : Step M Unit))
        (fun _ => Watched w c core size next (before ++
          offsets.map fun offset => .invalidate (c.layout.coreBase core + offset))) E := by
    induction offsets generalizing before with
    | nil =>
      rw [List.map_nil, List.append_nil]
      exact .pure fun _ hy => hy
    | cons offset offsets ih =>
      rw [List.map_cons, List.append_cons]
      exact (meets_access (w.invalidate before _) hE).bind fun _ => ih _
  refine .get_bind ?_
  intro x hx
  rw [hx.config, hx.core]
  exact loop _ es

/-- Draining makes the accesses of its receives. -/
theorem drain {p : SpinPolicy Unit} (fuel drained : Nat) {x y : Exchange M} {r : Except Stop Nat}
    (hx : Watched w c core size next es x) (hend : Ends (Exchange.drain p fuel drained) x r y) :
    Made w c core size next es .rx (drainPolls p fuel x) (drainLog p fuel x) r y := by
  induction fuel generalizing x next es drained with
  | zero =>
    obtain ⟨rfl, rfl⟩ := hend.unique (.throw _ x)
    exact .of_none nofun hx
  | succ fuel ih =>
    have received := hx.receiveWith p ()
    have hrun : Step.run (receive p) x = ((x.receiveWith p ()).1, (x.receiveWith p ()).2.2) := rfl
    have hreceive : Ends (receive p) x (x.receiveWith p ()).1 (x.receiveWith p ()).2.2 := hrun
    unfold drainPolls drainLog
    rw [hrun, hx.config, hx.core, hx.next]
    dsimp only at received ⊢
    generalize (x.receiveWith p ()).1 = r₀ at received hreceive ⊢
    generalize (x.receiveWith p ()).2.2 = z at received hreceive ⊢
    rcases r₀ with e | _ | packet
    · obtain ⟨rfl, rfl⟩ := hend.unique hreceive.bind_error
      dsimp only
      rw [List.append_nil]
      exact received.of_faults fun f => by simp
    · obtain ⟨rfl, rfl⟩ := hend.unique (hreceive.bind (.pure _ z))
      dsimp only
      rw [List.append_nil]
      exact received.of_faults fun f => by simp
    · obtain ⟨rfl, rfl⟩ := hend.unique (hreceive.bind (.intro _ z))
      exact .after (ih (drained + 1) (received.whole nofun) (.intro _ z))

/-- The core's lines are invalidated, unless it is not mapped or an access faults. -/
theorem meets_clear {E : Stop → Exchange M → Prop}
    (hrefused : ∀ e y, Watched w c core size next es y → E (.refused e) y)
    (hfault : ∀ f y, y.owner.next = next → E (.fault f) y) :
    Meets (Watched w c core size next es)
      (checkCore >>= fun _ => invalidateLines : Step M Unit)
      (fun _ => Watched w c core size next (es ++ invalidateLog c.layout core)) E := by
  refine .bind (Q := fun _ => Watched w c core size next es) (.get_bind fun x _ => ?_) fun _ =>
    meets_invalidateLines hfault
  split
  · exact .throw fun y hy => hrefused _ y hy
  · exact .pure fun _ hy => hy

/-- **A bring-up.** It first invalidates the lines of the core, then receives. -/
theorem bringUp {p : SpinPolicy Unit} (fuel : Nat) {x y : Exchange M} {r : Except Stop Nat}
    (hx : Watched w c core size next es x) (hend : Ends (Exchange.bringUp p fuel) x r y) :
    Made w c core size next es .rx (bringUpPolls p fuel x) (bringUpLog p fuel x) r y := by
  have hassoc : (Exchange.bringUp p fuel : Step M Nat) =
      (checkCore >>= fun _ => invalidateLines) >>= fun _ => Exchange.drain p fuel 0 :=
    (bind_assoc ..).symm
  have clear := (meets_clear (E := fun e z =>
      Made w c core size next es .rx 0 [] (.error e : Except Stop Nat) z)
    (fun e z hz => .of_none nofun hz)
    fun f z hz => .of_fault (Nat.le_refl 0) (Nat.zero_le 1) hz).out (.intro _ x) hx
  rw [hassoc] at hend
  unfold bringUpPolls bringUpLog
  cases hclear : Step.run (checkCore >>= fun _ => invalidateLines) x with
  | mk r₀ z =>
    have hrun : (ExceptT.run (checkCore >>= fun _ => invalidateLines : Step M Unit)).run x =
        (r₀, z) := hclear
    rw [hrun] at clear
    cases r₀ with
    | error e =>
      obtain ⟨rfl, rfl⟩ := hend.unique (.bind_error hrun)
      exact clear
    | ok _ =>
      obtain ⟨rfl, rfl⟩ := hend.unique (.bind hrun (.intro _ z))
      have drained := Made.after (k := 0) (drain fuel 0 clear (.intro (Exchange.drain p fuel 0) z))
      rw [Nat.zero_add] at drained
      dsimp only
      rw [hx.config, hx.core]
      exact drained

theorem keeps_prepare (kind : TransactionKind) :
    Keeps (Watched w c core size next es) (prepare kind : Step M Descriptor) := by
  refine .get_bind fun x hx => .bind (.set ?_) fun _ => ?_
  · exact ⟨hx.config, hx.core, hx.buffer, hx.next, hx.seen⟩
  · split
    · exact .pure _
    · exact .throw _

end Watched

omit [Memory M] in
theorem run_resync (next : Parity) (x : Exchange M) :
    (x.host.coreError? x.owner.core = none ∧
      Step.run (resync next) x = (.ok (), { x with owner := { x.owner with next } })) ∨
    ∃ e, x.host.coreError? x.owner.core = some e ∧
      Step.run (resync next) x = (.error (.refused e), x) := by
  cases hcore : x.host.coreError? x.owner.core with
  | some e => exact .inr ⟨e, rfl, (ends_checkCore_refused hcore).bind_error⟩
  | none => exact .inl ⟨rfl, (ends_checkCore hcore).bind (.modify _ x)⟩

end Exchange
end LineExchange
