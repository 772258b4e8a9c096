import LineExchange.Proofs.Exchange.Drain
import LineExchange.Proofs.Exchange.Visits
import LineExchange.Proofs.Meets
import LineExchange.Proofs.Parity.Alternation

/-!
# LineExchange.Proofs.Exchange.Statistics

What the statistics of an owner count. A run is summed up by the results of its receives, those
of bring-ups included, and the results of its transmits; the statistics count these results
(`Stats.after`), on any memory and whatever others do meanwhile.

* `Exchange.stats_receiveWith`, `Exchange.stats_transmitWith`: one receive, one transmit.
* `Call.stats_make`, `Exchange.stats_after`: a call, a run of calls.
* `Exchange.transmits_counted`: each transmit is counted as sent or as aborted, except those that
  gave up in front of the gate or broke off.
* `Exchange.stuck_not_counted`: there are such transmits.
-/

namespace LineExchange

theorem countP_cons_toNat {α : Type} (q : α → Bool) (a : α) (l : List α) :
    (a :: l).countP q = l.countP q + (q a).toNat := by
  rw [List.countP_cons]
  cases q a <;> rfl

/-- The memory faulted. -/
def Stop.IsFault (e : Stop) : Prop := ∃ f, e = .fault f

namespace Exchange

/-- A transaction was received. -/
def gotSome : Except Stop (Option Received) → Bool
  | .ok (some _) => true
  | _ => false

/-- Nothing was there. -/
def gotNone : Except Stop (Option Received) → Bool
  | .ok none => true
  | _ => false

/-- A transaction of unknown code was received. -/
def gotUnknown : Except Stop (Option Received) → Bool
  | .ok (some r) => r.transaction.kind = .error
  | _ => false

/-- The payload that was announced was too large. -/
def gotTooMuch : Except Stop (Option Received) → Bool
  | .error (.refused (.overflowExceeded ..)) => true
  | _ => false

/-- The transaction was written. -/
def wentOut : Except Stop Unit → Bool
  | .ok _ => true
  | .error _ => false

/-- The payload that was staged was too large. -/
def stagedTooMuch : Except Stop Unit → Bool
  | .error (.refused (.payloadTooLarge ..)) => true
  | _ => false

/-- The transaction cannot be sent. -/
def unsendable : Except Stop Unit → Bool
  | .error (.refused (.unsupportedTransmit _)) => true
  | _ => false

/-- The transmit did not get in, or broke off. -/
def heldBack : Except Stop Unit → Bool
  | .error (.refused (.handshakeStuck ..)) => true
  | .error (.refused (.invalidCore ..)) => true
  | .error (.refused _) => false
  | .error (.fault _) => true
  | .error .endless => true
  | .ok _ => false

end Exchange

open Exchange

/-- The statistics after receives and transmits with these results. -/
def Stats.after (s : Stats) (rs : List (Except Stop (Option Received)))
    (ts : List (Except Stop Unit)) : Stats where
  received := s.received + rs.countP gotSome
  emptyPolls := s.emptyPolls + rs.countP gotNone
  errorTagged := s.errorTagged + rs.countP gotUnknown
  transmitted := s.transmitted + ts.countP wentOut
  aborted := s.aborted + (ts.countP stagedTooMuch + ts.countP unsendable)

theorem Stats.after_append (s : Stats) (rs rs' : List (Except Stop (Option Received)))
    (ts ts' : List (Except Stop Unit)) :
    (s.after rs ts).after rs' ts' = s.after (rs ++ rs') (ts ++ ts') := by
  simp only [Stats.after, List.countP_append, Stats.mk.injEq, Nat.add_assoc, true_and]
  omega

theorem Stats.after_nil (s : Stats) : s.after [] [] = s := rfl

namespace Exchange

variable {M σ α β : Type} [Memory M]

/-! ## One receive, one transmit -/

/-- The owner's statistics are these. -/
def HasStats (s : Stats) (x : Exchange M) : Prop := x.owner.stats = s

section Steps

variable {s : Stats}

/-- What a critical section makes of the owner, it has made of it once the gate is left. -/
theorem meets_guarded_owner {P : Exchange M → Prop} {Q : α → Owner → Prop} {E : Stop → Owner → Prop}
    {body : Step M α} (h : Meets P body (fun v x => Q v x.owner) fun e x => E e x.owner) :
    Meets P (guarded body) (fun v x => Q v x.owner) fun e x => E e x.owner := by
  refine .of_ends fun x hx => ?_
  cases hr : (ExceptT.run body).run x with | mk r y =>
  have hpost := h.out hr hx
  refine ⟨r, _, ends_guarded_leave hr, ?_⟩
  cases r with
  | ok v => exact hpost
  | error e => exact hpost

theorem meets_guarded_stats {f : α → Stats} {F : Stop → Prop} {body : Step M α}
    (h : Meets (HasStats s) body (fun v => HasStats (f v)) fun e x => F e ∧ HasStats s x) :
    Meets (HasStats s) (guarded body) (fun v => HasStats (f v)) fun e x => F e ∧ HasStats s x :=
  meets_guarded_owner (Q := fun v o => o.stats = f v) (E := fun e o => F e ∧ o.stats = s) h

variable {F : Stop → Prop}

omit [Memory M] in
theorem meets_toggle_stats (d : Direction) : Meets (HasStats s) (toggle d : Step M Unit)
    (fun _ => HasStats s) fun e x => F e ∧ HasStats s x := .modify fun _ h => h

omit [Memory M] in
theorem meets_fillBuffer_stats (start : Nat) (data : Bytes) :
    Meets (HasStats s) (fillBuffer start data : Step M Unit) (fun _ => HasStats s)
      fun e x => F e ∧ HasStats s x := .modify fun _ h => h

omit [Memory M] in
theorem meets_count_stats {f : Stats → Stats} {u : Stats} (hf : f s = u) :
    Meets (HasStats s) (count f : Step M Unit) (fun _ => HasStats u)
      fun e x => F e ∧ HasStats s x := .modify fun _ h => (congrArg f h).trans hf

omit [Memory M] in
theorem meets_onMemory_stats (hfault : ∀ f, F (.fault f)) (a : Access M α) :
    Meets (HasStats s) (onMemory a : Step M α) (fun _ => HasStats s)
      fun e x => F e ∧ HasStats s x := by
  refine .of_ends fun x hx => ⟨_, _, ends_onMemory (.intro a x.host.memory), ?_⟩
  cases ((ExceptT.run a).run x.host.memory).1 with
  | ok v => exact hx
  | error f => exact ⟨hfault f, hx⟩

/-- Why a receive stops once it has entered. -/
inductive PollStop : Stop → Prop where
  | overflow (len capacity : Nat) : PollStop (.refused (.overflowExceeded len capacity))
  | fault (f : Fault) : PollStop (.fault f)

theorem meets_poll_stats : Meets (HasStats s) (poll : Step M (Option Received))
    (fun r => HasStats (if r.isNone then s.after [.ok none] [] else s))
    fun e x => PollStop e ∧ HasStats s x := by
  refine .get_bind fun x _ => .bind (.map (meets_onMemory_stats .fault _) _ fun _ _ h => h)
    fun line => .bind (meets_toggle_stats .rx) fun _ => ?_
  have finish {f : Exchange M → Received} : Meets (HasStats s)
      (get >>= fun z => pure (some (f z)) : Step M (Option Received))
      (fun r => HasStats (if r.isNone then s.after [.ok none] [] else s))
      fun e x => PollStop e ∧ HasStats s x := .get_bind fun _ _ => .pure fun _ h => h
  dsimp only
  split
  · split
    · exact .throw fun _ h => ⟨.overflow .., h⟩
    · refine .bind (meets_fillBuffer_stats 0 _) fun _ => ?_
      split
      · exact .bind (meets_onMemory_stats .fault _) fun data =>
          .bind (meets_fillBuffer_stats _ data) fun _ => finish
      · exact finish
  · exact .bind (meets_count_stats rfl) fun _ => .pure fun _ h => h

theorem meets_receiveEntered_stats :
    Meets (HasStats s) (receiveEntered : Step M (Option Received))
      (fun r => HasStats (s.after [.ok r] [])) fun e x => PollStop e ∧ HasStats s x := by
  refine (meets_guarded_stats meets_poll_stats).bind fun r => ?_
  cases r with
  | none => exact .pure fun _ h => h
  | some r =>
    refine .bind (meets_count_stats (u := s.after [.ok (some r)] []) ?_) fun _ =>
      .pure fun _ h => h
    simp [Stats.after, gotSome, gotNone, gotUnknown]

theorem meets_ringDoorbell_stats : Meets (HasStats s) (ringDoorbell : Step M Unit)
    (fun _ => HasStats s) fun e x => e.IsFault ∧ HasStats s x :=
  (meets_toggle_stats .tx).bind fun _ => .get_bind fun _ _ =>
    meets_onMemory_stats (fun f => ⟨f, rfl⟩) _

theorem meets_writeStaged_stats (d : Descriptor) (line : Line) :
    Meets (HasStats s) (writeStaged d line : Step M Unit) (fun _ => HasStats s)
      fun e x => e.IsFault ∧ HasStats s x := by
  have write (start : Nat) (data : Bytes) : Meets (HasStats s)
      (onMemory (Memory.write start data) : Step M Unit) (fun _ => HasStats s)
      fun e x => e.IsFault ∧ HasStats s x := meets_onMemory_stats (fun f => ⟨f, rfl⟩) _
  refine .get_bind fun x _ => ?_
  dsimp only
  split
  · exact (write ..).bind fun _ => write ..
  · exact write ..

theorem meets_send_stats (d : Descriptor) :
    Meets (HasStats s) (send d : Step M (Except EncodeError Unit)) (fun _ => HasStats s)
      fun e x => e.IsFault ∧ HasStats s x := by
  refine .get_bind fun x _ => ?_
  split
  · exact (meets_writeStaged_stats d _).bind fun _ => meets_ringDoorbell_stats.bind fun _ =>
      .pure fun _ h => h
  · exact meets_ringDoorbell_stats.bind fun _ => .pure fun _ h => h

/-- Why a transmit stops once it has entered. -/
inductive SendStop : Stop → Prop where
  | unsupported (e : EncodeError) : SendStop (.refused (.unsupportedTransmit e))
  | fault (f : Fault) : SendStop (.fault f)

theorem meets_transmitEntered_stats (d : Descriptor) :
    Meets (HasStats s) (transmitEntered d : Step M Unit) (fun v => HasStats (s.after [] [.ok v]))
      fun e x => SendStop e ∧ HasStats (s.after [] [.error e]) x := by
  refine ((meets_guarded_stats (meets_send_stats d)).conseq (fun _ h => h) (fun _ _ h => h)
    ?_).bind fun r => ?_
  · rintro _ x ⟨⟨f, rfl⟩, h⟩
    exact ⟨.fault f, h⟩
  · cases r with
    | ok v => exact .modify fun x h => congrArg (Stats.after · [] [.ok v]) h
    | error e =>
      refine .bind
        (Q := fun _ => HasStats (s.after [] [.error (.refused (.unsupportedTransmit e))]))
        (.modify fun x h => ?_) fun _ => .throw fun x h => ⟨.unsupported e, h⟩
      exact congrArg (Stats.after · [] [.error (.refused (.unsupportedTransmit e))]) h

end Steps

/-! ## Entering -/

/-- Why a call stops at the gate. -/
inductive GateStop : Stop → Prop where
  | stuck (core attempts : Nat) : GateStop (.refused (.handshakeStuck core attempts))
  | endless : GateStop .endless
  | fault (f : Fault) : GateStop (.fault f)

theorem enter_cases (p : SpinPolicy σ) (t : σ) (x : Exchange M) :
    (x.enter p t).2.2.owner = x.owner ∧ ∀ e, (x.enter p t).1 = .error e → GateStop e := by
  unfold enter
  dsimp only
  split
  · exact ⟨rfl, fun e he => Except.error.inj he ▸ .fault _⟩
  · exact ⟨rfl, nofun⟩
  · exact ⟨rfl, fun e he => Except.error.inj he ▸ .stuck ..⟩
  · exact ⟨rfl, fun e he => Except.error.inj he ▸ .endless⟩

/-- How a call ends whose tries to enter end so: it gives up at the gate, or goes on inside. -/
theorem entering_cases (p : SpinPolicy σ) (t : σ) (rest : Step M α) (x : Exchange M) :
    let y := x.entering p t rest
    (∃ e, (x.enter p t).1.isOk = false ∧ GateStop e ∧ y.1 = .error e ∧ y.2.2.owner = x.owner) ∨
      (x.enter p t).1.isOk = true ∧ ∃ z, z.owner = x.owner ∧ Ends rest z y.1 y.2.2 := by
  obtain ⟨howner, hstop⟩ := enter_cases p t x
  unfold entering
  generalize x.enter p t = q at howner hstop ⊢
  obtain ⟨r, t', z⟩ := q
  cases r with
  | error e => exact .inl ⟨e, rfl, hstop e rfl, rfl, howner⟩
  | ok v => exact .inr ⟨rfl, z, howner, .intro rest z⟩

omit [Memory M] in
theorem eq_invalidCore {host : Host M} {core : Nat} {e : ExchangeError}
    (h : host.coreError? core = some e) : e = .invalidCore core host.config.numCores := by
  unfold Host.coreError? at h
  split at h
  · cases h
  · exact (Option.some.inj h).symm

section Calls

variable (p : SpinPolicy σ) (t : σ) (x : Exchange M)

/-- A receive adds its own result to the statistics. -/
theorem stats_receiveWith :
    let y := x.receiveWith p t
    y.2.2.owner.stats = x.owner.stats.after [y.1] [] := by
  unfold receiveWith
  split
  · rfl
  · rcases entering_cases p t receiveEntered x with ⟨e, -, -, hr, howner⟩ | ⟨-, z, howner, hend⟩
    · dsimp only
      rw [hr, howner]
      rfl
    · have hz : HasStats x.owner.stats z := congrArg Owner.stats howner
      have hpost := meets_receiveEntered_stats.out hend hz
      dsimp only
      revert hpost
      generalize (x.entering p t receiveEntered).1 = r
      intro hpost
      cases r with
      | ok v => exact hpost
      | error e => exact hpost.2

/-- A transmit adds its own result to the statistics. -/
theorem stats_transmitStaged (d : Descriptor) :
    let y := x.transmitStaged p t d
    y.2.2.owner.stats = x.owner.stats.after [] [y.1] := by
  unfold transmitStaged
  split
  · next e he =>
    cases eq_invalidCore he
    rfl
  · dsimp only
    split
    · rfl
    · rcases entering_cases p t (transmitEntered d) x with
        ⟨e, -, hstop, hr, howner⟩ | ⟨-, z, howner, hend⟩
      · rw [hr, howner]
        cases hstop <;> rfl
      · have hz : HasStats x.owner.stats z := congrArg Owner.stats howner
        have hpost := (meets_transmitEntered_stats d).out hend hz
        revert hpost
        generalize (x.entering p t (transmitEntered d)).1 = r
        intro hpost
        cases r with
        | ok v => exact hpost
        | error e => exact hpost.2

theorem stats_transmitWith (d : Descriptor) :
    let y := x.transmitWith p t d
    y.2.2.owner.stats = x.owner.stats.after [] [y.1] := by
  have staged := stats_transmitStaged p t x d
  unfold transmitWith
  generalize x.transmitStaged p t d = y at staged ⊢
  obtain ⟨r, t', y⟩ := y
  rcases r with (_ | _ | _) | _ <;> exact staged

/-- A receive that does not break off makes an exchange iff it enters. -/
theorem polled_receiveWith (h : broke (x.receiveWith p t).1 = false) :
    polled (x.receiveWith p t).1 = x.entersGate p t := by
  revert h
  unfold receiveWith entersGate
  cases hcore : x.host.coreError? x.owner.core with
  | some e =>
    cases eq_invalidCore hcore
    exact fun _ => rfl
  | none =>
    rcases entering_cases p t receiveEntered x with ⟨e, hout, hstop, hr, -⟩ | ⟨hin, z, -, hend⟩
    · dsimp only
      rw [hr, hout]
      cases hstop with
      | fault f => exact nofun
      | _ => exact fun _ => rfl
    · have hpost := meets_receiveEntered_stats.out hend rfl
      dsimp only
      rw [hin]
      revert hpost
      generalize (x.entering p t receiveEntered).1 = r
      intro hpost hwhole
      cases r with
      | ok v => rfl
      | error e =>
        cases hpost.1 with
        | overflow => rfl
        | fault f => cases hwhole

/-- A transmit that does not break off makes an exchange iff it enters. -/
theorem rang_transmitWith (d : Descriptor) (h : broke (x.transmitWith p t d).1 = false) :
    rang (x.transmitWith p t d).1 =
      (decide (d.payload.size ≤ x.host.config.layout.payloadCapacity) && x.entersGate p t) := by
  rw [transmitWith_eq.1] at h ⊢
  revert h
  unfold transmitStaged entersGate
  cases hcore : x.host.coreError? x.owner.core with
  | some e =>
    cases eq_invalidCore hcore
    exact fun _ => (Bool.and_false _).symm
  | none =>
    dsimp only
    split
    · next hlarge =>
      rw [decide_eq_false (Nat.not_le.2 hlarge)]
      exact fun _ => rfl
    · next hfits =>
      rw [decide_eq_true (Nat.not_lt.1 hfits)]
      rcases entering_cases p t (transmitEntered d) x with
        ⟨e, hout, hstop, hr, -⟩ | ⟨hin, z, -, hend⟩
      · rw [hr, hout]
        cases hstop with
        | fault f => exact nofun
        | _ => exact fun _ => rfl
      · have hpost := (meets_transmitEntered_stats d).out hend rfl
        rw [hin]
        revert hpost
        generalize (x.entering p t (transmitEntered d)).1 = r
        intro hpost hwhole
        cases r with
        | ok v => rfl
        | error e =>
          cases hpost.1 with
          | unsupported => rfl
          | fault f => cases hwhole

end Calls

/-! ## Bringing up -/

theorem Drains.stats {p : SpinPolicy Unit} {fuel drained : Nat} {x y : Exchange M}
    {rs : List (Except Stop (Option Received))} {r : Except Stop Nat}
    (h : Drains p fuel drained x rs r y) : y.owner.stats = x.owner.stats.after rs [] := by
  have one {x y : Exchange M} {r : Except Stop (Option Received)} (h : Ends (receive p) x r y) :
      y.owner.stats = x.owner.stats.after [r] [] := by
    obtain ⟨rfl, rfl⟩ := ends_receive h
    exact stats_receiveWith p () x
  induction h with
  | out drained x => exact x.owner.stats.after_nil.symm
  | failed h => exact one h
  | empty h => exact one h
  | received h _ ih =>
    rw [ih, one h, Stats.after_append]
    rfl

theorem ends_invalidateLines_owner {x y : Exchange M} {r : Except Stop Unit}
    (h : Ends invalidateLines x r y) : y.owner = x.owner ∧ ∀ e, r = .error e → e.IsFault := by
  have lines : Meets (fun z : Exchange M => z.owner = x.owner) invalidateLines
      (fun _ z => z.owner = x.owner) fun e z => e.IsFault ∧ z.owner = x.owner := by
    refine .get_bind fun _ _ => .forM fun _ => .of_ends fun z hz => ?_
    generalize (Memory.invalidate _ : Access M Unit) = a
    refine ⟨_, _, ends_onMemory (.intro a z.host.memory), ?_⟩
    cases ((ExceptT.run a).run z.host.memory).1 with
    | ok v => exact hz
    | error f => exact ⟨⟨f, rfl⟩, hz⟩
  have hpost := lines.out h rfl
  cases r with
  | ok v => exact ⟨hpost, nofun⟩
  | error e => exact ⟨hpost.2, fun e' he => Except.error.inj he ▸ hpost.1⟩

/-- A bring-up adds the results of its receives to the statistics. -/
theorem BringsUp.stats {p : SpinPolicy Unit} {fuel : Nat} {x y : Exchange M}
    {rs : List (Except Stop (Option Received))} {r : Except Stop Nat}
    (h : BringsUp p fuel x rs r y) : y.owner.stats = x.owner.stats.after rs [] := by
  cases h with
  | unmapped => exact x.owner.stats.after_nil.symm
  | failed h =>
    rw [(ends_invalidateLines_owner h).1]
    exact x.owner.stats.after_nil.symm
  | drained h hdrain => rw [hdrain.stats, (ends_invalidateLines_owner h).1]

end Exchange

/-! ## Calls and runs -/

namespace Call

variable {M : Type} [Memory M]

/-- What the receives of a call come to, with those of a bring-up. -/
def receives (x : Exchange M) : Call → List (Except Stop (Option Received))
  | receive p t => [(x.receiveWith p t).1]
  | bringUp p fuel => bringUpReceives p fuel x
  | _ => []

/-- What the transmit of a call comes to, if it is one. -/
def transmits (x : Exchange M) : Call → List (Except Stop Unit)
  | transmit p t d => [(x.transmitWith p t d).1]
  | _ => []

theorem make_prepare (x : Exchange M) (kind : TransactionKind) :
    ((prepare kind).make x).2 = { x with owner := { x.owner with txBuffer := none } } :=
  congrArg (fun q : Except Stop Descriptor × Exchange M => q.2) (ends_prepare x kind)

/-- **The statistics after a call** count the results of its receives and its transmit. -/
theorem stats_make (x : Exchange M) (call : Call) :
    (call.make x).2.owner.stats = x.owner.stats.after (call.receives x) (call.transmits x) := by
  cases call with
  | receive p t => exact stats_receiveWith p t x
  | transmit p t d => exact stats_transmitWith p t x d
  | bringUp p fuel => exact (bringsUp p fuel x).stats
  | prepare kind =>
    rw [make_prepare]
    exact x.owner.stats.after_nil.symm
  | resync next =>
    rw [make_resync]
    obtain ⟨-, hrun⟩ | ⟨e, -, hrun⟩ := run_resync next x
    · rw [hrun]
      exact x.owner.stats.after_nil.symm
    · rw [hrun]
      exact x.owner.stats.after_nil.symm

end Call

namespace Exchange

variable {M : Type} [Memory M]

/-- What the receives of a run come to. -/
def receives : Exchange M → List (Turn M) → List (Except Stop (Option Received))
  | _, [] => []
  | x, .call c :: turns => c.receives x ++ receives (c.make x).2 turns
  | x, t :: turns => receives (t.take x) turns

/-- What the transmits of a run come to. -/
def transmits : Exchange M → List (Turn M) → List (Except Stop Unit)
  | _, [] => []
  | x, .call c :: turns => c.transmits x ++ transmits (c.make x).2 turns
  | x, t :: turns => transmits (t.take x) turns

theorem receives_cons (x : Exchange M) (t : Turn M) (turns : List (Turn M)) :
    receives x (t :: turns) = receives x [t] ++ receives (t.take x) turns := by
  cases t with
  | call c =>
    show _ = (c.receives x ++ []) ++ _
    rw [List.append_nil]
    rfl
  | others memory counters claimed => rfl

theorem stats_after (x : Exchange M) (turns : List (Turn M)) :
    (after x turns).owner.stats = x.owner.stats.after (receives x turns) (transmits x turns) := by
  induction turns generalizing x with
  | nil => exact x.owner.stats.after_nil.symm
  | cons t turns ih =>
    cases t with
    | call c =>
      refine (ih (c.make x).2).trans ?_
      rw [c.stats_make, Stats.after_append]
      rfl
    | others memory counters claimed => exact ih _

/-! ## What is not counted -/

/-- What a transmit can come to. -/
inductive TransmitEnd : Except Stop Unit → Prop where
  | wentOut : TransmitEnd (.ok ())
  | tooLarge (len capacity : Nat) : TransmitEnd (.error (.refused (.payloadTooLarge len capacity)))
  | unsendable (e : EncodeError) : TransmitEnd (.error (.refused (.unsupportedTransmit e)))
  | stuck (core attempts : Nat) : TransmitEnd (.error (.refused (.handshakeStuck core attempts)))
  | unmapped (core cores : Nat) : TransmitEnd (.error (.refused (.invalidCore core cores)))
  | fault (f : Fault) : TransmitEnd (.error (.fault f))
  | endless : TransmitEnd (.error .endless)

theorem transmitEnd {σ : Type} (p : SpinPolicy σ) (t : σ) (x : Exchange M) (d : Descriptor) :
    TransmitEnd (x.transmitWith p t d).1 := by
  rw [transmitWith_eq.1]
  unfold transmitStaged
  split
  · next e he =>
    cases eq_invalidCore he
    exact .unmapped ..
  · dsimp only
    split
    · exact .tooLarge ..
    · rcases entering_cases p t (transmitEntered d) x with
        ⟨e, -, hstop, hr, -⟩ | ⟨-, z, -, hend⟩
      · rw [hr]
        cases hstop with
        | stuck => exact .stuck ..
        | endless => exact .endless
        | fault f => exact .fault f
      · have hpost := (meets_transmitEntered_stats d).out hend rfl
        revert hpost
        generalize (x.entering p t (transmitEntered d)).1 = r
        intro hpost
        cases r with
        | ok v => exact .wentOut
        | error e =>
          cases hpost.1 with
          | unsupported e => exact .unsendable e
          | fault f => exact .fault f

theorem transmitEnd_of_mem {x : Exchange M} {turns : List (Turn M)} {r : Except Stop Unit}
    (h : r ∈ transmits x turns) : TransmitEnd r := by
  induction turns generalizing x with
  | nil => cases h
  | cons t turns ih =>
    cases t with
    | others memory counters claimed => exact ih h
    | call c =>
      rcases List.mem_append.1 h with h | h
      · cases c with
        | transmit p t d =>
          obtain rfl := List.mem_singleton.1 h
          exact transmitEnd p t x d
        | _ => cases h
      · exact ih h

/-- Each transmit is of one kind. -/
theorem length_transmits {ts : List (Except Stop Unit)} (h : ∀ r ∈ ts, TransmitEnd r) :
    ts.countP wentOut + (ts.countP stagedTooMuch + ts.countP unsendable) + ts.countP heldBack =
      ts.length := by
  induction ts with
  | nil => rfl
  | cons r ts ih =>
    have hrest := ih fun r' hr' => h r' (.tail r hr')
    have hone : (wentOut r).toNat + ((stagedTooMuch r).toNat + (unsendable r).toNat) +
        (heldBack r).toNat = 1 := by
      cases h r (.head ts) <;> rfl
    simp only [countP_cons_toNat, List.length_cons]
    omega

/-- **What the counters of transmits count**, on any memory, under any policies and whatever others
do in between. Each transmit that wrote its transaction counts as transmitted, and each whose
payload was too large or whose transaction cannot be sent as aborted. One that did not get in
counts as neither, nor does one that broke off. -/
theorem transmits_counted (x : Exchange M) (turns : List (Turn M)) :
    let ts := transmits x turns
    let s := x.owner.stats
    let s' := (after x turns).owner.stats
    s'.transmitted = s.transmitted + ts.countP wentOut ∧
    s'.aborted = s.aborted + (ts.countP stagedTooMuch + ts.countP unsendable) ∧
    s'.transmitted + s'.aborted + ts.countP heldBack = s.transmitted + s.aborted + ts.length := by
  have hstats := stats_after x turns
  have hends : ∀ r ∈ transmits x turns, TransmitEnd r := fun r => transmitEnd_of_mem
  have hlength := length_transmits hends
  dsimp only
  rw [hstats]
  refine ⟨rfl, rfl, ?_⟩
  rw [← hlength]
  simp only [Stats.after]
  omega

/-- A mapped core that is not ready: a transmit is refused, and nothing counts it. -/
theorem stuck_not_counted : ¬∀ (x : Exchange Region) (turns : List (Turn Region)),
    x.owner.core < x.host.config.numCores →
    (after x turns).owner.stats.transmitted + (after x turns).owner.stats.aborted =
      x.owner.stats.transmitted + x.owner.stats.aborted + (transmits x turns).length := by
  intro h
  let host : Host Region :=
    { memory := .zeros 0x280, config := tight, config_ok := rfl, counters := #[{}],
      claimed := #[true] }
  have hcounted := h ⟨host, .synced 0 tight {}⟩
    [.call (.transmit (SpinLimit.attempts 0).policy () ⟨.empty tight.format .call, .empty⟩)]
    (by decide)
  revert hcounted
  decide +kernel

end Exchange
end LineExchange
