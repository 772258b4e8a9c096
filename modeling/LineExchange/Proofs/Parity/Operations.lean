import LineExchange.Proofs.Isolation.Cores
import LineExchange.Proofs.Parity.Calls

/-!
# LineExchange.Proofs.Parity.Operations

What the operations of a station do to the tally of their core. A call makes the exchanges that
its result tells (`Call.paced`); nothing else counts (`Station.counts_step`). On a core that is
mapped no operation breaks off, except where there is no room for a buffer (`Outcome.Whole`).
-/

namespace LineExchange

open Nic (Counts)

variable {α : Type} {c : Config} {core : Nat} {t : Tally} {p : Pace}

/-- Not broken off, unless there was no room. -/
def Outcome.Whole (a : Outcome) : Prop := ∀ f, a = .fault f → f = .outOfStorage

namespace Nic

theorem Counts.restock {f : NicCore → NicCore} (hfits : ∀ k, k.Fits c.layout → (f k).Fits c.layout)
    (hf : ∀ k, (f k).tally = k.tally) :
    Meets (Counts c core t) (modifyCore core f) (fun _ => Counts c core t) Never :=
  .modify fun _ h => h.modify (g := id) hfits hf

theorem Counts.coreState :
    Meets (Counts c core t) (coreState core) (fun _ => Counts c core t) Never := by
  refine .of_ends ?_
  intro d h
  obtain ⟨k, hend, -⟩ := h.exists_core
  exact ⟨_, d, hend, h⟩

theorem Counts.setReady (v : Bool) :
    Meets (Counts c core t) (setReady core v) (fun _ => Counts c core t) Never := by
  refine .of_ends ?_
  intro d h
  refine ⟨_, _, .bind (.get d) (.bind (ends_onMemory (Region.ends_loadControl h.workerAt_lt))
    (ends_onMemory (Region.ends_storeControl _ h.workerAt_lt))), ?_⟩
  exact h.withMemory (Bytes.size_put ..)

theorem Counts.inject (hl : c.layout.Ordered) (tr : Transaction) (payload : Bytes) :
    Meets (Counts c core t) (inject core tr payload) (fun _ => Counts c core t) Never := by
  refine .get_bind ?_
  intro d h
  rw [h.sound.tidy.layout]
  split
  · exact .pure fun _ h => h
  · next raw hraw =>
    have inject : Meets (Counts c core t) (injectRaw core raw) (fun _ => Counts c core t) Never :=
      coreState.bind fun _ => restock (fun _ hk => hk.push (fits_rawOf hl hraw)) fun _ => rfl
    exact inject.bind fun _ => .pure fun _ h => h

theorem Counts.setLoopback (v : Bool) :
    Meets (Counts c core t) (setLoopback core v) (fun _ => Counts c core t) Never :=
  coreState.bind fun _ => restock (fun _ hk => hk) fun _ => rfl

theorem Counts.takeSent :
    Meets (Counts c core t) (takeSent core) (fun _ => Counts c core t) Never :=
  coreState.bind fun _ =>
    (restock (f := fun k => { k with sent := [] }) (fun _ hk => hk) fun _ => rfl).bind fun _ =>
      .pure fun _ h => h

end Nic

namespace Call

open Exchange (Paced)

/-- What a call makes of the pace of its owner and the device. -/
def pace (x : Exchange Backing) (p : Pace) : Call → Pace
  | receive q t => if Exchange.polled (x.receiveWith q t).1 then p.exchange .rx else p
  | prepare _ => p
  | transmit q t d => if Exchange.rang (x.transmitWith q t d).1 then p.exchange .tx else p
  | resync next => { p with owner := next }
  | bringUp q fuel => (Pace.exchange .rx)^[Exchange.bringUpPolls q fuel x] p

theorem whole_ofCall {say : α → Outcome} {r : Except Stop α} (hsay : ∀ v, (say v).Whole)
    (hr : ∀ f, r = .error (.fault f) → f = .outOfStorage) : (Outcome.ofCall say r).Whole := by
  intro f hf
  rcases r with (_ | f' | _) | v
  · cases hf
  · cases hf
    exact hr _ rfl
  · cases hf
  · exact hsay v f hf

/-- Owner and device go on as the result of a call tells. -/
theorem paced {x : Exchange Backing} (hx : Paced c core p x) (call : Call) :
    (call.make x).1.Whole ∧ Paced c core (call.pace x p) (call.make x).2 := by
  cases call with
  | receive q s =>
    obtain ⟨hpaced, hwhole⟩ := hx.receiveWith q s
    exact ⟨whole_ofCall (fun _ _ h => nomatch h) fun f hf => absurd hf (hwhole f), hpaced⟩
  | prepare kind =>
    have hpost := (Exchange.meets_prepare kind).out (.intro _ x) hx
    change (Outcome.ofCall .staged ((ExceptT.run (Exchange.prepare kind)).run x).1).Whole ∧
      Paced c core p ((ExceptT.run (Exchange.prepare kind)).run x).2
    generalize (ExceptT.run (Exchange.prepare kind)).run x = q at hpost ⊢
    obtain ⟨r, y⟩ := q
    cases r with
    | ok d => exact ⟨nofun, hpost⟩
    | error e =>
      obtain ⟨rfl, hy⟩ := hpost
      refine ⟨?_, hy⟩
      intro f hf
      cases hf
      rfl
  | transmit q s d =>
    obtain ⟨hpaced, hwhole⟩ := hx.transmitWith q s d
    exact ⟨whole_ofCall (fun _ _ h => nomatch h) fun f hf => absurd hf (hwhole f), hpaced⟩
  | resync next =>
    obtain ⟨y, hend, hy⟩ := hx.resync next
    have hmake : (resync next).make x = (.done, y) :=
      congrArg (fun q : Except Stop Unit × Exchange Backing =>
        (Outcome.ofCall (fun _ => .done) q.1, q.2)) hend
    rw [hmake]
    exact ⟨nofun, hy⟩
  | bringUp q fuel =>
    obtain ⟨r, y, hend, hy, hwhole⟩ := hx.bringUp (q := q) fuel
    have hmake : (bringUp q fuel).make x = (.ofCall .drained r, y) :=
      congrArg (fun q : Except Stop Nat × Exchange Backing =>
        (Outcome.ofCall .drained q.1, q.2)) hend
    rw [hmake]
    exact ⟨whole_ofCall (fun _ _ h => nomatch h) fun f hf => absurd hf (hwhole f), hy⟩

end Call

/-- Whether the operation is a call by an owner. -/
def Op.isCall : Op → Bool
  | call .. => true
  | visit .. => true
  | _ => false

namespace Station

open Host (On)

variable {s : Station} {P : Nic Region → Prop}

theorem on_onHost (say : α → Outcome) {a : Access (Host Backing) α} {Q : α → Nic Region → Prop}
    (ha : Meets (On c P) a (fun v => On c (Q v)) Never) (hs : s.host.On c P) :
    ∃ v, (s.onHost say a).1 = say v ∧ (s.onHost say a).2.host.On c (Q v) := by
  have hpost := ha.out (.intro a s.host) hs
  unfold onHost Access.run
  generalize (ExceptT.run a).run s.host = q at hpost ⊢
  obtain ⟨r, host⟩ := q
  cases r with
  | ok v => exact ⟨v, rfl, hpost⟩
  | error f => exact hpost.elim

theorem counts_onDevice {say : α → Outcome} {a : Access (Nic Region) α}
    (hsay : ∀ v, (say v).Whole) (ha : Meets P a (fun _ => P) Never) (hs : s.host.On c P) :
    (s.onDevice say a).1.Whole ∧ (s.onDevice say a).2.host.On c P := by
  have said : Meets P ((some ∘ say) <$> a) (fun r d => (∃ v, r = some (say v)) ∧ P d) Never :=
    ha.map _ fun v _ hd => ⟨⟨v, rfl⟩, hd⟩
  obtain ⟨r, hr, hon⟩ := on_onHost (·.getD .absent) (Host.meets_access (pure none) said) hs
  obtain ⟨d, hmem, ⟨v, rfl⟩, hd⟩ := hon.device
  refine ⟨?_, hon.config, d, hmem, hd⟩
  unfold onDevice
  rw [hr]
  exact hsay v

theorem on_onGate (say : α → Outcome) (f : Gate → α × Gate) (hs : s.host.On c (Counts c core t)) :
    ∃ v, (s.onGate core say f).1 = say v ∧
      (s.onGate core say f).2.host.On c (Counts c core t) := by
  unfold onGate
  rw [hs.coreError?]
  exact on_onHost say (Host.meets_onGate f) hs

theorem counts_onGate (say : α → Outcome) (hsay : ∀ v, (say v).Whole) (f : Gate → α × Gate)
    (hs : s.host.On c (Counts c core t)) :
    (s.onGate core say f).1.Whole ∧ (s.onGate core say f).2.host.On c (Counts c core t) := by
  obtain ⟨v, hv, hon⟩ := on_onGate say f hs
  exact ⟨hv ▸ hsay v, hon⟩

theorem counts_claim (next : Parity) (hs : s.host.On c (Counts c core t)) :
    (s.claim core next).1.Whole ∧ (s.claim core next).2.host.On c (Counts c core t) := by
  unfold claim Access.run
  rw [Host.claim_run, hs.coreError?]
  unfold Host.claimed?
  by_cases htaken : s.host.isClaimed core = true
  · simp only [if_pos htaken]
    exact ⟨nofun, hs⟩
  · simp only [if_neg htaken]
    by_cases hroom : s.host.config.rxBufferSize < storageLimit ∧
        s.host.config.txBufferSize < storageLimit
    · simp only [if_pos hroom]
      exact ⟨nofun, hs.config, hs.device⟩
    · simp only [if_neg hroom]
      refine ⟨?_, hs⟩
      intro f hf
      cases hf
      rfl

theorem counts_hold (hs : s.host.On c (Counts c core t)) :
    (s.hold core).1.Whole ∧ (s.hold core).2.host.On c (Counts c core t) := by
  obtain ⟨v, hv, hon⟩ := on_onGate .held attempt hs
  rw [hold_eq, hv]
  cases v with
  | true => exact ⟨nofun, hon⟩
  | false => exact ⟨nofun, hon⟩

theorem counts_leave (hs : s.host.On c (Counts c core t)) :
    (s.leave core).1.Whole ∧ (s.leave core).2.host.On c (Counts c core t) := by
  unfold leave
  split
  · exact ⟨nofun, hs⟩
  · exact counts_onGate (s := { s with guards := _ }) (fun _ => .done) nofun _ hs

/-- What is not a call counts nothing. -/
theorem counts_step (hl : c.layout.Ordered) {op : Op} (hop : op.isCall = false)
    (hs : s.host.On c (Counts c op.core t)) :
    (s.step op).1.Whole ∧ (s.step op).2.host.On c (Counts c op.core t) := by
  cases op with
  | claim core next => exact counts_claim next hs
  | drop core =>
    change (s.drop core).1.Whole ∧ (s.drop core).2.host.On c (Counts c core t)
    unfold drop
    split
    · exact ⟨nofun, hs⟩
    · exact ⟨nofun, hs.config, hs.device⟩
  | call core call => cases hop
  | visit o call => cases hop
  | setReady core v => exact counts_onGate (fun _ => .done) nofun _ hs
  | hold core => exact counts_hold hs
  | leave core => exact counts_leave hs
  | grant core v => exact counts_onDevice (fun _ _ h => nomatch h) (Counts.setReady v) hs
  | inject core tr payload =>
    refine counts_onDevice ?_ (Counts.inject hl tr payload) hs
    intro r f hf
    cases r <;> cases hf
  | setLoopback core v => exact counts_onDevice (fun _ _ h => nomatch h) (Counts.setLoopback v) hs
  | takeSent core => exact counts_onDevice (fun _ _ h => nomatch h) Counts.takeSent hs

end Station
end LineExchange
