import LineExchange.Proofs.Exchange.Section
import LineExchange.Proofs.Layout.Views

/-!
# LineExchange.Proofs.Failure.Untouched

What a call leaves behind that was refused in front of the gate (`Stop.Outside`): on a core that is
not mapped, with a payload that is too large, or because its policy gave up.

* `SteadyMemory`: storing a control byte as it is changes nothing. So tries to enter under a policy
  that leaves the byte alone (`SpinPolicy.Quiet`) change nothing but a counter.
* `Exchange.failed`: all that such a call may leave behind. The memory is the same as a whole: a
  device and a log that stand behind it as well as its bytes.
* `Exchange.receiveWith_failed`, `Exchange.transmitWith_failed`: it leaves behind no more.
* `Exchange.transmitWith_tooLarge`: a payload is found too large without a look at the gate.
-/

namespace LineExchange

open Memory (controlByte stored)

variable {M α σ : Type} [Memory M]

namespace SpinPolicy

variable {p : SpinPolicy σ}

/-- A policy that leaves the control byte alone while it is asked. -/
def Quiet (p : SpinPolicy σ) : Prop := ∀ failed s b, (p.keepSpinning failed s b).2.2 = b

theorem Quiet.eq_of_asked (hp : p.Quiet) {b c : UInt8} (h : p.Asked b c) : c = b := by
  induction h with
  | refl => rfl
  | tail _ hstep ih =>
    obtain ⟨failed, s, rfl⟩ := hstep
    exact (hp failed s _).trans ih

end SpinPolicy

theorem SpinLimit.quiet_policy (l : SpinLimit) : l.policy.Quiet := fun _ _ _ => rfl

/-! ## Memories that keep what is stored again -/

/-- A memory in which storing a control byte as it is changes nothing. -/
class SteadyMemory (M : Type) [Memory M] : Prop extends LawfulMemory M where
  stored_controlByte (offset : Nat) (m : M) : offset < Memory.size m →
    stored offset (controlByte offset m) m = m

instance : SteadyMemory Region where
  stored_controlByte offset r h := by
    have hstored : stored offset (controlByte offset r) r = _ :=
      congrArg Prod.snd (Region.ends_storeControl (controlByte offset r) h)
    rw [hstored, Region.controlByte_eq, Bytes.put_self]

instance [SteadyMemory M] : SteadyMemory (Traced M) where
  stored_controlByte offset t h :=
    congrArg (fun m => { t with inner := m }) (SteadyMemory.stored_controlByte offset t.inner h)

instance [SteadyMemory M] : SteadyMemory (Nic M) where
  stored_controlByte offset d h :=
    congrArg (fun m => { d with memory := m }) (SteadyMemory.stored_controlByte offset d.memory h)

instance : SteadyMemory Flaky where
  stored_controlByte offset m h :=
    congrArg (fun r => { m with region := r }) (SteadyMemory.stored_controlByte offset m.region h)

instance : SteadyMemory Backing where
  stored_controlByte
    | offset, .plain r, h => congrArg Backing.plain (SteadyMemory.stored_controlByte offset r h)
    | offset, .device d, h => congrArg Backing.device (SteadyMemory.stored_controlByte offset d h)

/-! ## What is left behind -/

namespace ExchangeError

/-- Failed attempts to enter that a refusal reports. -/
def spins : ExchangeError → Nat
  | handshakeStuck _ attempts => attempts
  | _ => 0

/-- How often a transmit counts as given up for it before it enters. -/
def aborts : ExchangeError → Nat
  | payloadTooLarge .. => 1
  | _ => 0

end ExchangeError

def Counters.spun (n : Nat) (c : Counters) : Counters := { c with spins := c.spins + n }

namespace Host

/-- The host after `n` more failed attempts at the gate of a core. -/
def spun (core n : Nat) (host : Host M) : Host M :=
  { host with counters := host.counters.setIfInBounds core ((host.countersOf core).spun n) }

omit [Memory M] in
theorem spun_zero (core : Nat) (host : Host M) : host.spun core 0 = host := by
  have hsame : host.counters.setIfInBounds core (host.countersOf core) = host.counters := by
    refine Array.ext_getElem? fun i => ?_
    rw [Array.getElem?_setIfInBounds, countersOf, Array.getD_eq_getD_getElem?]
    split
    · next h =>
      subst h
      split
      · next hlt => simp [hlt]
      · next hge => simp [Nat.not_lt.1 hge]
    · rfl
  rw [spun]
  exact congrArg (fun counters => { host with counters }) hsame

theorem withGate_addSpins [SteadyMemory M] {core : Nat} {host : Host M}
    (h : host.workerAt core < Memory.size host.memory) (n : Nat) :
    host.withGate core ((host.gateOf core).addSpins n) = host.spun core n :=
  congrArg (fun memory => { host.spun core n with memory })
    (SteadyMemory.stored_controlByte (host.workerAt core) host.memory h)

end Host

theorem Stop.Outside.not_inside {e : Stop} (h : e.Outside) : ¬e.Inside := by
  cases h <;> nofun

namespace Exchange

/-- All that a call leaves behind that was refused with `e` in front of the gate. -/
def failed (e : ExchangeError) (x : Exchange M) : Exchange M where
  host := x.host.spun x.owner.core e.spins
  owner := { x.owner with
    stats := { x.owner.stats with aborted := x.owner.stats.aborted + e.aborts } }

/-- The exchange with the emptied transmit buffer brought back. -/
def returned (x : Exchange M) : Exchange M :=
  { x with owner := { x.owner with txBuffer := some ByteArray.empty } }

variable {x y : Exchange M} {p : SpinPolicy σ} {s t : σ} {e : ExchangeError} {d : Descriptor}

omit [Memory M] in
theorem failed_invalidCore (he : x.host.coreError? x.owner.core = some e) : x.failed e = x := by
  unfold Host.coreError? at he
  split at he
  · cases he
  · cases he
    exact congrArg (fun host => { x with host }) (Host.spun_zero ..)

omit [Memory M] in
theorem failed_tooLarge (x : Exchange M) (len capacity : Nat) :
    x.failed (.payloadTooLarge len capacity) = { x with owner := { x.owner with
      stats := { x.owner.stats with aborted := x.owner.stats.aborted + 1 } } } :=
  congrArg (Exchange.mk · (x.failed (.payloadTooLarge len capacity)).owner) (Host.spun_zero ..)

/-- A payload that is too large is refused whatever stands at the gate, and the policy is not
asked. Only that the core is not mapped is found earlier. -/
theorem transmitWith_tooLarge (x : Exchange M) (p : SpinPolicy σ) (s : σ)
    (hd : x.host.config.layout.payloadCapacity < d.payload.size) :
    let e := (x.host.coreError? x.owner.core).getD
      (.payloadTooLarge d.payload.size x.host.config.layout.payloadCapacity)
    x.transmitWith p s d = (.error (.refused e), s, (x.failed e).returned) := by
  cases hcore : x.host.coreError? x.owner.core with
  | some e =>
    simp only [transmitWith, transmitStaged, hcore, Option.getD_some, failed_invalidCore hcore]
    rfl
  | none =>
    simp only [transmitWith, transmitStaged, hcore, if_pos hd, Option.getD_none, failed_tooLarge]
    rfl

theorem raises_guarded {E : Stop → Prop} {body : Step M α} (h : Raises E body) :
    Raises E (guarded body) := by
  refine ⟨fun {x e y} hend => ?_⟩
  have hfst : ((ExceptT.run body).run x).1 = .error e := congrArg Prod.fst hend
  have hbody : Ends body x (.error e) ((ExceptT.run body).run x).2 := Prod.ext hfst rfl
  exact h.out hbody

theorem raises_receiveEntered :
    Raises Stop.Inside (receiveEntered : Step M (Option Received)) := by
  refine (raises_guarded raises_poll).bind fun r => ?_
  cases r with
  | none => exact .pure _
  | some r => exact .bind (.modify _) fun _ => .pure _

theorem raises_transmitEntered (d : Descriptor) :
    Raises Stop.Inside (transmitEntered d : Step M Unit) := by
  refine (raises_guarded (raises_send d)).bind fun r => ?_
  cases r with
  | ok _ => exact .modify _
  | error e => exact .bind (.modify _) fun _ => .throw (.unsupportedTransmit e)

variable [SteadyMemory M]

/-- A call that was refused although it tried to enter has only counted its attempts. -/
theorem entering_failed {rest : Step M α} (hrest : Raises Stop.Inside rest) (hp : p.Quiet)
    (h : x.entering p s rest = (.error (.refused e), t, y)) (he : (Stop.refused e).Outside) :
    y = x.failed e := by
  rcases Nat.lt_or_ge (x.host.workerAt x.owner.core) (Memory.size x.host.memory) with hin | hout
  · have spun := Gate.spun_enter (p := p) (x.host.gateOf x.owner.core) s
    unfold entering at h
    rw [enter_eq hin] at h
    generalize (x.host.gateOf x.owner.core).enter p s = tries at spun h
    obtain ⟨r, t', g⟩ := tries
    dsimp only at spun h
    cases spun with
    | endless _ => cases h
    | entered spins _ _ =>
      obtain ⟨hr, -⟩ := Prod.mk.inj h
      -- past the gate, a call is refused for other reasons
      exact absurd (hrest.out (Prod.ext hr rfl)) he.not_inside
    | @stuck b attempts hb =>
      cases h
      -- what is stored is the byte that the policy left, and so the one that was there
      obtain rfl := hp.eq_of_asked hb
      exact congrArg (fun host => { x with host }) (Host.withGate_addSpins hin attempts)
  · obtain ⟨f, hf⟩ := enter_outside (p := p) (s := s) hout
    unfold entering at h
    rw [hf] at h
    cases h

theorem receiveWith_failed (hp : p.Quiet) (h : x.receiveWith p s = (.error (.refused e), t, y))
    (he : (Stop.refused e).Outside) : y = x.failed e := by
  unfold receiveWith at h
  cases hcore : x.host.coreError? x.owner.core with
  | some e' =>
    rw [hcore] at h
    cases h
    exact (failed_invalidCore hcore).symm
  | none =>
    rw [hcore] at h
    exact entering_failed raises_receiveEntered hp h he

theorem transmitStaged_failed (hp : p.Quiet)
    (h : x.transmitStaged p s d = (.error (.refused e), t, y)) (he : (Stop.refused e).Outside) :
    y = x.failed e := by
  unfold transmitStaged at h
  cases hcore : x.host.coreError? x.owner.core with
  | some e' =>
    rw [hcore] at h
    cases h
    exact (failed_invalidCore hcore).symm
  | none =>
    rw [hcore] at h
    dsimp only at h
    split at h
    · cases h
      exact (failed_tooLarge ..).symm
    · exact entering_failed (raises_transmitEntered d) hp h he

theorem transmitWith_failed (hp : p.Quiet)
    (h : x.transmitWith p s d = (.error (.refused e), t, y)) (he : (Stop.refused e).Outside) :
    y = (x.failed e).returned := by
  unfold transmitWith at h
  generalize hq : x.transmitStaged p s d = q at h
  obtain ⟨r, t', z⟩ := q
  rcases r with (e' | f | _) | _ <;> cases h
  exact congrArg returned (transmitStaged_failed hp hq he)

theorem receiveWith_closed (hin : x.host.workerAt x.owner.core < Memory.size x.host.memory)
    (hcore : x.host.coreError? x.owner.core = none)
    (hclosed : (x.host.gateOf x.owner.core).isOpen = false) (max : Nat) :
    (x.receiveWith (SpinLimit.attempts max).policy ()).1 =
      .error (.refused (.handshakeStuck x.owner.core (max + 1))) := by
  simp only [receiveWith, hcore, entering, enter_eq hin, Gate.enter_attempts hclosed]
  rfl

end Exchange
end LineExchange
