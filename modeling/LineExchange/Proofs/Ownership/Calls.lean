import LineExchange.Proofs.Exchange.Section
import LineExchange.Station

/-!
# LineExchange.Proofs.Ownership.Calls

Claims and calls on any memory at all.

* `Host.ends_claim`: how a claim ends. No flag changes but that of a core that was claimed.
* `Exchange.Stays`: the settings of the host, its flags and the core of the owner stay as they are.
  One rule for each part of a call.
* `Exchange.stays_make`: so it is in every call, whatever the memory does and however it ends.
-/

namespace LineExchange

/-- Whether there can be storage for the buffers of an owner. -/
def Config.HasRoom (c : Config) : Prop :=
  c.rxBufferSize < storageLimit ∧ c.txBufferSize < storageLimit

instance (c : Config) : Decidable c.HasRoom := inferInstanceAs (Decidable (_ ∧ _))

variable {M : Type}

namespace Access

theorem ends_require {ok : Bool} {f : Fault} (h : ok = true) (m : M) :
    Ends (Access.require ok f) m (.ok ()) m := by
  subst h
  exact .pure _ m

theorem ends_require_not {ok : Bool} {f : Fault} (h : ok = false) (m : M) :
    Ends (Access.require ok f) m (.error f) m := by
  subst h
  exact .throw _ m

end Access

namespace Host

/-- How a claim ends. -/
inductive Claimed (core : Nat) (next : Parity) (host : Host M) :
    Except Fault (Except ExchangeError Owner) → Host M → Prop where
  | invalid : host.config.numCores ≤ core →
    Claimed core next host (.ok (.error (.invalidCore core host.config.numCores))) host
  | taken : core < host.config.numCores → host.isClaimed core = true →
    Claimed core next host (.ok (.error (.coreInUse core))) host
  | granted : core < host.config.numCores → host.isClaimed core = false → host.config.HasRoom →
    Claimed core next host (.ok (.ok (.synced core host.config next))) (host.setClaimed core true)
  | noRoom : core < host.config.numCores → host.isClaimed core = false → ¬host.config.HasRoom →
    Claimed core next host (.error .outOfStorage) host

theorem ends_claim (core : Nat) (next : Parity) (host : Host M) :
    ∃ r host', Ends (claim core next) host r host' ∧ Claimed core next host r host' := by
  by_cases hcore : core < host.config.numCores
  · have hnone : host.coreError? core = none := if_pos hcore
    by_cases htaken : host.isClaimed core = true
    · refine ⟨_, _, .bind (.get host) ?_, .taken hcore htaken⟩
      simp only [hnone, htaken, if_true]
      exact .pure _ host
    · rw [Bool.not_eq_true] at htaken
      by_cases hroom : host.config.HasRoom
      · refine ⟨_, _, .bind (.get host) ?_, .granted hcore htaken hroom⟩
        simp only [hnone, htaken, Bool.false_eq_true, if_false]
        exact .bind (Access.ends_require (decide_eq_true (p := _ ∧ _) hroom) host)
          (.bind (.set _ host) (.pure _ _))
      · refine ⟨_, _, .bind (.get host) ?_, .noRoom hcore htaken hroom⟩
        simp only [hnone, htaken, Bool.false_eq_true, if_false]
        exact .bind_error (Access.ends_require_not (decide_eq_false (p := _ ∧ _) hroom) host)
  · have hsome : host.coreError? core = some (.invalidCore core host.config.numCores) :=
      if_neg hcore
    refine ⟨_, _, .bind (.get host) ?_, .invalid (Nat.not_lt.1 hcore)⟩
    simp only [hsome]
    exact .pure _ host

/-- The settings and the flags of a host stay. -/
structure Stays (host host' : Host M) : Prop where
  config : host'.config = host.config
  claimed : host'.claimed = host.claimed

theorem Stays.refl (host : Host M) : Stays host host := ⟨rfl, rfl⟩

variable {α : Type} {host : Host M}

theorem keeps_onMemory (a : Access M α) : Keeps host.Stays (onMemory a) :=
  .onPart fun _ _ _ _ h => ⟨h.config, h.claimed⟩

theorem keeps_onGate [Memory M] (core : Nat) (f : Gate → α × Gate) :
    Keeps host.Stays (onGate core f) := by
  have gate : Keeps host.Stays (gate core) :=
    .get_bind fun _ _ => (keeps_onMemory _).bind fun _ => .pure _
  have store (g : Gate) : Keeps host.Stays (setGate core g) :=
    .get_bind fun _ _ => (keeps_onMemory _).bind fun _ => .modify fun _ h => ⟨h.config, h.claimed⟩
  exact gate.bind fun _ => (store _).bind fun _ => .pure _

end Host

namespace Exchange

variable {α σ : Type} {x y z : Exchange M} {p : SpinPolicy σ} {s : σ}

/-- The settings and the flags of the host and the core of the owner stay. -/
structure Stays (x y : Exchange M) : Prop where
  host : x.host.Stays y.host
  core : y.owner.core = x.owner.core

theorem Stays.refl (x : Exchange M) : Stays x x := ⟨.refl _, rfl⟩

theorem Stays.trans (h : Stays x y) (h' : Stays y z) : Stays x z :=
  ⟨⟨h'.host.config.trans h.host.config, h'.host.claimed.trans h.host.claimed⟩,
    h'.core.trans h.core⟩

theorem stays_onHost {a : Access (Host M) α} (ha : ∀ host, Keeps (Host.Stays host) a) :
    Keeps x.Stays (onHost a : Step M α) := by
  constructor
  intro y r z hend hy
  obtain ⟨-, rfl⟩ := hend.unique (ends_onHost (.intro a y.host))
  exact ⟨(ha x.host).out (.intro a y.host) hy.host, hy.core⟩

theorem stays_onMemory (a : Access M α) : Keeps x.Stays (onMemory a : Step M α) :=
  stays_onHost fun _ => Host.keeps_onMemory a

theorem stays_modify {g : Exchange M → Exchange M} (hg : ∀ y : Exchange M, y.Stays (g y)) :
    Keeps x.Stays (modify g : Step M PUnit) := .modify fun y hy => hy.trans (hg y)

theorem stays_count (f : Stats → Stats) : Keeps x.Stays (count f : Step M Unit) :=
  stays_modify fun y => ⟨.refl y.host, rfl⟩

theorem stays_toggle (d : Direction) : Keeps x.Stays (toggle d : Step M Unit) :=
  stays_modify fun y => ⟨.refl y.host, rfl⟩

variable [Memory M]

theorem stays_guarded {body : Step M α} (h : Keeps x.Stays body) :
    Keeps x.Stays (guarded body) := by
  constructor
  intro y r z hend hy
  have hbody := h.out (.intro body y) hy
  obtain ⟨-, rfl⟩ := hend.unique (ends_guarded_leave (.intro body y))
  exact (stays_onHost fun _ => Host.keeps_onGate _ _).out (.intro _ _) hbody

theorem stays_poll : Keeps x.Stays (poll : Step M (Option Received)) := by
  refine .get_bind fun y hy => (stays_onMemory _).map.bind fun line =>
    (stays_toggle .rx).bind fun _ => ?_
  dsimp only
  split
  · split
    · exact .throw _
    · have fill (start : Nat) (data : Bytes) :
          Keeps x.Stays (fillBuffer start data : Step M Unit) :=
        stays_modify fun y => ⟨.refl y.host, rfl⟩
      refine (fill _ _).bind fun _ => ?_
      split
      · exact (stays_onMemory _).bind fun _ => (fill _ _).bind fun _ => .get_bind fun _ _ => .pure _
      · exact .get_bind fun _ _ => .pure _
  · exact (stays_count _).bind fun _ => .pure _

theorem stays_receiveEntered : Keeps x.Stays (receiveEntered : Step M (Option Received)) := by
  refine (stays_guarded stays_poll).bind fun r => ?_
  cases r with
  | none => exact .pure _
  | some received => exact (stays_count _).bind fun _ => .pure _

theorem stays_ringDoorbell : Keeps x.Stays (ringDoorbell : Step M Unit) :=
  (stays_toggle .tx).bind fun _ => .get_bind fun _ _ => stays_onMemory _

theorem stays_writeStaged (d : Descriptor) (line : Line) :
    Keeps x.Stays (writeStaged d line : Step M Unit) := by
  refine .get_bind fun y hy => ?_
  dsimp only
  split
  · exact (stays_onMemory _).bind fun _ => stays_onMemory _
  · exact stays_onMemory _

theorem stays_send (d : Descriptor) :
    Keeps x.Stays (send d : Step M (Except EncodeError Unit)) := by
  refine .get_bind fun y hy => ?_
  split
  · exact (stays_writeStaged d _).bind fun _ => stays_ringDoorbell.bind fun _ => .pure _
  · exact stays_ringDoorbell.bind fun _ => .pure _

theorem stays_transmitEntered (d : Descriptor) :
    Keeps x.Stays (transmitEntered d : Step M Unit) := by
  refine (stays_guarded (stays_send d)).bind fun r => ?_
  cases r with
  | ok v => exact stays_count _
  | error e => exact (stays_count _).bind fun _ => .throw _

theorem stays_enter (x : Exchange M) : x.Stays (x.enter p s).2.2 := by
  have hhost {f : Gate → (SpinResult × σ) × Gate} {r : Except Fault (SpinResult × σ)}
      {host : Host M} (hr : Access.run (Host.onGate x.owner.core f) x.host = (r, host)) :
      x.Stays { x with host } :=
    ⟨(Host.keeps_onGate x.owner.core f).out hr (.refl x.host), rfl⟩
  unfold enter
  dsimp only
  split
  · next hr => exact hhost hr
  · next hr => exact hhost hr
  · next hr => exact hhost hr
  · next hr => exact hhost hr

theorem stays_entering {rest : Step M α} (hrest : ∀ y : Exchange M, Keeps y.Stays rest) :
    x.Stays (x.entering p s rest).2.2 := by
  have henter := stays_enter (p := p) (s := s) x
  unfold entering
  cases hr : x.enter p s with
  | mk r rest' =>
    obtain ⟨t, y⟩ := rest'
    rw [hr] at henter
    cases r with
    | error e => exact henter
    | ok v => exact henter.trans ((hrest y).out (.intro rest y) (.refl y))

theorem stays_receiveWith (x : Exchange M) : x.Stays (x.receiveWith p s).2.2 := by
  unfold receiveWith
  cases x.host.coreError? x.owner.core with
  | some e => exact .refl x
  | none => exact stays_entering fun _ => stays_receiveEntered

theorem stays_transmitStaged (x : Exchange M) (d : Descriptor) :
    x.Stays (x.transmitStaged p s d).2.2 := by
  unfold transmitStaged
  cases x.host.coreError? x.owner.core with
  | some e => exact .refl x
  | none =>
    dsimp only
    split
    · exact ⟨.refl x.host, rfl⟩
    · exact stays_entering fun _ => stays_transmitEntered d

theorem stays_transmitWith (x : Exchange M) (d : Descriptor) :
    x.Stays (x.transmitWith p s d).2.2 := by
  have hstaged := stays_transmitStaged (p := p) (s := s) x d
  unfold transmitWith
  split
  · next hr => rwa [hr] at hstaged
  · next hr =>
    rw [hr] at hstaged
    exact ⟨hstaged.host, hstaged.core⟩

omit [Memory M] in
theorem stays_checkCore : Keeps x.Stays (checkCore : Step M Unit) := by
  refine .get_bind fun y _ => ?_
  split
  · exact .throw _
  · exact .pure _

omit [Memory M] in
theorem stays_resync (next : Parity) : Keeps x.Stays (resync next : Step M Unit) :=
  stays_checkCore.bind fun _ => stays_modify fun y => ⟨.refl y.host, rfl⟩

omit [Memory M] in
theorem stays_prepare (kind : TransactionKind) :
    Keeps x.Stays (prepare kind : Step M Descriptor) := by
  constructor
  intro y r z hend hy
  obtain ⟨-, rfl⟩ := hend.unique (ends_prepare y kind)
  exact ⟨hy.host, hy.core⟩

theorem stays_drain (q : SpinPolicy Unit) (fuel drained : Nat) :
    Keeps x.Stays (drain q fuel drained : Step M Nat) := by
  have receive : Keeps x.Stays (receive q : Step M (Option Received)) := by
    constructor
    intro y r z hend hy
    have hz : z = (y.receiveWith q ()).2.2 := (congrArg Prod.snd hend).symm
    exact hz ▸ hy.trans (stays_receiveWith y)
  induction fuel generalizing drained with
  | zero => exact .throw _
  | succ fuel ih =>
    refine receive.bind fun r => ?_
    cases r with
    | none => exact .pure _
    | some received => exact ih _

theorem stays_bringUp (q : SpinPolicy Unit) (fuel : Nat) :
    Keeps x.Stays (bringUp q fuel : Step M Nat) := by
  have invalidate : Keeps x.Stays (invalidateLines : Step M Unit) :=
    .get_bind fun _ _ => .forM fun _ _ => stays_onMemory _
  exact stays_checkCore.bind fun _ => invalidate.bind fun _ => stays_drain q fuel 0

/-- No call changes a flag, the settings, or the core of its owner. -/
theorem stays_make (x : Exchange M) (call : Call) : x.Stays (call.make x).2 := by
  cases call with
  | receive p t => exact stays_receiveWith (p := p) (s := t) x
  | prepare kind => exact (stays_prepare kind).out (.intro _ x) (.refl x)
  | transmit p t d => exact stays_transmitWith (p := p) (s := t) x d
  | resync next => exact (stays_resync next).out (.intro _ x) (.refl x)
  | bringUp p fuel => exact (stays_bringUp p fuel).out (.intro _ x) (.refl x)

end Exchange
end LineExchange
