import LineExchange.Proofs.Failure.Level
import LineExchange.Proofs.Failure.Untouched
import LineExchange.Proofs.Isolation.Cores

/-!
# LineExchange.Proofs.Failure.Atomic

Exchanges that fail are atomic. What an exchange leaves behind that was refused in front of the
gate is level with what was there before (`Station.Fails.level`), and every operation of a station
comes to the same on level stations (`Station.level_step`). So a run in which such exchanges are
left out (`Station.Pruned`) comes to the same.
-/

namespace LineExchange

variable {M α : Type}

namespace Host

theorem level_spun (core n : Nat) (h : Host M) : h.Level (h.spun core n) := by
  refine ⟨rfl, rfl, rfl, ?_⟩
  -- storing what stands there already
  have hzero := congrArg (fun k : Host M => k.counters.map Counters.passages) (spun_zero core h)
  dsimp only [spun] at hzero ⊢
  rw [Array.map_setIfInBounds] at hzero ⊢
  exact hzero.symm

theorem Level.setClaimed {h h' : Host M} (l : h.Level h') (core : Nat) (v : Bool) :
    (h.setClaimed core v).Level (h'.setClaimed core v) :=
  ⟨l.memory, l.config, congrArg (·.setIfInBounds core v) l.claimed, l.passages⟩

theorem level_claim (core : Nat) (next : Parity) : Local (.upTo Level)
    (claim core next : Access (Host Backing) (Except ExchangeError Owner)) := by
  unfold Local
  simp only [claim_run]
  refine .choose (c := fun h : Host Backing => (h.coreError? core, h.isClaimed core, h.config))
    (f := fun k => claimed? core next k.1 k.2.1 k.2.2) ?_ ?_
  · intro h h' _ _ l
    rw [l.coreError?, l.isClaimed, l.config]
  · intro h _
    unfold claimed?
    split
    · exact .const _
    · split
      · exact .const _
      · split
        · exact Confined.upTo fun _ _ l => ⟨rfl, l.setClaimed core true⟩
        · exact .const _

end Host

namespace Exchange

theorem level_failed (e : ExchangeError) (x : Exchange M) : x.Level (x.failed e) :=
  ⟨Host.level_spun .., rfl, rfl, rfl, rfl⟩

theorem Level.returned {x y : Exchange M} (l : x.Level y) : x.Level y.returned :=
  ⟨l.host, l.owner.core, l.owner.next, l.owner.rxBuffer, l.owner.stats⟩

end Exchange

/-- The call is a receive or a transmit under a policy that leaves the control byte alone. -/
inductive Call.Quiet : Call → Prop where
  | receive {σ : Type} {p : SpinPolicy σ} (t : σ) : p.Quiet → Quiet (.receive p t)
  | transmit {σ : Type} {p : SpinPolicy σ} (t : σ) (d : Descriptor) : p.Quiet →
    Quiet (.transmit p t d)

theorem Outcome.of_ofCall_refused (say : α → Outcome) {r : Except Stop α} {e : ExchangeError}
    (hsay : ∀ v, say v ≠ .refused e) (h : ofCall say r = .refused e) :
    r = .error (.refused e) := by
  rcases r with (e' | f | _) | v
  · cases h
    rfl
  · cases h
  · cases h
  · exact absurd h (hsay v)

/-- An exchange that was refused in front of the gate leaves all as it was, up to what is counted
of failed attempts and the transmit buffer. -/
theorem Call.Quiet.level_make {call : Call} (hcall : call.Quiet) {x : Exchange Backing}
    {e : ExchangeError} (h : (call.make x).1 = .refused e) (he : (Stop.refused e).Outside) :
    x.Level (call.make x).2 := by
  cases hcall with
  | @receive σ p t hp =>
    have hr : (x.receiveWith p t).1 = .error (.refused e) :=
      Outcome.of_ofCall_refused .received (fun _ => nofun) h
    have hy := Exchange.receiveWith_failed hp (Prod.ext hr rfl) he
    show x.Level (x.receiveWith p t).2.2
    rw [hy]
    exact x.level_failed e
  | @transmit σ p t d hp =>
    have hr : (x.transmitWith p t d).1 = .error (.refused e) :=
      Outcome.of_ofCall_refused (fun _ => .done) (fun _ => nofun) h
    have hy := Exchange.transmitWith_failed hp (Prod.ext hr rfl) he
    show x.Level (x.transmitWith p t d).2.2
    rw [hy]
    exact (x.level_failed e).returned

/-- The operation is such an exchange, of an owner or a visitor. -/
def Op.Quiet : Op → Prop
  | .call _ c => c.Quiet
  | .visit _ c => c.Quiet
  | _ => False

namespace Station

/-- Two stations differ at most in what is counted of failed attempts and in transmit buffers. -/
structure Level (s t : Station) : Prop where
  host : s.host.Level t.host
  owners : ∀ core, Option.Rel Owner.Level (s.owners core) (t.owners core)
  guards : s.guards = t.guards

variable {s t : Station} {core : Nat}

theorem Level.refl (s : Station) : Level s s := by
  refine ⟨.refl _, fun core => ?_, rfl⟩
  cases s.owners core with
  | none => exact .none
  | some o => exact .some (.refl o)

theorem Level.symm (l : Level s t) : Level t s := by
  refine ⟨l.host.symm, fun core => ?_, l.guards.symm⟩
  have lo := l.owners core
  generalize s.owners core = o at lo ⊢
  generalize t.owners core = o' at lo ⊢
  cases lo with
  | none => exact .none
  | some lo => exact .some lo.symm

theorem Level.trans {u : Station} (l : Level s t) (l' : Level t u) : Level s u := by
  refine ⟨l.host.trans l'.host, fun core => ?_, l.guards.trans l'.guards⟩
  have lo := l.owners core
  have lo' := l'.owners core
  generalize s.owners core = o at lo ⊢
  generalize t.owners core = o' at lo lo'
  generalize u.owners core = o'' at lo' ⊢
  cases lo with
  | none => exact lo'
  | some lo =>
    cases lo' with
    | some lo' => exact .some (lo.trans lo')

theorem Level.setOwner (l : Level s t) {o o' : Option Owner} (lo : Option.Rel Owner.Level o o')
    (core : Nat) : Level { s with owners := Function.update s.owners core o }
      { t with owners := Function.update t.owners core o' } := by
  refine ⟨l.host, fun k => ?_, l.guards⟩
  by_cases hk : k = core
  · subst hk
    simpa only [Function.update_self] using lo
  · simpa only [Function.update_of_ne hk] using l.owners k

theorem Level.setGuards (l : Level s t) (core : Nat) (f : Nat → Nat) :
    Level { s with guards := Function.update s.guards core (f (s.guards core)) }
      { t with guards := Function.update t.guards core (f (t.guards core)) } :=
  ⟨l.host, l.owners, by rw [l.guards]⟩

theorem confined_level {β : Type} {f : Host Backing → β × Host Backing}
    (hf : Confined (.upTo Host.Level) f) :
    Confined (.upTo Level) fun s => ((f s.host).1, { s with host := (f s.host).2 }) := by
  refine Confined.upTo ?_
  intro s t l
  obtain ⟨heq, lh⟩ := hf.same l.host
  exact ⟨heq, lh, l.owners, l.guards⟩

theorem level_access (say : α → Outcome) {a : Access (Host Backing) α}
    (ha : Local (.upTo Host.Level) a) : Confined (.upTo Level) fun s => s.onHost say a :=
  Confined.map (confined_level ha) (Outcome.ofAccess say)

theorem level_onDevice (say : α → Outcome) (a : Access (Nic Region) α) :
    Confined (.upTo Level) fun s => s.onDevice say a :=
  level_access _ (Host.level_onMemory _)

theorem level_onGate (say : α → Outcome) {f : Gate → α × Gate}
    (hf : Confined (.upTo Gate.Level) f) :
    Confined (.upTo Level) fun s => s.onGate core say f :=
  confined_onGate_of (fun _ _ _ _ l => l.host.coreError? core)
    (level_access say (Host.level_onGate core hf))

theorem level_claim (next : Parity) : Confined (.upTo Level) fun s => s.claim core next := by
  simp only [claim_eq]
  refine (confined_level (Host.level_claim core next)).bind (g := settle core) ?_
  intro r
  rcases r with f | e | o
  · exact .const _
  · exact .const _
  · exact Confined.upTo fun _ _ l => ⟨rfl, l.setOwner (.some (.refl o)) core⟩

theorem level_drop : Confined (.upTo Level) fun s => s.drop core := by
  refine Confined.upTo ?_
  intro s t l
  have lowners := l.owners core
  unfold drop
  generalize s.owners core = o at lowners ⊢
  generalize t.owners core = o' at lowners ⊢
  cases lowners with
  | none => exact ⟨rfl, l⟩
  | @some o o' lo =>
    have released : Level { s with host := s.host.release o.core }
        { t with host := t.host.release o'.core } := by
      refine ⟨?_, l.owners, l.guards⟩
      rw [lo.core]
      exact l.host.setClaimed o'.core false
    exact ⟨rfl, released.setOwner .none core⟩

theorem level_call (call : Call) : Confined (.upTo Level) fun s => s.call core call := by
  refine Confined.upTo ?_
  intro s t l
  have lowners := l.owners core
  unfold Station.call
  generalize s.owners core = o at lowners ⊢
  generalize t.owners core = o' at lowners ⊢
  cases lowners with
  | none => exact ⟨rfl, l⟩
  | @some o o' lo =>
    obtain ⟨heq, lx⟩ := call.level.same (s := ⟨s.host, o⟩) (t := ⟨t.host, o'⟩) ⟨l.host, lo⟩
    have made : Level { s with host := (call.make ⟨s.host, o⟩).2.host }
        { t with host := (call.make ⟨t.host, o'⟩).2.host } := ⟨lx.host, l.owners, l.guards⟩
    exact ⟨heq, made.setOwner (.some lx.owner) core⟩

theorem level_visit (o : Owner) (call : Call) :
    Confined (.upTo Level) fun s => s.step (.visit o call) := by
  refine Confined.upTo ?_
  intro s t l
  obtain ⟨heq, lx⟩ := call.level.same (s := ⟨s.host, o⟩) (t := ⟨t.host, o⟩) ⟨l.host, .refl o⟩
  exact ⟨heq, lx.host, l.owners, l.guards⟩

theorem level_hold : Confined (.upTo Level) fun s => s.hold core := by
  have attempts : Confined (.upTo Gate.Level) attempt := by
    refine Confined.upTo ?_
    intro g g' l
    unfold attempt Gate.tryEnter
    rw [l.isOpen]
    cases g'.isOpen with
    | true => exact ⟨rfl, l.entered⟩
    | false => exact ⟨rfl, l⟩
  exact confined_hold_of (level_onGate .held attempts)
    (Confined.upTo fun _ _ l => ⟨rfl, l.setGuards core (· + 1)⟩)

theorem level_leave : Confined (.upTo Level) fun s => s.leave core := by
  have leaves : Confined (.upTo Gate.Level) fun g : Gate => ((), g.leave) :=
    Confined.upTo fun g g' l => ⟨rfl, l.leave⟩
  exact confined_leave_of (fun _ _ _ _ l => congrFun l.guards core)
    (Confined.upTo fun _ _ l => ⟨rfl, l.setGuards core (· - 1)⟩) (level_onGate _ leaves)

theorem level_step (op : Op) : Confined (.upTo Level) fun s => s.step op := by
  cases op with
  | claim core next => exact level_claim next
  | drop core => exact level_drop
  | call core call => exact level_call call
  | visit o call => exact level_visit o call
  | setReady core v =>
    exact level_onGate _ (Confined.upTo fun g g' l =>
      ⟨rfl, congrArg (ControlByte.setReady · v) l.byte, l.passages⟩)
  | hold core => exact level_hold
  | leave core => exact level_leave
  | grant core v => exact level_onDevice _ _
  | inject core t payload => exact level_onDevice _ _
  | setLoopback core v => exact level_onDevice _ _
  | takeSent core => exact level_onDevice _ _

/-- What all operations of a run come to. -/
def answers : Station → List Op → List Outcome
  | _, [] => []
  | s, op :: ops => (s.step op).1 :: answers (s.step op).2 ops

/-- The operation is an exchange, and it is refused in front of the gate. -/
def Fails (s : Station) (op : Op) : Prop :=
  op.Quiet ∧ ∃ e, (s.step op).1 = .refused e ∧ (Stop.refused e).Outside

theorem level_call_refused {call : Call} (hcall : call.Quiet) {e : ExchangeError}
    (h : (s.call core call).1 = .refused e) (he : (Stop.refused e).Outside) :
    Level s (s.call core call).2 := by
  unfold Station.call at h ⊢
  cases ho : s.owners core with
  | none => exact .refl s
  | some o =>
    rw [ho] at h
    have lx := hcall.level_make h he
    have made : Level s { s with host := (call.make ⟨s.host, o⟩).2.host } :=
      ⟨lx.host, (Level.refl s).owners, rfl⟩
    -- an owner that was there is put back for its core alone
    have kept := made.setOwner (.some lx.owner) core
    rw [← ho, Function.update_eq_self] at kept
    exact kept

theorem Fails.level {op : Op} (h : s.Fails op) : Level s (s.step op).2 := by
  obtain ⟨hquiet, e, hrefused, he⟩ := h
  cases op with
  | call core call => exact level_call_refused hquiet hrefused he
  | visit o call =>
    have lx := Call.Quiet.level_make hquiet hrefused he
    exact ⟨lx.host, (Level.refl s).owners, rfl⟩
  | _ => exact hquiet.elim

/-- `kept` is the run `ops` without some of its exchanges that fail, and `come` is what those that
are kept come to. -/
inductive Pruned : Station → List Op → List Op → List Outcome → Prop where
  | nil (s : Station) : Pruned s [] [] []
  | keep {s : Station} {op : Op} {ops kept : List Op} {come : List Outcome} :
    Pruned (s.step op).2 ops kept come → Pruned s (op :: ops) (op :: kept) ((s.step op).1 :: come)
  | fail {s : Station} {op : Op} {ops kept : List Op} {come : List Outcome} :
    s.Fails op → Pruned (s.step op).2 ops kept come → Pruned s (op :: ops) kept come

theorem Pruned.answers_eq {ops kept : List Op} {come : List Outcome} (h : Pruned s ops kept come)
    (l : Level s t) : t.answers kept = come ∧ Level (s.after ops) (t.after kept) := by
  induction h generalizing t with
  | nil s => exact ⟨rfl, l⟩
  | @keep s op ops kept come _ ih =>
    obtain ⟨heq, lstep⟩ := (level_step op).same l
    obtain ⟨hcome, lend⟩ := ih lstep
    exact ⟨congr (congrArg List.cons heq.symm) hcome, lend⟩
  | @fail s op ops kept come hfails _ ih =>
    exact ih (hfails.level.symm.trans l)

/-- **Failed exchanges are atomic.** Over any memory in which a control byte that is stored again
stays as it is, a receive or transmit that is refused in front of the gate, under a policy that
leaves the byte alone, leaves behind no more than what counts it (`Exchange.failed`) and, if it was
a transmit, the emptied transmit buffer. The memory, be it a device or a log of all accesses, is the
same as a whole. A payload that is too large for a mapped core is refused as such whatever stands at
the gate and whatever the policy would do. A run of a station comes to the same without its
exchanges that fail, wherever they are made and whatever is done before, between and after them. -/
theorem failures_atomic :
    (∀ {M σ : Type} [Memory M] [SteadyMemory M] {p : SpinPolicy σ} {x y : Exchange M} {t t' : σ}
      {e : ExchangeError}, p.Quiet → (Stop.refused e).Outside →
      (x.receiveWith p t = (.error (.refused e), t', y) → y = x.failed e) ∧
        ∀ d, x.transmitWith p t d = (.error (.refused e), t', y) → y = (x.failed e).returned) ∧
    (∀ {M σ : Type} [Memory M] (x : Exchange M) (p : SpinPolicy σ) (t : σ) (d : Descriptor),
      x.host.config.layout.payloadCapacity < d.payload.size →
        let e := (x.host.coreError? x.owner.core).getD
          (.payloadTooLarge d.payload.size x.host.config.layout.payloadCapacity)
        x.transmitWith p t d = (.error (.refused e), t, (x.failed e).returned)) ∧
    ∀ {s : Station} {ops kept : List Op} {come : List Outcome}, s.Pruned ops kept come →
      s.answers kept = come ∧ (s.after ops).Level (s.after kept) := by
  refine ⟨?_, ?_, ?_⟩
  · intro M σ _ _ p x y t t' e hp he
    exact ⟨fun h => Exchange.receiveWith_failed hp h he,
      fun d h => Exchange.transmitWith_failed hp h he⟩
  · intro M σ _ x p t d hd
    exact x.transmitWith_tooLarge p t hd
  · intro s ops kept come h
    exact h.answers_eq (.refl s)

/-- A core that is not mapped, a gate that is not ready and a payload that is too large, and what
is done next. -/
theorem failures_atomic_closed : ∃ (s : Station) (come : List Outcome)
    (x : Exchange (Traced Region)) (big : Descriptor),
    s.Opened {} ∧ big.payload.size = ({} : Layout).payloadCapacity + 1 ∧
      let p : SpinPolicy Unit := (SpinLimit.attempts 3).policy
      let o : Owner := .synced 0 {} {}
      let kept : List Op := [.setReady 0 true, .visit o (.receive p ())]
      let fails : List Op := [.visit { o with core := 1 } (.receive p ()), .visit o (.receive p ()),
        .visit o (.transmit p () big)]
      let ops := fails ++ kept
      s.Pruned ops kept come ∧ s.answers kept = come ∧ (s.after ops).Level (s.after kept) ∧
        (x.receiveWith p ()).1 = .error (.refused (.handshakeStuck 0 4)) ∧
        (x.receiveWith p ()).2.2 = x.failed (.handshakeStuck 0 4) ∧
        (x.transmitWith p () big).2.2 = (x.failed
          (.payloadTooLarge big.payload.size ({} : Layout).payloadCapacity)).returned := by
  obtain ⟨b, hb⟩ : ∃ b, b = Bytes.zeros 0x10000 := ⟨_, rfl⟩
  have hsize : b.size = 0x10000 := by rw [hb, Bytes.size_zeros]
  have hregion : ({} : Config).regionSize ≤ b.size := hsize ▸ by decide
  have hworker : ({} : Layout).workerAt 0 < b.size := hsize ▸ by decide
  obtain ⟨host, hopen⟩ : ∃ host, Host.open? (Backing.plain ⟨b⟩) {} = .ok host :=
    Host.exists_open? rfl hregion
  obtain ⟨hmemory, hconfig, -⟩ := Host.of_open? hopen
  let p : SpinPolicy Unit := (SpinLimit.attempts 3).policy
  have hp : p.Quiet := SpinLimit.quiet_policy _
  let o : Owner := .synced 0 {} {}
  obtain ⟨big, hbig⟩ : ∃ big : Descriptor, big.payload.size = ({} : Layout).payloadCapacity + 1 :=
    ⟨⟨.empty {} .bypass, .zeros _⟩, Bytes.size_zeros _⟩
  let s : Station := { host }
  let x : Exchange (Traced Region) := ⟨⟨⟨⟨b⟩, #[]⟩, {}, rfl, #[{}], #[false]⟩, o⟩
  have hshut : (x.host.gateOf 0).isOpen = false := by
    have hbyte : (x.host.gateOf 0).byte = 0 := by
      refine (Region.controlByte_eq _ ⟨b⟩).trans ?_
      rw [hb, Bytes.byteAt_zeros]
    rw [Gate.isOpen, hbyte]
    rfl
  have hin : host.workerAt 0 < Memory.size host.memory := by
    rw [Host.workerAt, hmemory, hconfig]
    exact hworker
  have hshutHost : (host.gateOf 0).isOpen = false := by
    rw [Host.gateOf, Host.workerAt, hmemory, hconfig]
    exact hshut
  -- each fails on whatever stands level with the station at the start
  have hcore {u : Station} (l : s.Level u) (core : Nat) :
      u.host.coreError? core = if core < 1 then none else some (.invalidCore core 1) := by
    rw [← l.host.coreError?, Host.coreError?, hconfig]
  have unmapped {u : Station} (l : s.Level u) :
      u.Fails (.visit { o with core := 1 } (.receive p ())) := by
    refine ⟨.receive () hp, .invalidCore 1 1, ?_, .invalidCore ..⟩
    simp only [step, Call.make, Exchange.receiveWith, hcore l]
    rfl
  have closed {u : Station} (l : s.Level u) : u.Fails (.visit o (.receive p ())) := by
    have hstuck := Exchange.receiveWith_closed (x := ⟨u.host, o⟩)
      (by rwa [Host.workerAt, ← l.host.config, ← l.host.memory]) (hcore l 0)
      ((l.host.gateOf 0).isOpen.symm.trans hshutHost) 3
    exact ⟨.receive () hp, _, congrArg (Outcome.ofCall .received) hstuck, .handshakeStuck ..⟩
  have large {u : Station} (l : s.Level u) : u.Fails (.visit o (.transmit p () big)) := by
    have hconfig' : u.host.config = {} := l.host.config.symm.trans hconfig
    have hlarge := Exchange.transmitWith_tooLarge ⟨u.host, o⟩ p () (d := big) (by
      rw [hconfig', hbig]
      exact Nat.lt_succ_self _)
    have hmapped : u.host.coreError? o.core = none := hcore l 0
    dsimp only at hlarge
    rw [hmapped] at hlarge
    exact ⟨.transmit () big hp, _,
      congrArg (fun r : Except Stop Unit × _ => Outcome.ofCall (fun _ => .done) r.1) hlarge,
      .payloadTooLarge ..⟩
  have h₁ := unmapped (.refl s)
  have h₂ := closed h₁.level
  have h₃ := large (h₁.level.trans h₂.level)
  obtain ⟨hrefused, hlarge, hruns⟩ := failures_atomic
  have hpruned : s.Pruned [.visit { o with core := 1 } (.receive p ()), .visit o (.receive p ()),
      .visit o (.transmit p () big), .setReady 0 true, .visit o (.receive p ())]
      [.setReady 0 true, .visit o (.receive p ())] _ :=
    .fail h₁ (.fail h₂ (.fail h₃ (.keep (.keep (.nil _)))))
  have hstuck := Exchange.receiveWith_closed (x := x) hworker rfl hshut 3
  refine ⟨s, _, x, big, .plain hopen, hbig, hpruned, (hruns hpruned).1, (hruns hpruned).2, hstuck,
    ?_, ?_⟩
  · exact (hrefused hp (.handshakeStuck 0 4)).1 (Prod.ext hstuck rfl)
  · have hover : x.host.config.layout.payloadCapacity < big.payload.size :=
      hbig ▸ Nat.lt_succ_self _
    exact congrArg (fun r : Except Stop Unit × Unit × _ => r.2.2) (hlarge x p () big hover)

end Station
end LineExchange
