import LineExchange.Proofs.Gate.Tries
import LineExchange.Proofs.Nic.Conserved

/-!
# LineExchange.Proofs.Failure.Busy

At a station, a gate that is busy between two operations is held by a guard.

* `SpinPolicy.Mild`: the policies under which this is so; they make no gate busy while they are
  asked.
* `Call.busy_make`: under such a policy a call leaves a gate busy only if it found it busy.
* `Station.Guarded.after`: so a gate that is not busy at the start is busy later only while a guard
  is held.
-/

namespace LineExchange

open ControlByte (isBusy)

namespace SpinPolicy

variable {σ : Type} {p : SpinPolicy σ}

/-- A policy that makes no gate busy while it is asked. -/
def Mild (p : SpinPolicy σ) : Prop :=
  ∀ failed s b, isBusy (p.keepSpinning failed s b).2.2 = true → isBusy b = true

theorem Mild.asked (hp : p.Mild) {b b' : UInt8} (h : p.Asked b b') (hbusy : isBusy b' = true) :
    isBusy b = true := by
  induction h with
  | refl => exact hbusy
  | tail _ hstep ih =>
    obtain ⟨failed, s, rfl⟩ := hstep
    exact ih (hp failed s _ hbusy)

end SpinPolicy

/-- Whether someone is inside the gate of a core. -/
def Host.isBusy {M : Type} [Memory M] (core : Nat) (host : Host M) : Bool :=
  ControlByte.isBusy (host.gateOf core).byte

/-! ## Calls -/

/-- A call that passes the gate leaves it free. One that does not get in has to be looked at. -/
theorem Passes.busy {M σ α : Type} [Memory M] {p : SpinPolicy σ} {core : Nat} {entered : Bool}
    {r : Except Stop α} {h h' : Host M} (hpasses : Passes p core entered r h h')
    (hrefused : entered = false → h'.isBusy core = true → h.isBusy core = true)
    (hbusy : h'.isBusy core = true) : h.isBusy core = true := by
  cases entered with
  | false => exact hrefused rfl hbusy
  | true =>
    have hfree := hpasses.free rfl
    have hat : h'.workerAt core = h.workerAt core := by
      rw [Host.workerAt, hpasses.visits.config, Host.workerAt]
    rw [← hat] at hfree
    exact absurd (hfree.symm.trans hbusy) Bool.false_ne_true

namespace Exchange

variable {M σ α : Type} [Memory M] {x : Exchange M} {p : SpinPolicy σ} {s : σ}

theorem entering_refused {rest : Step M α} (h : (x.enter p s).1.isOk = false) :
    (x.entering p s rest).2.2 = (x.enter p s).2.2 := by
  unfold entering
  generalize x.enter p s = q at h ⊢
  obtain ⟨r, t, y⟩ := q
  cases r with
  | error e => rfl
  | ok v => cases h

variable [LawfulMemory M]

/-- Tries that do not get in leave the gate busy only if they found it busy. -/
theorem busy_enter (hp : p.Mild) (hcore : x.owner.core < x.host.counters.size)
    (hfailed : (x.enter p s).1.isOk = false)
    (hbusy : (x.enter p s).2.2.host.isBusy x.owner.core = true) :
    x.host.isBusy x.owner.core = true := by
  rcases Nat.lt_or_ge (x.host.workerAt x.owner.core) (Memory.size x.host.memory) with hin | hout
  · obtain ⟨hr, -, hgate⟩ := enter_gateOf p s hcore hin
    have spun := Gate.spun_enter (p := p) (x.host.gateOf x.owner.core) s
    rw [Host.isBusy, hgate] at hbusy
    rw [hr] at hfailed
    generalize (x.host.gateOf x.owner.core).enter p s = q at spun hfailed hbusy
    obtain ⟨r, t, g⟩ := q
    dsimp only at spun hfailed hbusy
    cases spun with
    | entered spins hb hopen => cases hfailed
    | stuck attempts hb => exact hp.asked hb hbusy
    | endless hb => exact hp.asked hb hbusy
  · obtain ⟨f, hf⟩ := enter_outside (x := x) (p := p) (s := s) hout
    rw [hf] at hbusy
    exact hbusy

section Calls

variable (hcounters : x.host.counters.size = x.host.config.numCores) (hp : p.Mild)
include hcounters hp

theorem busy_receiveWith (hbusy : (x.receiveWith p s).2.2.host.isBusy x.owner.core = true) :
    x.host.isBusy x.owner.core = true := by
  refine (passes_receive hcounters).1.busy (fun hentered hbusy => ?_) hbusy
  unfold receiveWith at hbusy
  unfold entersGate at hentered
  cases hcore : x.host.coreError? x.owner.core with
  | some e =>
    rw [hcore] at hbusy
    exact hbusy
  | none =>
    rw [hcore] at hbusy hentered
    rw [entering_refused hentered] at hbusy
    exact busy_enter hp (hcounters.symm ▸ Host.lt_of_coreError? hcore) hentered hbusy

theorem busy_transmitWith {d : Descriptor}
    (hbusy : (x.transmitWith p s d).2.2.host.isBusy x.owner.core = true) :
    x.host.isBusy x.owner.core = true := by
  refine (passes_transmit hcounters d).busy (fun hentered hbusy => ?_) hbusy
  rw [transmitWith_eq.2] at hbusy
  unfold transmitStaged at hbusy
  unfold entersGate at hentered
  cases hcore : x.host.coreError? x.owner.core with
  | some e =>
    rw [hcore] at hbusy
    exact hbusy
  | none =>
    rw [hcore] at hbusy hentered
    dsimp only at hbusy
    split at hbusy
    · exact hbusy
    · next hfits =>
      rw [decide_eq_true (Nat.not_lt.1 hfits)] at hentered
      rw [entering_refused hentered] at hbusy
      exact busy_enter hp (hcounters.symm ▸ Host.lt_of_coreError? hcore) hentered hbusy

end Calls

theorem Drains.busy {p : SpinPolicy Unit} (hp : p.Mild) {fuel drained : Nat} {x y : Exchange M}
    {rs : List (Except Stop (Option Received))} {r : Except Stop Nat}
    (h : Drains p fuel drained x rs r y)
    (hcounters : x.host.counters.size = x.host.config.numCores)
    (hbusy : y.host.isBusy x.owner.core = true) : x.host.isBusy x.owner.core = true := by
  have one {x y : Exchange M} {r : Except Stop (Option Received)}
      (hcounters : x.host.counters.size = x.host.config.numCores) (h : Ends (receive p) x r y)
      (hbusy : y.host.isBusy x.owner.core = true) : x.host.isBusy x.owner.core = true := by
    obtain ⟨-, rfl⟩ := ends_receive h
    exact busy_receiveWith hcounters hp hbusy
  induction h with
  | out drained x => exact hbusy
  | failed h => exact one hcounters h hbusy
  | empty h => exact one hcounters h hbusy
  | @received fuel drained x y z packet rs r h _ ih =>
    obtain ⟨-, rfl⟩ := ends_receive h
    have hstays := stays_receiveWith (p := p) (s := ()) x
    have hsize := (passes_receive (p := p) (s := ()) hcounters).1.visits.counters_size
    refine one hcounters h ?_
    rw [hstays.core] at ih
    exact ih (by rw [hsize, hcounters, hstays.host.config]) hbusy

theorem BringsUp.busy {p : SpinPolicy Unit} (hp : p.Mild) {fuel : Nat} {x y : Exchange Backing}
    {rs : List (Except Stop (Option Received))} {r : Except Stop Nat}
    (h : BringsUp p fuel x rs r y) (hcounters : x.host.counters.size = x.host.config.numCores)
    (hbusy : y.host.isBusy x.owner.core = true) : x.host.isBusy x.owner.core = true := by
  cases h with
  | unmapped => exact hbusy
  | failed h => cases (ends_invalidateLines_backing h).1
  | drained h hdrain =>
    obtain ⟨-, rfl⟩ := ends_invalidateLines_backing h
    exact hdrain.busy hp hcounters hbusy

end Exchange

/-- Whether the policy of a call, if it has one, is mild. -/
def Call.Mild : Call → Prop
  | receive p _ => p.Mild
  | transmit p _ _ => p.Mild
  | bringUp p _ => p.Mild
  | _ => True

/-- A call leaves the gate busy only if it found it busy. -/
theorem Call.busy_make {x : Exchange Backing}
    (hcounters : x.host.counters.size = x.host.config.numCores) {call : Call} (hcall : call.Mild)
    (hbusy : (call.make x).2.host.isBusy x.owner.core = true) :
    x.host.isBusy x.owner.core = true := by
  cases call with
  | receive p t => exact Exchange.busy_receiveWith hcounters hcall hbusy
  | transmit p t d => exact Exchange.busy_transmitWith hcounters hcall hbusy
  | prepare kind =>
    rw [make_prepare] at hbusy
    exact hbusy
  | resync next =>
    rw [make_resync] at hbusy
    obtain ⟨-, hrun⟩ | ⟨e, -, hrun⟩ := Exchange.run_resync next x
    · rw [hrun] at hbusy
      exact hbusy
    · rw [hrun] at hbusy
      exact hbusy
  | bringUp p fuel => exact (Exchange.bringsUp p fuel x).busy hcall hcounters hbusy

/-- An operation is mild if it is no call or a mild one. -/
def Op.Mild : Op → Prop
  | call _ c => c.Mild
  | visit _ c => c.Mild
  | _ => True

/-! ## Memories and devices -/

variable {α : Type} {c : Config} {core : Nat}

theorem Backing.Serves.worker_lt {b : Backing} (h : b.Serves c) (hcore : core < c.numCores) :
    c.layout.workerAt core < Memory.size b := by
  cases b with
  | plain r => exact Layout.lt_of_line_le (h core hcore .worker)
  | device d => exact Nic.Sound.worker_lt h core hcore

/-- What shares the window of a core shares its control byte. -/
theorem Host.Alike.isBusy {h h' : Host Backing} (ht : h.Tidy c) (ht' : h'.Tidy c)
    (ha : h.Alike c core h') : h.isBusy core = h'.isBusy core := by
  have hl : c.layout.Ordered := ht.config ▸ h.ordered
  obtain ⟨hload, -⟩ := (Backing.local_load hl).own _ _ ht.memory ht'.memory ha.memory
  have hbyte : Memory.controlByte (c.layout.workerAt core) h.memory =
      Memory.controlByte (c.layout.workerAt core) h'.memory := by
    unfold Memory.controlByte Access.run
    rw [hload]
  rw [Host.isBusy, gateOf, workerAt, ht.config, hbyte, Host.isBusy, gateOf, workerAt, ht'.config]

namespace Nic

/-- A device with room for the control byte of a core, which is busy or not as `b` says. -/
structure Shows (c : Config) (core : Nat) (b : Bool) (d : Nic Region) : Prop where
  layout : d.layout = c.layout
  lt : c.layout.workerAt core < d.memory.size
  busy : ControlByte.isBusy (d.memory.bytes.byteAt (c.layout.workerAt core)) = b

variable {b : Bool}

theorem keeps_shows_modifyCore (k : Nat) (f : NicCore → NicCore) :
    Keeps (Shows c core b) (modifyCore k f : Access (Nic Region) Unit) :=
  .modify fun _ h => ⟨h.layout, h.lt, h.busy⟩

theorem keeps_shows_coreState (k : Nat) :
    Keeps (Shows c core b) (coreState k : Access (Nic Region) NicCore) := by
  refine .get_bind fun d _ => ?_
  split
  · exact .pure _
  · exact .throw _

theorem keeps_shows_inject (k : Nat) (t : Transaction) (payload : Bytes) :
    Keeps (Shows c core b)
      (inject k t payload : Access (Nic Region) (Except EncodeError Unit)) := by
  refine .get_bind fun d _ => ?_
  split
  · exact .pure _
  · exact ((keeps_shows_coreState k).bind fun _ => keeps_shows_modifyCore k _).bind fun _ => .pure _

/-- The device changes its own bit only. -/
theorem keeps_shows_setReady (v : Bool) :
    Keeps (Shows c core b) (setReady core v : Access (Nic Region) Unit) := by
  refine ⟨fun {d r d'} h hd => ?_⟩
  have hin : d.layout.workerAt core < d.memory.size := hd.layout.symm ▸ hd.lt
  obtain ⟨-, rfl⟩ := h.unique (.bind (.get d) (.bind (ends_onMemory (Region.ends_loadControl hin))
    (ends_onMemory (Region.ends_storeControl _ hin))))
  refine ⟨hd.layout, hd.lt.trans_eq (Bytes.size_put ..).symm, ?_⟩
  show ControlByte.isBusy ((d.memory.bytes.put (d.layout.workerAt core) _).byteAt _) = b
  rw [hd.layout, Bytes.byteAt_put, if_pos ⟨rfl, hd.lt⟩, ControlByte.isBusy_setReady]
  exact hd.busy

end Nic

namespace Station

variable {s t : Station}

/-! ## Stations -/

theorem Serving.coreError?_eq (h : s.Serving c) (hcore : core < c.numCores) :
    s.host.coreError? core = none := by
  rw [Host.coreError?, h.tidy.host.config, if_pos hcore]

theorem Serving.workerAt_lt (h : s.Serving c) (hcore : core < c.numCores) :
    s.host.workerAt core < Memory.size s.host.memory := by
  rw [Host.workerAt, h.tidy.host.config]
  exact h.memory.worker_lt hcore

/-- A step on the gate of a core that is mapped. -/
theorem Serving.onGate (h : s.Serving c) (hcore : core < c.numCores) (say : α → Outcome)
    (f : Gate → α × Gate) : s.onGate core say f = (say (f (s.host.gateOf core)).1,
      { s with host := s.host.withGate core (f (s.host.gateOf core)).2 }) := by
  unfold Station.onGate onHost Access.run
  rw [h.coreError?_eq hcore, Host.ends_onGate f (h.workerAt_lt hcore)]
  rfl

theorem Serving.gateOf_withGate (h : s.Serving c) (hcore : core < c.numCores) (g : Gate) :
    (s.host.withGate core g).gateOf core = g :=
  Host.gateOf_withGate g (h.counters.symm ▸ hcore) (h.workerAt_lt hcore)

theorem Serving.isBusy_onDevice (h : s.Serving c) (hcore : core < c.numCores) (say : α → Outcome)
    {a : Access (Nic Region) α} (ha : ∀ b, Keeps (Nic.Shows c core b) a) :
    (s.onDevice say a).2.host.isBusy core = s.host.isBusy core := by
  obtain rfl := h.tidy.host.config
  unfold onDevice onHost Access.run
  rw [Host.ends_onMemory (.intro _ s.host.memory)]
  show ControlByte.isBusy (Memory.controlByte (s.host.workerAt core) _) =
    ControlByte.isBusy (Memory.controlByte (s.host.workerAt core) _)
  cases hmem : s.host.memory with
  | plain r => rfl
  | device d =>
    have hend := Ends.intro ((some ∘ say) <$> a) d
    have hlt := h.memory.worker_lt hcore
    have htidy := h.tidy.host.memory
    rw [hmem] at hlt htidy
    have hshows := ((ha _).map (g := some ∘ say)).out hend ⟨htidy.layout, hlt, rfl⟩
    generalize (ExceptT.run ((some ∘ say) <$> a)).run d = q at hend hshows
    have haccess : (ExceptT.run (Backing.access (pure none) ((some ∘ say) <$> a))).run
        (Backing.device d) = _ := Backing.ends_access_device hend
    rw [haccess]
    have hbyte (d : Nic Region) (offset : Nat) : Memory.controlByte offset (Backing.device d) =
        d.memory.bytes.byteAt offset := Nic.controlByte_eq offset d
    rw [hbyte, hbyte]
    exact hshows.busy

theorem Serving.gateOf_setReady (h : s.Serving c) (hcore : core < c.numCores) (v : Bool) :
    (s.step (.setReady core v)).2.host.gateOf core = (s.host.gateOf core).setReady v := by
  have hstep : (s.step (.setReady core v)).2 =
      { s with host := s.host.withGate core ((s.host.gateOf core).setReady v) } :=
    congrArg Prod.snd (h.onGate hcore _ _)
  rw [hstep]
  exact h.gateOf_withGate hcore _

/-- A gate that is busy is held by a guard. -/
def Guarded (s : Station) (core : Nat) : Prop := s.host.isBusy core = true → s.guards core ≠ 0

theorem Guarded.of_same (h : s.Guarded core)
    (hbusy : t.host.isBusy core = true → s.host.isBusy core = true)
    (hguards : t.guards core = s.guards core) : t.Guarded core := by
  intro hb
  rw [hguards]
  exact h (hbusy hb)

theorem Guarded.hold (hs : s.Serving c) (hcore : core < c.numCores) (h : s.Guarded core) :
    (s.hold core).2.Guarded core := by
  rw [hold_eq, hs.onGate hcore]
  unfold attempt
  cases htry : (s.host.gateOf core).tryEnter with
  | some inside =>
    intro _
    show Function.update s.guards core (s.guards core + 1) core ≠ 0
    rw [Function.update_self]
    exact Nat.succ_ne_zero _
  | none =>
    refine h.of_same (fun hb => ?_) rfl
    change ControlByte.isBusy
      ((s.host.withGate core (s.host.gateOf core)).gateOf core).byte = _ at hb
    rwa [hs.gateOf_withGate hcore] at hb

theorem leave_none (h : s.guards core = 0) : (s.leave core).2 = s := by
  unfold leave
  rw [if_pos h]

/-- Dropping a guard frees a gate that was busy. -/
theorem Guarded.free_leave (hs : s.Serving c) (hcore : core < c.numCores) (h : s.Guarded core) :
    (s.leave core).2.host.isBusy core = false := by
  by_cases hheld : s.guards core = 0
  · rw [leave_none hheld]
    exact Bool.eq_false_iff.2 fun hb => h hb hheld
  · have hserving : Serving c
        { s with guards := Function.update s.guards core (s.guards core - 1) } :=
      ⟨⟨hs.tidy.host, hs.tidy.owner⟩, hs.memory, hs.counters, hs.mapped⟩
    unfold Station.leave
    rw [if_neg hheld, hserving.onGate hcore]
    show ControlByte.isBusy
      ((s.host.withGate core (s.host.gateOf core).leave).gateOf core).byte = false
    rw [hs.gateOf_withGate hcore]
    exact ControlByte.isBusy_setBusy ..

theorem guards_onGate (say : α → Outcome) (f : Gate → α × Gate) :
    (s.onGate core say f).2.guards = s.guards := by
  unfold Station.onGate
  split <;> rfl

/-- Mild operations do not make a gate busy without a guard. -/
theorem Guarded.own (hs : s.Serving c) {op : Op} (hcore : op.core < c.numCores) (hop : op.Mild)
    (h : s.Guarded op.core) : (s.step op).2.Guarded op.core := by
  have hcounters : s.host.counters.size = s.host.config.numCores := by
    rw [hs.counters, hs.tidy.host.config]
  have device {β : Type} {say : β → Outcome} {a : Access (Nic Region) β}
      (ha : ∀ b, Keeps (Nic.Shows c op.core b) a) : (s.onDevice say a).2.Guarded op.core :=
    h.of_same (fun hb => (hs.isBusy_onDevice hcore say ha).symm.trans hb) rfl
  cases op with
  | claim core next =>
    have hguards : (s.claim core next).2.guards = s.guards := by
      rw [claim_eq]
      unfold settle
      split <;> rfl
    refine h.of_same (fun hb => ?_) (congrFun hguards core)
    rcases host_claim s core next with hhost | hhost
    · exact hhost ▸ hb
    · rw [show (s.step (.claim core next)).2.host = _ from hhost] at hb
      exact hb
  | drop core =>
    have hguards : (s.drop core).2.guards = s.guards := by
      unfold Station.drop
      split <;> rfl
    refine h.of_same (fun hb => ?_) (congrFun hguards core)
    rcases host_drop core hs.tidy with hhost | hhost
    · exact hhost ▸ hb
    · rw [show (s.step (.drop core)).2.host = _ from hhost] at hb
      exact hb
  | call core call =>
    cases ho : s.owners core with
    | none =>
      have hstep : (s.step (.call core call)).2 = s := by
        show (s.call core call).2 = s
        unfold Station.call
        rw [ho]
      rwa [hstep]
    | some o =>
      rw [step_call ho call]
      refine h.of_same (fun hb => ?_) rfl
      have howner : o.core = core := hs.tidy.owner core o ho
      subst howner
      exact Call.busy_make (x := ⟨s.host, o⟩) hcounters hop hb
  | visit o call => exact h.of_same (Call.busy_make (x := ⟨s.host, o⟩) hcounters hop) rfl
  | setReady core v =>
    have hgate : (s.step (.setReady core v)).2.host.gateOf core = _ := hs.gateOf_setReady hcore v
    refine h.of_same (fun hb : Host.isBusy core _ = true => ?_) (congrFun (guards_onGate _ _) core)
    rw [Host.isBusy, hgate] at hb
    exact (ControlByte.isBusy_setReady ..).symm.trans hb
  | hold core => exact h.hold hs hcore
  | leave core =>
    exact fun hb => absurd ((h.free_leave hs hcore).symm.trans hb) Bool.false_ne_true
  | grant core v => exact device fun _ => Nic.keeps_shows_setReady v
  | inject core t payload => exact device fun _ => Nic.keeps_shows_inject core t payload
  | setLoopback core v =>
    exact device fun _ => (Nic.keeps_shows_coreState core).bind fun _ =>
      Nic.keeps_shows_modifyCore core _
  | takeSent core =>
    exact device fun _ => (Nic.keeps_shows_coreState core).bind fun _ =>
      (Nic.keeps_shows_modifyCore core _).bind fun _ => .pure _

theorem Guarded.step (hl : c.layout.Ordered) (hs : s.Serving c) (hcore : core < c.numCores)
    (h : s.Guarded core) {op : Op} (hop : op.Mild) : (s.step op).2.Guarded core := by
  by_cases hself : op.core = core
  · subst hself
    exact h.own hs hcore hop
  · have halike := (confined_step hl op).rest s hs.tidy core (Ne.symm hself)
    refine h.of_same (fun hb => ?_) halike.guards.symm
    rwa [halike.host.isBusy hs.tidy.host (hs.step hl op).tidy.host]

theorem Guarded.after (hl : c.layout.Ordered) (hs : s.Serving c) (hcore : core < c.numCores)
    (h : s.Guarded core) {ops : List Op} (hops : ∀ op ∈ ops, op.Mild) :
    (s.after ops).Guarded core := by
  induction ops generalizing s with
  | nil => exact h
  | cons op ops ih =>
    exact ih (hs.step hl op) (h.step hl hs hcore (hops op (.head ops)))
      fun op' hop' => hops op' (.tail op hop')

end Station
end LineExchange
