import LineExchange.Proofs.Exchange.Mirrors
import LineExchange.Proofs.Exchange.Visits
import LineExchange.Proofs.Link.Refines

/-!
# LineExchange.Proofs.Link.Station

A station on a device does what it is told as the ideal machine does.

* `Station.Tracks`: between operations, the device of the station behaves as the ports.
* `Station.tracks_open`, `Station.Tracks.claim`: so it does at the start, and after a core was
  claimed. `Station.claim_new`: both, on a new device.
* `Station.tracks_step`, `Station.tracks_after`: an operation that is a command keeps it and comes
  to what the ports answer, and so do the operations of a run.
* `Station.visits_of_received`, `Station.visits_of_stuck`: whether a receive entered, told from its
  outcome.
-/

namespace LineExchange

/-- The operation of a station that a command is, if it is one. -/
def Command.op? : Command → Option Op
  | setReady core v => some (.grant core v)
  | setLoopback core v => some (.setLoopback core v)
  | inject core t payload => some (.inject core t payload)
  | receive core attempts => some (.call core (.receive (SpinLimit.attempts attempts).policy ()))
  | transmit core attempts d =>
    some (.call core (.transmit (SpinLimit.attempts attempts).policy () d))
  | takeSent core => some (.takeSent core)
  | pending _ => none

/-- The command is the operation, and both are about the core. -/
def Command.Means (core : Nat) (cmd : Command) (op : Op) : Prop :=
  cmd.core = core ∧ cmd.op? = some op

theorem Command.core_of_op? {cmd : Command} {op : Op} (h : cmd.op? = some op) :
    op.core = cmd.core := by
  cases cmd <;> cases h <;> rfl

/-- The ports after some commands. -/
def Ports.after (c : Config) (a : Ports) (cmds : List Command) : Ports :=
  cmds.foldl (fun a cmd => (a.step c cmd).2) a

/-- What an operation comes to that is answered so. -/
def Answer.outcome : Answer → Outcome
  | done => .done
  | injected (.ok ()) => .done
  | injected (.error e) => .unencodable e
  | received (.ok r) => .received r
  | received (.error e) => .refused e
  | transmitted (.ok ()) => .done
  | transmitted (.error e) => .refused e
  | sent ps => .packets ps
  | count _ => .absent
  | fault f => .fault f
  | endless => .endless

/-- Only a receive that has a result is answered by it. -/
theorem Outcome.ok_of_received {r : Except Stop (Option Received)} {v : Option Received}
    (h : Outcome.ofCall .received r = .received v) : r = .ok v := by
  rcases r with (_ | _ | _) | _ <;> cases h
  rfl

/-- The host on the device that is in front of its region. -/
def Host.onDevice (d : Nic Region) (host : Host Backing) : Host (Nic Region) where
  memory := d
  config := host.config
  config_ok := host.config_ok
  counters := host.counters
  claimed := host.claimed

theorem Host.through_onDevice {host : Host Backing} {d : Nic Region} (h : host.memory = .device d) :
    (host.onDevice d).through Backing.device = host := by
  cases host
  cases h
  rfl

namespace Station

variable {α : Type} {c : Config} {s : Station} {a : Ports}

/-- Between operations, the device of the station behaves as the ports, and the owners' buffers
have their size. -/
structure Tracks (c : Config) (s : Station) (a : Ports) : Prop where
  config : s.host.config = c
  device : ∃ d, s.host.memory = .device d ∧ Nic.Tracks c d a
  owners : ∀ core o, s.owners core = some o →
    o.core = core ∧ core < c.numCores ∧ o.rxBuffer.size = c.rxBufferSize

/-- A new device behaves as empty ports. -/
theorem tracks_open {size r : Nat} {d : Nic Region} {host : Host Backing}
    (hr : c.layout.regionSize c.numCores = some r) (hsize : r ≤ size)
    (hstart : Nic.start (Region.zeros size) c = .ok (.ok d))
    (hopen : Host.open? (.device d) c = .ok host) : Tracks c { host } fun _ => {} := by
  obtain ⟨hmemory, hconfig, -⟩ := Host.of_open? hopen
  obtain ⟨d', hstart', hd⟩ :=
    Nic.exists_start (hconfig ▸ host.config_ok) (Nic.of_start hstart).2 hr hsize
  cases hstart.symm.trans hstart'
  exact ⟨hconfig, ⟨d, hmemory, hd⟩, nofun⟩

/-- Whoever claims a core that is free owns it, and nothing else changes. -/
theorem claim_free {core : Nat} (next : Parity) (hcore : s.host.coreError? core = none)
    (hfree : s.host.isClaimed core = false)
    (hroom : s.host.config.rxBufferSize < storageLimit ∧
      s.host.config.txBufferSize < storageLimit) :
    s.step (.claim core next) = (.done, { s with
      host := s.host.setClaimed core true
      owners := Function.update s.owners core (some (.synced core s.host.config next)) }) := by
  have hclaim : Ends (Host.claim core next) s.host (.ok (.ok (.synced core s.host.config next)))
      (s.host.setClaimed core true) := by
    refine .bind (.get s.host) ?_
    rw [hcore]
    dsimp only
    rw [hfree, if_neg Bool.false_ne_true, Access.require, if_pos (decide_eq_true hroom)]
    exact .bind (.pure _ _) (.bind (.set _ _) (.pure _ _))
  show s.claim core next = _
  unfold Station.claim
  rw [Access.run, hclaim]

theorem Tracks.claim (h : s.Tracks c a) {core : Nat} (next : Parity) (hcore : core < c.numCores) :
    Tracks c { s with
      host := s.host.setClaimed core true
      owners := Function.update s.owners core (some (.synced core s.host.config next)) } a := by
  refine ⟨h.config, h.device, fun k o ho => ?_⟩
  by_cases hk : k = core
  · subst hk
    cases (Function.update_self (f := s.owners) ..).symm.trans ho
    exact ⟨rfl, hcore, (Bytes.size_zeros _).trans (congrArg Config.rxBufferSize h.config)⟩
  · exact h.owners k o ((Function.update_of_ne hk ..).symm.trans ho)

/-- Each core of a new host is to be had. -/
theorem claim_first {memory : Backing} {host : Host Backing}
    (hopen : Host.open? memory c = .ok host)
    (hroom : c.rxBufferSize < storageLimit ∧ c.txBufferSize < storageLimit) {core : Nat}
    (hcore : core < c.numCores) (next : Parity) :
    Station.step { host } (.claim core next) = (.done, {
      host := host.setClaimed core true
      owners := Function.update (fun _ => none) core (some (.synced core c next)) }) := by
  obtain ⟨-, rfl, -, hclaimed, -⟩ := Host.of_open? hopen
  have hnone : host.coreError? core = none := by rw [Host.coreError?, if_pos hcore]
  have hfree : host.isClaimed core = false := by
    simp [Host.isClaimed, hclaimed, Array.getD_eq_getD_getElem?, hcore]
  exact claim_free next hnone hfree hroom

/-- So is each core in front of a new device, which behaves as empty ports. -/
theorem claim_new {r : Nat} {d : Nic Region} {host : Host Backing}
    (hr : c.layout.regionSize c.numCores = some r)
    (hstart : Nic.start (Region.zeros r) c = .ok (.ok d))
    (hopen : Host.open? (.device d) c = .ok host)
    (hroom : c.rxBufferSize < storageLimit ∧ c.txBufferSize < storageLimit) (core : Nat)
    (hcore : core < c.numCores) (next : Parity) : ∃ s,
      Station.step { host } (.claim core next) = (.done, s) ∧
        s.owners core = some (.synced core c next) ∧ s.Tracks c (fun _ => {}) ∧
        s.host.counters = .replicate c.numCores {} := by
  obtain ⟨-, rfl, hcounters, -⟩ := Host.of_open? hopen
  exact ⟨_, claim_first hopen hroom hcore next, by simp,
    (tracks_open hr (Nat.le_refl r) hstart hopen).claim next hcore, hcounters⟩

/-- What the device does for a core, it does at the station. -/
theorem Tracks.onDevice (h : s.Tracks c a) {a' : Ports} {b : Access (Nic Region) α} {v : α}
    (hb : ∀ d, Nic.Tracks c d a → ∃ d', Ends b d (.ok v) d' ∧ Nic.Tracks c d' a')
    (say : α → Outcome) :
    (s.onDevice say b).1 = say v ∧ (s.onDevice say b).2.Tracks c a' ∧
      (s.onDevice say b).2.owners = s.owners := by
  obtain ⟨d, hmem, hd⟩ := h.device
  obtain ⟨d', hend, hd'⟩ := hb d hd
  have hsaid : Ends (Backing.access (pure none) ((some ∘ say) <$> b)) (.device d)
      (.ok (some (say v))) (.device d') := Backing.ends_access_device hend.map
  rw [← hmem] at hsaid
  have hhost := Host.ends_onMemory hsaid
  unfold Station.onDevice Station.onHost
  rw [Access.run, hhost]
  exact ⟨rfl, ⟨h.config, ⟨d', rfl, hd'⟩, h.owners⟩, rfl⟩

/-- A call on the device that makes other ports of it does so at the station. -/
theorem Tracks.make (h : s.Tracks c a) {o : Owner} (hcore : o.core < c.numCores)
    (hbuffer : o.rxBuffer.size = c.rxBufferSize) {call : Call} {r : Outcome} {a' : Ports}
    (hcall : ∀ x : Exchange (Nic Region), x.owner = o → Exchange.Tracks c x a →
      ∃ y, call.make x = (r, y) ∧ y.owner.core = x.owner.core ∧ Exchange.Tracks c y a') :
    ∃ y, call.make ⟨s.host, o⟩ = (r, y) ∧ y.host.config = c ∧
      (∃ d, y.host.memory = .device d ∧ Nic.Tracks c d a') ∧ y.owner.core = o.core ∧
      y.owner.rxBuffer.size = c.rxBufferSize := by
  obtain ⟨d, hmem, hd⟩ := h.device
  obtain ⟨y, hmake, hsame, hy⟩ :=
    hcall ⟨s.host.onDevice d, o⟩ rfl ⟨h.config, hcore, hbuffer, hd⟩
  have hthrough := call.make_through Backing.mirrored_device ⟨s.host.onDevice d, o⟩
  have hx : Exchange.through Backing.device ⟨s.host.onDevice d, o⟩ = ⟨s.host, o⟩ :=
    congrArg (Exchange.mk · o) (Host.through_onDevice hmem)
  rw [hmake, hx] at hthrough
  exact ⟨_, hthrough, hy.config, ⟨_, rfl, hy.device⟩, hsame, hy.buffer⟩

theorem step_call_eq {core : Nat} {o : Owner} (ho : s.owners core = some o) (call : Call) :
    s.step (.call core call) = ((call.make ⟨s.host, o⟩).1, { s with
      host := (call.make ⟨s.host, o⟩).2.host
      owners := Function.update s.owners core (some (call.make ⟨s.host, o⟩).2.owner) }) := by
  show s.call core call = _
  unfold Station.call
  rw [ho]

theorem step_inject (s : Station) (core : Nat) (t : Transaction) (payload : Bytes) :
    s.step (.inject core t payload) =
      s.onDevice (fun r => (Answer.injected r).outcome) (Nic.inject core t payload) := by
  refine congrArg (fun say => s.onDevice say (Nic.inject core t payload)) (funext fun r => ?_)
  cases r <;> rfl

theorem step_drop_eq {core : Nat} {o : Owner} (ho : s.owners core = some o) :
    s.step (.drop core) = (.done, { s with
      host := s.host.release o.core
      owners := Function.update s.owners core none }) := by
  show s.drop core = _
  unfold drop
  rw [ho]

/-- A poll of an owner passes the gate of its core once or never gets there. -/
theorem passes_step_receive {σ : Type} {p : SpinPolicy σ} {t : σ} {core : Nat}
    {o : Owner} (hsize : s.host.counters.size = s.host.config.numCores)
    (ho : s.owners core = some o) (hcore : o.core = core) :
    ∃ entered r, (s.step (.call core (.receive p t))).1 = .ofCall .received r ∧
      Passes p core entered r s.host (s.step (.call core (.receive p t))).2.host := by
  have hp := (Exchange.passes_receive (x := ⟨s.host, o⟩) (p := p) (s := t) hsize).1
  rw [step_call_eq ho]
  exact ⟨_, _, rfl, hcore ▸ hp⟩

/-- Whoever is told what there is has passed the gate. -/
theorem visits_of_received {σ : Type} {p : SpinPolicy σ} {t : σ} {core : Nat}
    {o : Owner} {v : Option Received} (hsize : s.host.counters.size = s.host.config.numCores)
    (ho : s.owners core = some o) (hcore : o.core = core)
    (hpoll : (s.step (.call core (.receive p t))).1 = .received v) :
    Visits p core 1 s.host (s.step (.call core (.receive p t))).2.host := by
  obtain ⟨entered, r, hr, hp⟩ := passes_step_receive (p := p) (t := t) hsize ho hcore
  obtain rfl := Outcome.ok_of_received (hr.symm.trans hpoll)
  obtain rfl := hp.entered_of_ok
  exact hp.visits

/-- Whoever gives up at the gate has not. -/
theorem visits_of_stuck {σ : Type} {p : SpinPolicy σ} {t : σ} {core : Nat}
    {o : Owner} {k attempts : Nat} (hsize : s.host.counters.size = s.host.config.numCores)
    (ho : s.owners core = some o) (hcore : o.core = core)
    (hpoll : (s.step (.call core (.receive p t))).1 = .refused (.handshakeStuck k attempts)) :
    Visits p core 0 s.host (s.step (.call core (.receive p t))).2.host := by
  obtain ⟨entered, r, hr, hp⟩ := passes_step_receive (p := p) (t := t) hsize ho hcore
  rw [hpoll] at hr
  rcases r with (_ | _ | _) | v
  case error.refused =>
    cases hr
    obtain rfl := hp.not_entered_of_stuck
    exact hp.visits
  all_goals cases hr

/-- A call of an owner at the station. -/
theorem Tracks.call (h : s.Tracks c a) {core : Nat} {o : Owner} (ho : s.owners core = some o)
    {call : Call} {r : Outcome} {a' : Ports}
    (hcall : ∀ x : Exchange (Nic Region), x.owner = o → Exchange.Tracks c x a →
      ∃ y, call.make x = (r, y) ∧ y.owner.core = x.owner.core ∧ Exchange.Tracks c y a') :
    (s.step (.call core call)).1 = r ∧ (s.step (.call core call)).2.Tracks c a' ∧
      ∀ k, ((s.step (.call core call)).2.owners k).isSome = (s.owners k).isSome := by
  obtain ⟨rfl, hcore, hbuffer⟩ := h.owners core o ho
  obtain ⟨y, hmake, hconfig, hdevice, hsame, hsize⟩ := h.make hcore hbuffer hcall
  rw [step_call_eq ho, hmake]
  refine ⟨rfl, ⟨hconfig, hdevice, fun k o' ho' => ?_⟩, fun k => ?_⟩
  · by_cases hk : k = o.core
    · subst hk
      cases (Function.update_self (f := s.owners) ..).symm.trans ho'
      exact ⟨hsame, hcore, hsize⟩
    · exact h.owners k o' ((Function.update_of_ne hk ..).symm.trans ho')
  · by_cases hk : k = o.core
    · subst hk
      simp [ho]
    · simp [Function.update_of_ne hk]

theorem outcome_received (r : Except Stop (Option Received)) :
    (Link.answerOf .received r).outcome = .ofCall .received r := by
  rcases r with (_ | _ | _) | _ <;> rfl

theorem outcome_transmitted (r : Except Stop Unit) :
    (Link.answerOf .transmitted r).outcome = .ofCall (fun _ => .done) r := by
  rcases r with (_ | _ | _) | _ <;> rfl

/-- What a receive comes to at the station, and what it leaves of the ports. -/
theorem tracks_make_receive {core : Nat} (attempts : Nat) {x : Exchange (Nic Region)}
    (hcore : x.owner.core = core) (hx : Exchange.Tracks c x a) :
    ∃ y, (Call.receive (SpinLimit.attempts attempts).policy ()).make x =
        ((a.step c (.receive core attempts)).1.outcome, y) ∧
      y.owner.core = x.owner.core ∧ Exchange.Tracks c y (a.step c (.receive core attempts)).2 := by
  obtain ⟨r, y, a', hcall, hstep, hsame, hy⟩ := Exchange.tracks_receive hx attempts
  rw [hcore] at hstep
  rw [hstep, outcome_received]
  exact ⟨y, by rw [Call.make, hcall], hsame, hy⟩

/-- **At a station on a device**, an operation that is a command comes to what the ports answer,
and keeps the device behaving as the ports. -/
theorem tracks_step (h : s.Tracks c a) (cmd : Command) {op : Op} (hop : cmd.op? = some op)
    (hcore : cmd.core < c.numCores) (howner : (s.owners cmd.core).isSome) :
    (s.step op).1 = (a.step c cmd).1.outcome ∧ (s.step op).2.Tracks c (a.step c cmd).2 ∧
      ∀ k, ((s.step op).2.owners k).isSome = (s.owners k).isSome := by
  have hl : c.layout.Ordered := h.config ▸ s.host.ordered
  have ha : c.format.Accepted := h.config ▸ Config.accepted_of_check s.host.config_ok
  obtain ⟨o, ho⟩ := Option.isSome_iff_exists.1 howner
  obtain ⟨howned, -, -⟩ := h.owners _ o ho
  have same {t : Station} (ht : t.owners = s.owners) :
      ∀ k, (t.owners k).isSome = (s.owners k).isSome := fun k => by rw [ht]
  cases cmd with
  | pending core => cases hop
  | setReady core v =>
    cases hop
    obtain ⟨hr, hs, ht⟩ := h.onDevice (fun d hd => Nic.tracks_setReady hd hl hcore v) fun _ => .done
    exact ⟨hr, hs, same ht⟩
  | setLoopback core v =>
    cases hop
    obtain ⟨hr, hs, ht⟩ := h.onDevice (fun d hd => Nic.tracks_setLoopback hd hcore v) fun _ => .done
    exact ⟨hr, hs, same ht⟩
  | takeSent core =>
    cases hop
    obtain ⟨hr, hs, ht⟩ := h.onDevice (fun d hd => Nic.tracks_takeSent hd hcore) .packets
    exact ⟨hr, hs, same ht⟩
  | inject core t payload =>
    cases hop
    -- what the ports answer does not depend on the device
    obtain ⟨r, a', hstep⟩ : ∃ r a', a.step c (.inject core t payload) = (.injected r, a') := by
      obtain ⟨d, -, hd⟩ := h.device
      obtain ⟨r, -, a', -, hstep, -⟩ := Nic.tracks_inject hd ha hcore t payload
      exact ⟨r, a', hstep⟩
    have hinject (d : Nic Region) (hd : Nic.Tracks c d a) :
        ∃ d', Ends (Nic.inject core t payload) d (.ok r) d' ∧ Nic.Tracks c d' a' := by
      obtain ⟨r', d', a'', hend, hstep', hd'⟩ := Nic.tracks_inject hd ha hcore t payload
      cases hstep.symm.trans hstep'
      exact ⟨d', hend, hd'⟩
    obtain ⟨hr, hs, ht⟩ := h.onDevice hinject fun r => (Answer.injected r).outcome
    rw [hstep, step_inject]
    exact ⟨hr, hs, same ht⟩
  | receive core attempts =>
    cases hop
    exact h.call ho fun x hx htracks => tracks_make_receive attempts (hx ▸ howned) htracks
  | transmit core attempts d =>
    cases hop
    refine h.call ho fun x hx htracks => ?_
    obtain ⟨r, y, a', hcall, hstep, hsame, hy⟩ := Exchange.tracks_transmit htracks ha attempts d
    rw [hx, howned] at hstep
    change a.step c (.transmit core attempts d) = _ at hstep
    rw [hstep, outcome_transmitted]
    exact ⟨y, by rw [Call.make, hcall], hsame, hy⟩

/-- So do the operations of a run on a core that has an owner. -/
theorem tracks_after (h : s.Tracks c a) (core : Nat) (hcore : core < c.numCores)
    (howner : (s.owners core).isSome) {cmds : List Command} {ops : List Op}
    (hops : List.Forall₂ (Command.Means core) cmds ops) :
    outcomes core s ops = (a.answers c cmds).map Answer.outcome ∧
      (s.after ops).Tracks c (a.after c cmds) := by
  induction hops generalizing s a with
  | nil => exact ⟨rfl, h⟩
  | @cons cmd op cmds ops hop _ ih =>
    obtain ⟨rfl, hop⟩ := hop
    obtain ⟨hr, hs, howners⟩ := tracks_step h cmd hop hcore howner
    obtain ⟨hrs, hafter⟩ := ih hs ((howners _).trans howner)
    refine ⟨?_, hafter⟩
    unfold outcomes
    dsimp only
    rw [if_pos (Command.core_of_op? hop), hr, hrs]
    rfl

end Station
end LineExchange
