import LineExchange.Proofs.Parity.Operations

/-!
# LineExchange.Proofs.Parity.InStep

Host and device keep in step. At a station on a device, whatever was done before, a call moves
owner and device on by the exchanges that its result tells, and an exchange brings them together
if they were apart; nothing else moves them. So an owner that is told the next lines by the device
keeps in step with it (`Station.keeps_pace`).
-/

namespace LineExchange

open Nic (Counts)

variable {α : Type} {c : Config} {core : Nat} {t : Tally}

namespace Nic

/-- A device that was just put in front of the region `r`, except for what the region holds. -/
structure Fresh (c : Config) (r : Region) (d : Nic Region) : Prop where
  layout : d.layout = c.layout
  cores : d.cores = .replicate c.numCores {}
  size : d.memory.size = r.size

/-- Giving a core to the host shows that its control byte is in the region. -/
theorem Fresh.setReady {r : Region} : Meets (Fresh c r) (setReady core true)
    (fun _ d => c.layout.workerAt core < r.size ∧ Fresh c r d) fun _ _ => True := by
  refine .of_ends ?_
  intro d h
  by_cases hin : d.layout.workerAt core < d.memory.size
  · refine ⟨_, _, .bind (.get d) (.bind (ends_onMemory (Region.ends_loadControl hin))
      (ends_onMemory (Region.ends_storeControl _ hin))), ?_, h.layout, h.cores, ?_⟩
    · rw [← h.layout, ← h.size]
      exact hin
    · exact (Bytes.size_put ..).trans h.size
  · exact ⟨_, _, .bind (.get d) (.bind_error (ends_onMemory
      (.bind_error (Region.ends_checkBounds_outside hin)))), trivial⟩

/-- A new device is sound and has counted nothing. -/
theorem counts_start (hl : c.layout.Ordered) {r : Region} {d : Nic Region}
    (h : Nic.start r c = .ok (.ok d)) :
    d.Sound c ∧ ∀ core, core < c.numCores → d.tallyOf core = some {} := by
  obtain ⟨hworkers, hd⟩ :=
    (Meets.forM_all fun _ => Fresh.setReady).out (Nic.ends_start h) ⟨rfl, rfl, rfl⟩
  refine ⟨⟨Nic.tidy_start hl h, ?_, ?_⟩, ?_⟩
  · rw [hd.cores, Array.size_replicate]
  · intro core hcore
    rw [hd.size]
    exact hworkers core (List.mem_range.2 hcore)
  · intro core hcore
    rw [tallyOf, hd.cores, Array.getElem?_replicate, if_pos hcore]
    rfl

end Nic

/-- What the device counts of a core, if there is one and the core is mapped. -/
def Host.tally? (h : Host Backing) (core : Nat) : Option Tally :=
  (h.memory.device? core).map (·.tally)

/-- The pace of an owner and the device. -/
def Exchange.pace? (x : Exchange Backing) : Option Pace :=
  (x.host.tally? x.owner.core).map (⟨x.owner.next, ·⟩)

/-- The lines that an owner is told to expect are those that the device expects. A call by an
owner that was claimed elsewhere is not told anything. -/
def Op.Told (s : Station) : Op → Prop
  | claim core next => ∀ t, s.host.tally? core = some t → next = t.next
  | call core (.resync next) => ∀ t, s.host.tally? core = some t → next = t.next
  | visit .. => False
  | _ => True

/-- A run in which owners are told what the device expects. -/
inductive Station.Told : Station → List Op → Prop where
  | nil (s : Station) : Told s []
  | cons {s : Station} {op : Op} {ops : List Op} : op.Told s → Told (s.step op).2 ops →
    Told s (op :: ops)

theorem Host.On.tally? {h : Host Backing} (hh : h.On c (Counts c core t)) :
    h.tally? core = some t := by
  obtain ⟨d, hmem, hd⟩ := hh.device
  rw [Host.tally?, hmem]
  exact hd.tally

theorem Host.Alike.tally? {h h' : Host Backing} (a : h.Alike c core h') :
    h.tally? core = h'.tally? core := by
  have hmemory := a.memory
  unfold Host.tally?
  generalize h.memory = b at hmemory ⊢
  generalize h'.memory = b' at hmemory ⊢
  cases hmemory with
  | plain _ => rfl
  | device hd => exact congrArg (·.map (·.tally)) hd.state

theorem Exchange.Paced.pace? {x : Exchange Backing} {p : Pace} (hx : Exchange.Paced c core p x) :
    x.pace? = some p := by
  rw [Exchange.pace?, hx.core, hx.host.tally?, hx.next]
  rfl

/-- Told the next lines, owner and device keep in step through a call. -/
theorem Call.inStep {x : Exchange Backing} {p : Pace} (h : p.InStep) (call : Call)
    (htold : ∀ next, call = .resync next → next = p.device.next) : (call.pace x p).InStep := by
  cases call with
  | receive q s =>
    show (if _ then _ else _ : Pace).InStep
    split
    · exact h.exchange .rx
    · exact h
  | prepare kind => exact h
  | transmit q s d =>
    show (if _ then _ else _ : Pace).InStep
    split
    · exact h.exchange .tx
    · exact h
  | resync next => exact ⟨htold next rfl, h.desyncs, h.unguarded⟩
  | bringUp q fuel => exact h.iterate .rx _

namespace Station

variable {s : Station}

/-- A station on a sound device. -/
structure Sound (c : Config) (s : Station) : Prop where
  tidy : s.Tidy c
  device : s.host.On c (Nic.Sound c)

theorem Sound.step (hl : c.layout.Ordered) (h : s.Sound c) (op : Op) : (s.step op).2.Sound c := by
  have hstep := confined_step hl op
  have htidy := hstep.holds s h.tidy
  -- the sizes are those that any other core sees
  have hrest := hstep.rest s h.tidy (op.core + 1) (Nat.succ_ne_self _)
  obtain ⟨d, hmem, hd⟩ := h.device.device
  have hmemory := hrest.host.memory
  have hkept := htidy.host.memory
  refine ⟨htidy, htidy.host.config, ?_⟩
  rw [hmem] at hmemory
  generalize (s.step op).2.host.memory = b at hmemory hkept ⊢
  cases hmemory with
  | device ha =>
    refine ⟨_, rfl, hkept, ha.size ▸ hd.size, ?_⟩
    intro core hcore
    exact Nat.lt_of_lt_of_eq (hd.worker_lt core hcore) ha.memory.size

theorem Sound.after (hl : c.layout.Ordered) (h : s.Sound c) (ops : List Op) :
    (s.after ops).Sound c := by
  induction ops generalizing s with
  | nil => exact h
  | cons op ops ih => exact ih (h.step hl op)

theorem Sound.counts (h : s.Sound c) (hcore : core < c.numCores) :
    ∃ t, s.host.On c (Counts c core t) := by
  obtain ⟨d, hmem, hd⟩ := h.device.device
  obtain ⟨t, ht⟩ := hd.exists_tally hcore
  exact ⟨t, h.device.config, d, hmem, ht⟩

theorem Sound.lt_of_tally? (h : s.Sound c) (ht : s.host.tally? core = some t) :
    core < c.numCores := by
  obtain ⟨d, hmem, hd⟩ := h.device.device
  rw [Host.tally?, hmem] at ht
  obtain ⟨k, hk, -⟩ := Option.map_eq_some_iff.1 ht
  exact hd.size ▸ (Array.getElem?_eq_some_iff.1 hk).1

theorem tally?_step_of_ne (hl : c.layout.Ordered) (h : s.Sound c) {op : Op} (hne : core ≠ op.core) :
    s.host.tally? core = (s.step op).2.host.tally? core :=
  ((confined_step hl op).rest s h.tidy core hne).host.tally?

theorem tally?_after_of_ne (hl : c.layout.Ordered) (h : s.Sound c) {ops : List Op}
    (hne : ∀ op ∈ ops, core ≠ op.core) : (s.after ops).host.tally? core = s.host.tally? core := by
  induction ops generalizing s with
  | nil => rfl
  | cons op ops ih =>
    have hfirst := tally?_step_of_ne hl h (hne op (.head ops))
    exact (ih (h.step hl op) fun _ hop => hne _ (.tail op hop)).trans hfirst.symm

/-- What is not a call counts nothing on any core. -/
theorem tally?_step (hl : c.layout.Ordered) (h : s.Sound c) {op : Op} (hop : op.isCall = false)
    (core : Nat) : (s.step op).2.host.tally? core = s.host.tally? core := by
  by_cases heq : core = op.core
  · subst heq
    cases ht : s.host.tally? op.core with
    | some t =>
      obtain ⟨t', hs⟩ := h.counts (h.lt_of_tally? ht)
      rw [(counts_step hl hop hs).2.tally?, ← ht, hs.tally?]
    | none =>
      cases ht' : (s.step op).2.host.tally? op.core with
      | none => rfl
      | some t' =>
        obtain ⟨t, hs⟩ := h.counts ((h.step hl op).lt_of_tally? ht')
        rw [hs.tally?] at ht
        cases ht
  · exact (tally?_step_of_ne hl h heq).symm

/-- Owners expect what the device expects, and nothing else was ever noted. -/
def InStep (s : Station) : Prop :=
  ∀ core t, s.host.tally? core = some t → t.desyncs = 0 ∧ t.unguarded = 0 ∧
    ∀ o, s.owners core = some o → o.next = t.next

theorem owners_onGate (say : α → Outcome) (f : Gate → α × Gate) :
    (s.onGate core say f).2.owners = s.owners := by
  unfold onGate
  split <;> rfl

theorem owners_hold : (s.hold core).2.owners = s.owners := by
  have hkeep (a : Outcome) (t : Station) : (keep core a t).2.owners = t.owners := by
    unfold keep
    split <;> rfl
  rw [hold_eq, hkeep, owners_onGate]

theorem owners_leave : (s.leave core).2.owners = s.owners := by
  unfold leave
  split
  · rfl
  · exact owners_onGate _ _

/-- Whoever owns a core after it was claimed was there before, or was told `next`. -/
theorem owner_claim {next : Parity} {o : Owner} (h : (s.claim core next).2.owners core = some o) :
    s.owners core = some o ∨ o.next = next := by
  unfold claim Access.run at h
  rw [Host.claim_run] at h
  unfold Host.claimed? at h
  split at h
  · next o' host heq =>
    have hnext : o'.next = next := by
      split at heq
      · cases heq
      · split at heq
        · cases heq
        · split at heq <;> cases heq
          rfl
    dsimp only at h
    rw [Function.update_self] at h
    cases h
    exact .inr hnext
  · exact .inl h
  · exact .inl h

/-- Where the owner of a core comes from: it was there, or it claimed the core, or it was there
and made a call. -/
inductive Came (s : Station) (o : Owner) : Op → Prop where
  | kept {op : Op} : s.owners op.core = some o → Came s o op
  | claimed (core : Nat) : Came s o (.claim core o.next)
  | called {core : Nat} {call : Call} {o' : Owner} : s.owners core = some o' →
    o = (call.make ⟨s.host, o'⟩).2.owner → Came s o (.call core call)

theorem came_step (op : Op) {o : Owner} (h : (s.step op).2.owners op.core = some o) :
    Came s o op := by
  cases op with
  | claim core next =>
    rcases owner_claim h with ho | rfl
    · exact .kept ho
    · exact .claimed core
  | drop core =>
    change (s.drop core).2.owners core = some o at h
    unfold drop at h
    split at h
    · exact .kept h
    · dsimp only at h
      rw [Function.update_self] at h
      cases h
  | call core call =>
    change (s.call core call).2.owners core = some o at h
    unfold Station.call at h
    split at h
    · exact .kept h
    · next o' ho' =>
      dsimp only at h
      rw [Function.update_self] at h
      cases h
      exact .called ho' rfl
  | visit o' call => exact .kept h
  | setReady core v => exact .kept (owners_onGate (s := s) _ _ ▸ h)
  | hold core => exact .kept (owners_hold (s := s) ▸ h)
  | leave core => exact .kept (owners_leave (s := s) ▸ h)
  | grant core v => exact .kept h
  | inject core tr payload => exact .kept h
  | setLoopback core v => exact .kept h
  | takeSent core => exact .kept h

/-- A call moves owner and device on. -/
theorem Sound.paced (h : s.Sound c) {o : Owner} (hcore : o.core < c.numCores) (call : Call) :
    ∃ p, p.owner = o.next ∧ s.host.On c (Counts c o.core p.device) ∧
      Exchange.Paced c o.core (call.pace ⟨s.host, o⟩ p) (call.make ⟨s.host, o⟩).2 := by
  obtain ⟨t, hs⟩ := h.counts hcore
  have hx : Exchange.Paced c o.core ⟨o.next, t⟩ ⟨s.host, o⟩ := ⟨hs, rfl, rfl⟩
  exact ⟨⟨o.next, t⟩, rfl, hs, (Call.paced hx call).2⟩

theorem InStep.call (h : s.Sound c) (hin : s.InStep) {core : Nat} {call : Call}
    (htold : (Op.call core call).Told s) (hcore : core < c.numCores) {t : Tally}
    (ht : (s.call core call).2.host.tally? core = some t) :
    t.desyncs = 0 ∧ t.unguarded = 0 ∧
      ∀ o, (s.call core call).2.owners core = some o → o.next = t.next := by
  unfold Station.call at ht ⊢
  split
  · next heq =>
    rw [heq] at ht
    exact hin core t ht
  · next o heq =>
    rw [heq] at ht
    have ho : o.core = core := h.tidy.owner core o heq
    subst ho
    obtain ⟨p, howner, hs, hp⟩ := h.paced hcore call
    obtain ⟨hdesyncs, hunguarded, hnext⟩ := hin o.core p.device hs.tally?
    have hstep : p.InStep := ⟨howner.trans (hnext o heq), hdesyncs, hunguarded⟩
    obtain ⟨hnext', hdesyncs', hunguarded'⟩ := Call.inStep (x := ⟨s.host, o⟩) hstep call (by
      rintro next rfl
      exact htold p.device hs.tally?)
    dsimp only at ht ⊢
    rw [hp.host.tally?] at ht
    cases ht
    refine ⟨hdesyncs', hunguarded', ?_⟩
    intro o' ho'
    rw [Function.update_self] at ho'
    cases ho'
    exact hp.next.trans hnext'

/-- One operation, told the next lines, keeps owners and device in step. -/
theorem InStep.step (hl : c.layout.Ordered) (h : s.Sound c) (hin : s.InStep) {op : Op}
    (htold : op.Told s) : (s.step op).2.InStep := by
  intro core t ht
  by_cases heq : core = op.core
  · subst heq
    have hcore := (h.step hl op).lt_of_tally? ht
    cases hop : op.isCall with
    | false =>
      rw [tally?_step hl h hop] at ht
      obtain ⟨hdesyncs, hunguarded, hnext⟩ := hin _ t ht
      refine ⟨hdesyncs, hunguarded, ?_⟩
      intro o ho
      cases came_step op ho with
      | kept ho => exact hnext o ho
      | claimed core => exact htold t ht
      | called _ _ => cases hop
    | true =>
      cases op with
      | call core call => exact hin.call h htold hcore ht
      | visit o call => exact htold.elim
      | _ => cases hop
  · rw [← tally?_step_of_ne hl h heq] at ht
    rw [← ((confined_step hl op).rest s h.tidy core heq).owner]
    exact hin core t ht

theorem InStep.after (hl : c.layout.Ordered) (h : s.Sound c) (hin : s.InStep) {ops : List Op}
    (htold : s.Told ops) : (s.after ops).InStep := by
  induction htold with
  | nil s => exact hin
  | cons hop _ ih => exact ih (h.step hl _) (hin.step hl h hop)

theorem sound_open {r : Region} {d : Nic Region} {host : Host Backing}
    (hstart : Nic.start r c = .ok (.ok d)) (hopen : Host.open? (.device d) c = .ok host) :
    c.layout.Ordered ∧ Sound c { host } ∧ InStep { host } := by
  obtain ⟨hmemory, hconfig, -⟩ := Host.of_open? hopen
  have hl : c.layout.Ordered := hconfig ▸ host.ordered
  obtain ⟨hsound, htally⟩ := Nic.counts_start hl hstart
  have h : Sound c { host } := ⟨Opened.tidy (.device hstart hopen), hconfig, d, hmemory, hsound⟩
  refine ⟨hl, h, ?_⟩
  intro core t ht
  have hcore := h.lt_of_tally? ht
  rw [Host.tally?, hmemory] at ht
  cases (htally core hcore).symm.trans ht
  exact ⟨rfl, rfl, nofun⟩

/-- **Host and device keep in step.** Take a host on a new device, and do anything there. Then a
call on a mapped core moves its owner and the device on by one exchange in its direction, or by
one for each receive of a bring-up, if its result tells so, and by none otherwise; a resync only
sets the owner. The device of the other cores is not moved, and neither is any by what is not a
call. And if owners were always told the next lines by the device, then each is in step with it,
no access was to a line that was not the next, and none was made outside the gate. -/
theorem keeps_pace {r : Region} {d : Nic Region} {host : Host Backing}
    (hstart : Nic.start r c = .ok (.ok d)) (hopen : Host.open? (.device d) c = .ok host)
    (ops : List Op) :
    let s := ({ host } : Station).after ops
    (∀ (o : Owner) (call : Call), o.core < c.numCores →
      let x : Exchange Backing := ⟨s.host, o⟩
      let y := (call.make x).2
      (∃ p, x.pace? = some p ∧ y.pace? = some (call.pace x p)) ∧
        ∀ core, core ≠ o.core → y.host.tally? core = s.host.tally? core) ∧
    (∀ op : Op, op.isCall = false →
      ∀ core, (s.step op).2.host.tally? core = s.host.tally? core) ∧
    (Told { host } ops → s.InStep) := by
  obtain ⟨hl, hsound, hin⟩ := sound_open hstart hopen
  intro s
  have h : s.Sound c := hsound.after hl ops
  refine ⟨?_, fun op hop core => tally?_step hl h hop core, hin.after hl hsound⟩
  intro o call hcore
  obtain ⟨p, howner, hs, hp⟩ := h.paced hcore call
  refine ⟨⟨p, ?_, hp.pace?⟩, ?_⟩
  · exact Exchange.Paced.pace? ⟨hs, rfl, howner.symm⟩
  · intro core hne
    have hother : s.host.tally? core = (s.step (.visit o call)).2.host.tally? core :=
      tally?_step_of_ne hl h hne
    exact hother.symm

/-- A core is claimed, filled and polled twice: its owner receives the packet, and then there is
none. The owner of the other core is out of step. It polls, the device notes that once, and they are
together. -/
theorem keeps_pace_two_cores : ∃ d host,
    Nic.start (Region.zeros 0x20000) { numCores := 2 } = .ok (.ok d) ∧
      Host.open? (Backing.device d) { numCores := 2 } = .ok host ∧
      let call : Transaction := .call ⟨0x55aa, 7, .take (.zeros 0)⟩
      let packet : Received := ⟨({} : Format).wireForm call, .zeros 100⟩
      let poll : Call := .receive (SpinLimit.attempts 3).policy ()
      let run : List Op := [.claim 0 {}, .inject 0 call (.zeros 100), .call 0 poll, .call 0 poll]
      let s := ({ host } : Station).after run
      let x : Exchange Backing := ⟨s.host, .synced 1 { numCores := 2 } ⟨true, false⟩⟩
      (outcomes 0 { host } run = [.done, .done, .received (some packet), .received none] ∧
        Told { host } run ∧ s.InStep) ∧
      x.pace? = some ⟨⟨true, false⟩, {}⟩ ∧ (poll.make x).1 = .received none ∧
        (poll.make x).2.pace? = some ⟨{}, { desyncs := 1 }⟩ := by
  have hr : ({ numCores := 2 } : Config).layout.regionSize 2 = some 0x20000 := rfl
  obtain ⟨d, host, hstart, hopen⟩ := exists_device (c := { numCores := 2 }) rfl (by decide) hr
  obtain ⟨hl, hsound, -⟩ := sound_open hstart hopen
  have hstarted {core : Nat} (hcore : core < 2) : host.tally? core = some {} := by
    rw [Host.tally?, (Host.of_open? hopen).1]
    exact (Nic.counts_start hl hstart).2 core hcore
  have hclaim : (Op.claim 0 {}).Told { host } := by
    intro t ht
    cases (hstarted (by decide)).symm.trans ht
    rfl
  refine ⟨d, host, hstart, hopen, ?_⟩
  intro call packet poll run s x
  obtain ⟨hcalls, -, hin⟩ := keeps_pace hstart hopen run
  have htold : Told { host } run :=
    .cons hclaim (.cons trivial (.cons trivial (.cons trivial (.nil _))))
  -- what the ports make of the run
  obtain ⟨s₀, hdone, howner, htracks, -⟩ :=
    claim_new hr hstart hopen (by decide) 0 (by decide) {}
  have hops : List.Forall₂ (Command.Means 0)
      [.inject 0 call (.zeros 100), .receive 0 3, .receive 0 3]
      [.inject 0 call (.zeros 100), .call 0 poll, .call 0 poll] :=
    .cons ⟨rfl, rfl⟩ (.cons ⟨rfl, rfl⟩ (.cons ⟨rfl, rfl⟩ .nil))
  obtain ⟨hanswers, htracks⟩ := tracks_after htracks 0 (by decide) (howner ▸ rfl) hops
  have houtcomes : outcomes 0 { host } run =
      [.done, .done, .received (some packet), .received none] := by
    unfold outcomes
    rw [hdone]
    exact congrArg (List.cons Outcome.done) hanswers
  have hs : s = s₀.after [.inject 0 call (.zeros 100), .call 0 poll, .call 0 poll] := by
    simp only [s, run, after, List.foldl, hdone]
  rw [← hs] at htracks
  -- the owner that is out of step
  let o : Owner := .synced 1 { numCores := 2 } ⟨true, false⟩
  have hpace : x.pace? = some ⟨⟨true, false⟩, {}⟩ := by
    have htally : s.host.tally? 1 = some {} :=
      (tally?_after_of_ne hl hsound (by decide)).trans (hstarted (by decide))
    show (s.host.tally? 1).map _ = _
    rw [htally]
    rfl
  obtain ⟨y, hmake, -⟩ := htracks.make (o := o) (by decide) (Bytes.size_zeros _)
    fun z hz hztracks => tracks_make_receive 3 (congrArg Owner.core hz : z.owner.core = 1) hztracks
  have hpoll : (poll.make x).1 = .received none := congrArg Prod.fst hmake
  obtain ⟨p, hp, hp'⟩ := (hcalls o poll (by decide)).1
  cases hp.symm.trans hpace
  have hpaced : poll.pace x ⟨⟨true, false⟩, {}⟩ = ⟨{}, { desyncs := 1 }⟩ :=
    if_pos (congrArg Exchange.polled (Outcome.ok_of_received hpoll))
  exact ⟨⟨houtcomes, htold, hin htold⟩, hpace, hpoll, hp'.trans (congrArg some hpaced)⟩

end Station
end LineExchange
