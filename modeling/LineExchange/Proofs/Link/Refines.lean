import LineExchange.Proofs.Link.Transmit

/-!
# LineExchange.Proofs.Link.Refines

A host on a device refines the ideal machine.

* `Link.Tracks`: between commands, the link behaves as the ports. One command keeps it and is
  answered as the ports answer it (`Link.tracks_step`).
* `Nic.exists_start`: a new device over a region of zeros behaves as empty ports.
* `Link.refines_ports`: so all commands are answered as the ports answer them.
-/

namespace LineExchange

open ControlByte (isReady isBusy)

/-! ## A new device -/

namespace Nic

variable {c : Config} {d : Nic Region} {a b : Ports}

theorem Tracks.congr (h : Tracks c d a) (heq : ∀ core, core < c.numCores → a core = b core) :
    Tracks c d b where
  layout := h.layout
  format := h.format
  fits := h.fits
  ready core hcore := heq core hcore ▸ h.ready core hcore
  free := h.free
  idle := h.idle
  stocks core hcore := heq core hcore ▸ h.stocks core hcore

/-- Before its cores are given to the host, a device over zeros behaves as empty ports that are not
ready. -/
theorem tracks_zeros {size : Nat} (hfits : c.layout.Fits c.numCores size) :
    Tracks c ⟨Region.zeros size, c.layout, c.format, .replicate c.numCores {}⟩
      fun _ => { ready := false } where
  layout := rfl
  format := rfl
  fits core hcore p := Nat.le_trans (hfits core hcore p) (Nat.le_of_eq (Bytes.size_zeros _).symm)
  ready core _ := by
    show isReady ((Bytes.zeros size).byteAt _) = false
    rw [Bytes.byteAt_zeros]
    rfl
  free core _ := by
    show isBusy ((Bytes.zeros size).byteAt _) = false
    rw [Bytes.byteAt_zeros]
    rfl
  idle core hcore parity := by
    have hview : c.layout.view (.zeros size) core (.control .tx parity) = Line.zero.bytes :=
      Bytes.slice_zeros (hfits core hcore (.control .tx parity))
    have hzero := Format.isValid_zero c.format
    rw [← Line.ofBytes_bytes .zero, ← hview] at hzero
    exact hzero
  stocks core hcore := by
    refine ⟨[], ?_, .nil⟩
    rw [stockOf, Array.getElem?_replicate, if_pos hcore]
    rfl

theorem tracks_setReady_all (hl : c.layout.Ordered) (cores : List Nat) :
    ∀ {d : Nic Region} {a : Ports}, Tracks c d a → (∀ core ∈ cores, core < c.numCores) →
      ∃ d', Ends (cores.forM fun core => setReady core true) d (.ok ()) d' ∧
        Tracks c d' fun k => if k ∈ cores then { a k with ready := true } else a k := by
  -- the ports after the first cores are the ones the rest starts from
  induction cores with
  | nil =>
    intro d a h _
    exact ⟨d, .pure _ d, h.congr fun k _ => (if_neg (List.not_mem_nil)).symm⟩
  | cons core cores ih =>
    intro d a h hcores
    obtain ⟨d₁, hset, h₁⟩ := tracks_setReady h hl (hcores core (.head _)) true
    obtain ⟨d', hrest, h'⟩ := ih h₁ fun k hk => hcores k (.tail _ hk)
    refine ⟨d', hset.bind hrest, h'.congr fun k _ => ?_⟩
    by_cases hk : k = core
    · simp [Ports.set, hk]
    · simp [Ports.set, hk]

/-- A new device behaves as empty ports. -/
theorem exists_start {size r : Nat} (hcheck : c.check = .ok ())
    (hstorage : c.numCores * coreFootprint < storageLimit)
    (hr : c.layout.regionSize c.numCores = some r) (hsize : r ≤ size) :
    ∃ d, start (Region.zeros size) c = .ok (.ok d) ∧ Tracks c d fun _ => {} := by
  have hl := Config.ordered_of_check hcheck
  obtain ⟨d, hall, htracks⟩ := tracks_setReady_all hl (List.range c.numCores)
    (tracks_zeros (c.layout.fits_of_regionSize hl hr hsize)) fun core hcore =>
      List.mem_range.1 hcore
  refine ⟨d, ?_, htracks.congr fun k hk => if_pos (List.mem_range.2 hk)⟩
  unfold start
  rw [hcheck]
  dsimp only
  rw [if_neg (Nat.not_le.2 hstorage), Access.run, hall]

theorem of_start {m : Region} (h : start m c = .ok (.ok d)) :
    c.check = .ok () ∧ c.numCores * coreFootprint < storageLimit := by
  unfold start at h
  split at h
  · cases h
  · next hcheck =>
    split at h
    · cases h
    · next hstorage => exact ⟨hcheck, Nat.not_le.1 hstorage⟩

theorem Tracks.exists_open? (h : Tracks c d a) (hcheck : c.check = .ok ()) {r : Nat}
    (hr : c.layout.regionSize c.numCores = some r) : ∃ host, Host.open? d c = .ok host := by
  refine Host.exists_open? hcheck ?_
  rw [Config.regionSize, Layout.requiredSize, hr]
  exact h.fits.regionSize_le hr

end Nic

/-! ## Commands -/

namespace Link

variable {c : Config} {w : Link} {a : Ports}

/-- Between commands, the link behaves as the ports. -/
structure Tracks (c : Config) (w : Link) (a : Ports) : Prop where
  config : w.host.config = c
  device : Nic.Tracks c w.host.memory a
  core : ∀ k, k < c.numCores → (w.owners k).core = k
  buffer : ∀ k, k < c.numCores → (w.owners k).rxBuffer.size = c.rxBufferSize

theorem Tracks.exchange (h : Tracks c w a) {core : Nat} (hcore : core < c.numCores) :
    Exchange.Tracks c ⟨w.host, w.owners core⟩ a :=
  ⟨h.config, (h.core core hcore).symm ▸ hcore, h.buffer core hcore, h.device⟩

theorem Tracks.onNic (h : Tracks c w a) {α : Type} {b : Access (Nic Region) α} {v : α}
    {d' : Nic Region} {a' : Ports} (hb : Ends b w.host.memory (.ok v) d')
    (hd : Nic.Tracks c d' a') (answer : α → Answer) :
    w.onNic b answer = (answer v, { w with host := { w.host with memory := d' } }) ∧
      Tracks c { w with host := { w.host with memory := d' } } a' := by
  refine ⟨?_, h.config, hd, h.core, h.buffer⟩
  unfold Link.onNic
  rw [Access.run, Host.ends_onMemory hb]

theorem Tracks.setOwner (h : Tracks c w a) {core : Nat} {y : Exchange (Nic Region)} {a' : Ports}
    (hcore : y.owner.core = core) (hy : Exchange.Tracks c y a') :
    Tracks c (Link.setOwner { w with host := y.host } core y.owner) a' := by
  refine ⟨hy.config, hy.device, fun k hk => ?_, fun k hk => ?_⟩
  · show (if k = core then y.owner else w.owners k).core = k
    split
    · next heq => rw [hcore, heq]
    · exact h.core k hk
  · show (if k = core then y.owner else w.owners k).rxBuffer.size = c.rxBufferSize
    split
    · exact hy.buffer
    · exact h.buffer k hk

/-- One command is answered as the ports answer it. -/
theorem tracks_step (h : Tracks c w a) (ha : c.format.Accepted) (hl : c.layout.Ordered)
    (cmd : Command) (hcore : cmd.core < c.numCores) :
    (w.step cmd).1 = (a.step c cmd).1 ∧ Tracks c (w.step cmd).2 (a.step c cmd).2 := by
  cases cmd with
  | setReady core v =>
    change core < c.numCores at hcore
    obtain ⟨d', hend, hd⟩ := Nic.tracks_setReady h.device hl hcore v
    obtain ⟨hstep, hw⟩ := h.onNic hend hd fun _ => .done
    rw [Link.step, hstep]
    exact ⟨rfl, hw⟩
  | setLoopback core v =>
    change core < c.numCores at hcore
    obtain ⟨d', hend, hd⟩ := Nic.tracks_setLoopback h.device hcore v
    obtain ⟨hstep, hw⟩ := h.onNic hend hd fun _ => .done
    rw [Link.step, hstep]
    exact ⟨rfl, hw⟩
  | inject core t payload =>
    change core < c.numCores at hcore
    obtain ⟨r, d', a', hend, hport, hd⟩ := Nic.tracks_inject h.device ha hcore t payload
    obtain ⟨hstep, hw⟩ := h.onNic hend hd .injected
    rw [Link.step, hstep, hport]
    exact ⟨rfl, hw⟩
  | takeSent core =>
    change core < c.numCores at hcore
    obtain ⟨d', hend, hd⟩ := Nic.tracks_takeSent h.device hcore
    obtain ⟨hstep, hw⟩ := h.onNic hend hd .sent
    rw [Link.step, hstep]
    exact ⟨rfl, hw⟩
  | pending core =>
    change core < c.numCores at hcore
    obtain ⟨n, hend, hlen⟩ := Nic.tracks_pending h.device hcore
    obtain ⟨hstep, hw⟩ := h.onNic hend h.device fun c => .count c.queue.length
    rw [Link.step, hstep, Ports.step, hlen]
    exact ⟨rfl, hw⟩
  | receive core attempts =>
    change core < c.numCores at hcore
    have howner := h.core core hcore
    obtain ⟨r, y, a', hcall, hport, hy, htracks⟩ :=
      Exchange.tracks_receive (h.exchange hcore) attempts
    rw [howner] at hport hy
    rw [Link.step, hcall, hport]
    exact ⟨rfl, h.setOwner hy htracks⟩
  | transmit core attempts d =>
    change core < c.numCores at hcore
    have howner := h.core core hcore
    obtain ⟨r, y, a', hcall, hport, hy, htracks⟩ :=
      Exchange.tracks_transmit (h.exchange hcore) ha attempts d
    rw [howner] at hport hy
    rw [Link.step, hcall, hport]
    exact ⟨rfl, h.setOwner hy htracks⟩

theorem tracks_answers (ha : c.format.Accepted) (hl : c.layout.Ordered) (cmds : List Command) :
    ∀ {w : Link} {a : Ports}, Tracks c w a → (∀ cmd ∈ cmds, cmd.core < c.numCores) →
      w.answers cmds = a.answers c cmds := by
  induction cmds with
  | nil =>
    intro w a _ _
    rfl
  | cons cmd cmds ih =>
    intro w a h hcores
    obtain ⟨hanswer, htracks⟩ := tracks_step h ha hl cmd (hcores cmd (.head _))
    rw [Link.answers, Ports.answers, hanswer, ih htracks fun cmd' hc => hcores cmd' (.tail _ hc)]

/-- **Refinement.** Take any accepted settings, a device over a region of zeros that is large
enough, a host on it, and an owner for each core that expects any lines next. Then all commands
are answered as the ideal machine answers them. -/
theorem refines_ports {c : Config} {size r : Nat} {nic : Nic Region} {host : Host (Nic Region)}
    (hr : c.layout.regionSize c.numCores = some r) (hsize : r ≤ size)
    (hstart : Nic.start (Region.zeros size) c = .ok (.ok nic))
    (hopen : Host.open? nic c = .ok host) (next : Nat → Parity) (cmds : List Command)
    (hcores : ∀ cmd ∈ cmds, cmd.core < c.numCores) :
    Link.answers ⟨host, fun core => .synced core c (next core)⟩ cmds =
      Ports.answers c (fun _ => {}) cmds := by
  obtain ⟨hmemory, hconfig, -, -, -⟩ := Host.of_open? hopen
  have hcheck : c.check = .ok () := hconfig ▸ host.config_ok
  obtain ⟨nic', hstart', hnic⟩ := Nic.exists_start hcheck (Nic.of_start hstart).2 hr hsize
  rw [hstart] at hstart'
  cases hstart'
  have htracks : Tracks c ⟨host, fun core => .synced core c (next core)⟩ fun _ => {} :=
    ⟨hconfig, hmemory.symm ▸ hnic, fun _ _ => rfl, fun _ _ => Bytes.size_zeros _⟩
  exact tracks_answers (Config.accepted_of_check hcheck) (Config.ordered_of_check hcheck) cmds
    htracks hcores

/-- A call that is refused, sent, looped back and received. -/
theorem refines_ports_default : ∃ nic host,
    Nic.start (Region.zeros 0x10000) {} = .ok (.ok nic) ∧ Host.open? nic {} = .ok host ∧
      let call : Transaction := .call ⟨0x55aa, 7, .take (.zeros 0)⟩
      Link.answers ⟨host, fun core => .synced core {} ⟨true, false⟩⟩
        [.setLoopback 0 true, .setReady 0 false, .transmit 0 2 ⟨call, .zeros 100⟩,
          .setReady 0 true, .transmit 0 2 ⟨call, .zeros 100⟩, .pending 0, .receive 0 2,
          .receive 0 2] =
        [.done, .done, .transmitted (.error (.handshakeStuck 0 3)), .done, .transmitted (.ok ()),
          .count 1, .received (.ok (some ⟨({} : Format).wireForm call, .zeros 100⟩)),
          .received (.ok none)] := by
  have hr : ({} : Config).layout.regionSize 1 = some 0x10000 := rfl
  obtain ⟨nic, hstart, hnic⟩ := Nic.exists_start (c := {}) rfl (by decide) hr (Nat.le_refl _)
  obtain ⟨host, hopen⟩ := hnic.exists_open? rfl hr
  refine ⟨nic, host, hstart, hopen, ?_⟩
  refine (refines_ports hr (Nat.le_refl _) hstart hopen (fun _ => ⟨true, false⟩) _ ?_).trans rfl
  simp [Command.core]

end Link
end LineExchange
