import LineExchange.Proofs.Isolation.Calls
import LineExchange.Proofs.Link.Station

/-!
# LineExchange.Proofs.Isolation.Cores

The cores of a station do not interfere. An operation keeps to its core (`Station.confined_step`),
so what a run does on one core is what it does without the operations on all others
(`Station.isolated`).
-/

namespace LineExchange

variable {α : Type} {c : Config} {core : Nat}

theorem Local.keeps {ε S : Type} {sc : Scope S} {a : ExceptT ε (StateM S) α} (h : Local sc a) :
    Keeps sc.Holds a := by
  refine ⟨fun {s r s'} hend hs => ?_⟩
  obtain ⟨-, rfl⟩ := hend.unique (Ends.intro a s)
  exact h.holds s hs

/-- A new device has given all its cores to the host. -/
theorem Nic.ends_start {r : Region} {d : Nic Region} (h : Nic.start r c = .ok (.ok d)) :
    Ends ((List.range c.numCores).forM fun core => setReady core true : Access (Nic Region) Unit)
      { memory := r, layout := c.layout, format := c.format, cores := .replicate c.numCores {} }
      (.ok ()) d := by
  unfold Nic.start at h
  split at h
  · cases h
  · split at h
    · cases h
    · dsimp only at h
      split at h
      · cases h
      · next n hrun =>
        cases h
        exact hrun

theorem Nic.tidy_start (hl : c.layout.Ordered) {r : Region} {d : Nic Region}
    (h : Nic.start r c = .ok (.ok d)) : d.Tidy c.layout := by
  have keeps : Keeps (Tidy c.layout) ((List.range c.numCores).forM fun core =>
      setReady core true : Access (Nic Region) Unit) :=
    .forM fun _ _ => (Nic.local_setReady hl true).keeps
  refine keeps.out (Nic.ends_start h) ⟨rfl, ?_⟩
  intro core k hk raw hraw
  dsimp only at hk
  rw [Array.getElem?_replicate] at hk
  split at hk
  · cases hk
    cases hraw
  · cases hk

namespace Station

/-- Two stations look the same from a core. -/
structure Alike (c : Config) (core : Nat) (s t : Station) : Prop where
  host : s.host.Alike c core t.host
  owner : s.owners core = t.owners core
  guards : s.guards core = t.guards core

/-- A station whose host is tidy and whose owners drive the cores they are kept for. -/
structure Tidy (c : Config) (s : Station) : Prop where
  host : s.host.Tidy c
  owner : ∀ core o, s.owners core = some o → o.core = core

theorem Alike.refl (s : Station) : Alike c core s s := ⟨.refl _, rfl, rfl⟩

theorem Alike.symm {s t : Station} (h : Alike c core s t) : Alike c core t s :=
  ⟨h.host.symm, h.owner.symm, h.guards.symm⟩

theorem Alike.trans {s t u : Station} (h : Alike c core s t) (h' : Alike c core t u) :
    Alike c core s u :=
  ⟨h.host.trans h'.host, h.owner.trans h'.owner, h.guards.trans h'.guards⟩

def scope (c : Config) : Nat → Scope Station := .ofCore (Tidy c) (Alike c) (fun _ => .refl) .trans

theorem confined_onHost {β : Type} {f : Host Backing → β × Host Backing}
    (hf : Confined (Host.scope c core) f) :
    Confined (scope c core) fun s => ((f s.host).1, { s with host := (f s.host).2 }) := by
  constructor
  · intro s hs
    exact ⟨hf.holds _ hs.host, hs.owner⟩
  · intro s hs other hne
    exact ⟨hf.rest _ hs.host other hne, rfl, rfl⟩
  · intro s t hs ht h
    obtain ⟨heq, hown⟩ := hf.own _ _ hs.host ht.host h.host
    exact ⟨heq, hown, h.owner, h.guards⟩

/-- A new owner of a core, or none. -/
theorem confined_setOwner {o : Option Owner} (ho : ∀ o', o = some o' → o'.core = core) (b : α) :
    Confined (scope c core) fun s => (b, { s with owners := Function.update s.owners core o }) := by
  constructor
  · intro s hs
    refine ⟨hs.host, ?_⟩
    intro k o' hk
    by_cases heq : k = core
    · subst heq
      dsimp only at hk
      rw [Function.update_self] at hk
      exact ho o' hk
    · dsimp only at hk
      rw [Function.update_of_ne heq] at hk
      exact hs.owner k o' hk
  · intro s _ other hne
    exact ⟨.refl _, (Function.update_of_ne hne ..).symm, rfl⟩
  · intro s t _ _ h
    refine ⟨rfl, h.host, ?_, h.guards⟩
    dsimp only
    rw [Function.update_self, Function.update_self]

theorem confined_setGuards (f : Nat → Nat) (b : α) : Confined (scope c core) fun s =>
    (b, { s with guards := Function.update s.guards core (f (s.guards core)) }) := by
  constructor
  · intro s hs
    exact ⟨hs.host, hs.owner⟩
  · intro s _ other hne
    exact ⟨.refl _, rfl, (Function.update_of_ne hne ..).symm⟩
  · intro s t _ _ h
    refine ⟨rfl, h.host, h.owner, ?_⟩
    dsimp only
    rw [Function.update_self, Function.update_self, h.guards]

theorem confined_access (say : α → Outcome) {a : Access (Host Backing) α}
    (ha : Local (Host.scope c core) a) : Confined (scope c core) fun s => s.onHost say a :=
  Confined.map (confined_onHost ha) (Outcome.ofAccess say)

theorem confined_onDevice (say : α → Outcome) {a : Access (Nic Region) α}
    (ha : Local (Nic.scope c.layout core) a) :
    Confined (scope c core) fun s => s.onDevice say a :=
  confined_access _ (Host.local_onMemory (Backing.local_access (.pure _) (ha.map _)))

theorem confined_onGate (hl : c.layout.Ordered) (say : α → Outcome) (f : Gate → α × Gate) :
    Confined (scope c core) fun s => s.onGate core say f :=
  confined_onGate_of (fun _ _ hs ht _ => hs.host.coreError? ht.host core)
    (confined_access say (Host.local_onGate hl f))

theorem confined_claim (next : Parity) : Confined (scope c core) fun s => s.claim core next := by
  simp only [claim_eq]
  refine (confined_onHost (Host.local_claim next)).bind_of
    (Q := fun r => ∀ o, r = .ok (.ok o) → o.core = core) (g := settle core) ?_ ?_
  · intro s _ o ho
    rw [Host.claim_run] at ho
    unfold Host.claimed? at ho
    split at ho
    · cases ho
    · split at ho
      · cases ho
      · split at ho <;> cases ho
        rfl
  · intro r hr
    rcases r with f | e | o
    · exact .const _
    · exact .const _
    · refine confined_setOwner ?_ _
      intro o' ho'
      cases ho'
      exact hr o rfl

theorem confined_drop : Confined (scope c core) fun s => s.drop core := by
  refine .choose_of (c := fun s : Station => s.owners core) ?_ ?_
  · intro s t _ _ h
    exact h.owner
  · intro s hs
    cases ho : s.owners core with
    | none =>
      refine ⟨_, .const Outcome.absent, ?_⟩
      intro t ht
      rw [drop, ht]
    | some o =>
      refine ⟨_, (confined_onHost (Host.confined_setClaimed false ())).bind fun _ =>
        confined_setOwner (o := none) nofun Outcome.done, ?_⟩
      intro t ht
      rw [drop, ht]
      dsimp only
      rw [hs.owner core o ho]
      rfl

/-- A call by an owner, who is given back. -/
theorem confined_make (hl : c.layout.Ordered) (call : Call) {o : Owner} (ho : o.core = core) :
    Confined (scope c core) fun s =>
      (((call.make ⟨s.host, o⟩).1, (call.make ⟨s.host, o⟩).2.owner),
        { s with host := (call.make ⟨s.host, o⟩).2.host }) := by
  have hcall : Confined (Exchange.scope c core) fun x => call.make x := Call.confined hl call
  constructor
  · intro s hs
    exact ⟨(hcall.holds ⟨s.host, o⟩ ⟨hs.host, ho⟩).host, hs.owner⟩
  · intro s hs other hne
    exact ⟨hcall.rest ⟨s.host, o⟩ ⟨hs.host, ho⟩ other hne, rfl, rfl⟩
  · intro s t hs ht h
    obtain ⟨heq, hown⟩ := hcall.own ⟨s.host, o⟩ ⟨t.host, o⟩ ⟨hs.host, ho⟩ ⟨ht.host, ho⟩ ⟨h.host, rfl⟩
    exact ⟨Prod.ext heq hown.owner, hown.host, h.owner, h.guards⟩

theorem confined_call (hl : c.layout.Ordered) (call : Call) :
    Confined (scope c core) fun s => s.call core call := by
  refine .choose_of (c := fun s : Station => s.owners core) ?_ ?_
  · intro s t _ _ h
    exact h.owner
  · intro s hs
    cases ho : s.owners core with
    | none =>
      refine ⟨_, .const .absent, ?_⟩
      intro t ht
      rw [Station.call, ht]
    | some o =>
      have hcore := hs.owner core o ho
      refine ⟨_, (confined_make hl call hcore).bind_of (Q := fun r => r.2.core = core)
        (g := fun r s => (r.1, { s with owners := Function.update s.owners core (some r.2) })) ?_ ?_,
        ?_⟩
      · intro s hs
        exact ((Call.confined hl call).holds ⟨s.host, o⟩ ⟨hs.host, hcore⟩).core
      · intro r hr
        refine confined_setOwner ?_ _
        intro o' ho'
        cases ho'
        exact hr
      · intro t ht
        rw [Station.call, ht]

theorem confined_hold (hl : c.layout.Ordered) : Confined (scope c core) fun s => s.hold core :=
  confined_hold_of (confined_onGate hl .held attempt) (confined_setGuards (· + 1) _)

theorem confined_leave (hl : c.layout.Ordered) : Confined (scope c core) fun s => s.leave core :=
  confined_leave_of (fun _ _ _ _ h => h.guards) (confined_setGuards (· - 1) ())
    (confined_onGate hl _ _)

/-- Whatever is done keeps to the core it is about. -/
theorem confined_step (hl : c.layout.Ordered) (op : Op) :
    Confined (scope c op.core) fun s => s.step op := by
  cases op with
  | claim core next => exact confined_claim next
  | drop core => exact confined_drop
  | call core call => exact confined_call hl call
  | visit o call => exact Confined.map (confined_make hl call rfl) Prod.fst
  | setReady core v => exact confined_onGate hl _ _
  | hold core => exact confined_hold hl
  | leave core => exact confined_leave hl
  | grant core v => exact confined_onDevice _ (Nic.local_setReady hl v)
  | inject core t payload => exact confined_onDevice _ (Nic.local_inject hl t payload)
  | setLoopback core v => exact confined_onDevice _ (Nic.local_setLoopback v)
  | takeSent core => exact confined_onDevice _ Nic.local_takeSent

theorem Opened.tidy {s : Station} (h : s.Opened c) : s.Tidy c := by
  cases h with
  | plain hopen =>
    obtain ⟨hmemory, hconfig, -⟩ := Host.of_open? hopen
    refine ⟨⟨hconfig, ?_⟩, nofun⟩
    rw [hmemory]
    exact trivial
  | @device r d host hstart hopen =>
    obtain ⟨hmemory, hconfig, -⟩ := Host.of_open? hopen
    refine ⟨⟨hconfig, ?_⟩, nofun⟩
    rw [hmemory]
    exact Nic.tidy_start (hconfig ▸ host.ordered) hstart

theorem Alike.view_eq {s t : Station} (hs : s.Tidy c) (ht : t.Tidy c) (h : Alike c core s t) :
    s.view core = t.view core := by
  have hpos : c.layout.coreBase core < c.layout.coreBase core + c.layout.windowSize := by
    unfold Layout.windowSize lineSize
    omega
  have hwindow (r r' : Region) (hr : r.Alike c.layout core r') :
      r.bytes.slice (c.layout.coreBase core) (c.layout.workerControl.toNat + lineSize) =
        r'.bytes.slice (c.layout.coreBase core) (c.layout.workerControl.toNat + lineSize) :=
    hr.slice_eq ⟨⟨Nat.le_refl _, hpos⟩, Nat.le_refl _⟩
  have hdevice := h.host.memory
  unfold view
  rw [h.host.countersOf, h.host.isClaimed, h.owner, h.guards, hs.host.config, ht.host.config]
  generalize s.host.memory = b at hdevice ⊢
  generalize t.host.memory = b' at hdevice ⊢
  cases hdevice with
  | plain hr =>
    simp only [Backing.bytes, Backing.device?, hwindow _ _ hr]
  | device hd =>
    simp only [Backing.bytes, Backing.device?, hwindow _ _ hd.memory, hd.state]

/-- What a run does on a core, it does without what is done on the others. -/
theorem alike_filter (hl : c.layout.Ordered) (core : Nat) (ops : List Op) {s t : Station}
    (hs : s.Tidy c) (ht : t.Tidy c) (h : Alike c core s t) :
    outcomes core s ops = outcomes core t (ops.filter (·.core = core)) ∧
      (s.after ops).Tidy c ∧ (t.after (ops.filter (·.core = core))).Tidy c ∧
      Alike c core (s.after ops) (t.after (ops.filter (·.core = core))) := by
  induction ops generalizing s t with
  | nil => exact ⟨rfl, hs, ht, h⟩
  | cons op ops ih =>
    have hstep := confined_step hl op
    have hs' := hstep.holds s hs
    by_cases hcore : op.core = core
    · subst hcore
      obtain ⟨heq, hown⟩ := hstep.own s t hs ht h
      obtain ⟨houtcomes, hrest⟩ := ih hs' (hstep.holds t ht) hown
      rw [List.filter_cons_of_pos (by simp)]
      refine ⟨?_, hrest⟩
      unfold outcomes
      simp only [if_true, heq, houtcomes]
    · obtain ⟨houtcomes, hrest⟩ :=
        ih hs' ht ((hstep.rest s hs core (Ne.symm hcore)).symm.trans h)
      rw [List.filter_cons_of_neg (by simpa using hcore)]
      refine ⟨?_, hrest⟩
      rw [outcomes]
      simp only [if_neg hcore, houtcomes]

/-- **Cores do not interfere.** Whatever is done at a station, on any cores and in any order: what
the operations on one core come to, and what the station holds of that core in the end, is the
same as if nothing had been done on the others. -/
theorem isolated {s : Station} (h : s.Opened c) (ops : List Op) (core : Nat) :
    let own := ops.filter (·.core = core)
    outcomes core s ops = outcomes core s own ∧
      (s.after ops).view core = (s.after own).view core := by
  have hs := h.tidy
  have hl : c.layout.Ordered := hs.host.config ▸ s.host.ordered
  obtain ⟨houtcomes, htidy, htidy', halike⟩ := alike_filter hl core ops hs hs (.refl s)
  exact ⟨houtcomes, halike.view_eq htidy htidy'⟩

theorem exists_device {r : Nat} (hcheck : c.check = .ok ())
    (hstorage : c.numCores * Nic.coreFootprint < storageLimit)
    (hr : c.layout.regionSize c.numCores = some r) : ∃ d host,
      Nic.start (Region.zeros r) c = .ok (.ok d) ∧
        Host.open? (Backing.device d) c = .ok host := by
  obtain ⟨d, hstart, hd⟩ := Nic.exists_start hcheck hstorage hr (Nat.le_refl r)
  have hsize : c.regionSize ≤ Memory.size (Backing.device d) := by
    rw [Config.regionSize, Layout.requiredSize, hr]
    exact hd.fits.regionSize_le hr
  obtain ⟨host, hopen⟩ := Host.exists_open? hcheck hsize
  exact ⟨d, host, hstart, hopen⟩

/-- One core is filled and polled while the other is taken away and polled in vain. The first
receives what was put there for it, and its gate is passed once. The other is told that its gate
stays closed, and its gate is not passed. -/
theorem isolated_two_cores : ∃ s : Station, s.Opened { numCores := 2 } ∧
    let call : Transaction := .call ⟨0x55aa, 7, .take (.zeros 0)⟩
    let poll : Call := .receive (SpinLimit.attempts 3).policy ()
    let run : List Op := [.claim 0 {}, .claim 1 {}, .inject 0 call (.zeros 100), .grant 1 false,
      .call 1 poll, .call 0 poll, .drop 1]
    let own : List Op := [.claim 0 {}, .inject 0 call (.zeros 100), .call 0 poll]
    let other : List Op := [.claim 1 {}, .grant 1 false, .call 1 poll, .drop 1]
    let packet : Received := ⟨({} : Format).wireForm call, .zeros 100⟩
    let counters (core : Nat) : Counters := ((s.after run).view core).counters
    (outcomes 0 s run = outcomes 0 s own ∧ (s.after run).view 0 = (s.after own).view 0) ∧
      (outcomes 1 s run = outcomes 1 s other ∧ (s.after run).view 1 = (s.after other).view 1) ∧
      outcomes 0 s run = [.done, .done, .received (some packet)] ∧
      outcomes 1 s run = [.done, .done, .refused (.handshakeStuck 1 4), .done] ∧
      ((counters 0).entries = 1 ∧ (counters 0).exits = 1) ∧
      (counters 1).entries = 0 ∧ (counters 1).exits = 0 := by
  have hr : ({ numCores := 2 } : Config).layout.regionSize 2 = some 0x20000 := rfl
  obtain ⟨d, host, hstart, hopen⟩ := exists_device (c := { numCores := 2 }) rfl (by decide) hr
  have h : Opened { numCores := 2 } { host } := .device hstart hopen
  refine ⟨{ host }, h, ?_⟩
  intro call poll run own other packet counters
  have same : outcomes 0 { host } run = outcomes 0 { host } own ∧
      (Station.after { host } run).view 0 = (Station.after { host } own).view 0 := isolated h run 0
  have same' : outcomes 1 { host } run = outcomes 1 { host } other ∧
      (Station.after { host } run).view 1 = (Station.after { host } other).view 1 :=
    isolated h run 1
  have first : outcomes 0 { host } own = [.done, .done, .received (some packet)] ∧
      ((Station.after { host } own).host.countersOf 0).entries = 1 ∧
      ((Station.after { host } own).host.countersOf 0).exits = 1 := by
    obtain ⟨s₀, hclaim, howner, htracks, hcounters⟩ :=
      claim_new hr hstart hopen (by decide) 0 (by decide) {}
    obtain ⟨hinject, htracks₁, howners⟩ :=
      tracks_step htracks (.inject 0 call (.zeros 100)) rfl (by decide) (howner ▸ rfl)
    obtain ⟨hpoll, -⟩ := tracks_step htracks₁ (.receive 0 3) rfl (by decide)
      ((howners 0).trans (howner ▸ rfl))
    have hvisits := visits_of_received (by rw [htracks₁.config]; exact hcounters ▸ rfl)
      (s := (s₀.step (.inject 0 call (.zeros 100))).2) howner rfl
      (hpoll : _ = Outcome.received (some packet))
    have hzero : s₀.host.countersOf 0 = {} := by rw [Host.countersOf, hcounters]; rfl
    simp only [own, outcomes, after, List.foldl, hclaim]
    refine ⟨?_, ?_, ?_⟩
    · exact congrArg (List.cons Outcome.done) (congrArg₂ (fun a b => [a, b]) hinject hpoll)
    · exact hvisits.entries.trans (congrArg (fun k : Counters => k.entries + 1) hzero)
    · exact hvisits.exits.trans (congrArg (fun k : Counters => k.exits + 1) hzero)
  have second : outcomes 1 { host } other = [.done, .done, .refused (.handshakeStuck 1 4), .done] ∧
      ((Station.after { host } other).host.countersOf 1).entries = 0 ∧
      ((Station.after { host } other).host.countersOf 1).exits = 0 := by
    obtain ⟨s₀, hclaim, howner, htracks, hcounters⟩ :=
      claim_new hr hstart hopen (by decide) 1 (by decide) {}
    obtain ⟨hgrant, htracks₁, howners⟩ :=
      tracks_step htracks (.setReady 1 false) rfl (by decide) (howner ▸ rfl)
    obtain ⟨hpoll, -, howners₁⟩ := tracks_step htracks₁ (.receive 1 3) rfl (by decide)
      ((howners 1).trans (howner ▸ rfl))
    have hvisits := visits_of_stuck (by rw [htracks₁.config]; exact hcounters ▸ rfl)
      (s := (s₀.step (.grant 1 false)).2) howner rfl
      (hpoll : _ = Outcome.refused (.handshakeStuck 1 4))
    obtain ⟨o, ho⟩ := Option.isSome_iff_exists.1
      ((howners₁ 1).trans ((howners 1).trans (howner ▸ rfl)))
    have hdrop := step_drop_eq ho
    have hzero : s₀.host.countersOf 1 = {} := by rw [Host.countersOf, hcounters]; rfl
    simp only [other, outcomes, after, List.foldl, hclaim]
    refine ⟨?_, ?_, ?_⟩
    · exact congrArg (List.cons Outcome.done) (congrArg₂ List.cons hgrant
        (congrArg₂ (fun a b => [a, b]) hpoll (congrArg Prod.fst hdrop)))
    · rw [hdrop]
      exact hvisits.entries.trans (congrArg Counters.entries hzero)
    · rw [hdrop]
      exact hvisits.exits.trans (congrArg Counters.exits hzero)
  obtain ⟨houtcomes, hentries, hexits⟩ := first
  obtain ⟨houtcomes', hentries', hexits'⟩ := second
  refine ⟨same, same', same.1.trans houtcomes, same'.1.trans houtcomes', ⟨?_, ?_⟩, ?_, ?_⟩
  · exact (congrArg (·.counters.entries) same.2).trans hentries
  · exact (congrArg (·.counters.exits) same.2).trans hexits
  · exact (congrArg (·.counters.entries) same'.2).trans hentries'
  · exact (congrArg (·.counters.exits) same'.2).trans hexits'

end Station
end LineExchange
