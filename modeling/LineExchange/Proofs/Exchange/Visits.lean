import LineExchange.Proofs.Exchange.Section

/-!
# LineExchange.Proofs.Exchange.Visits

What a call does to the gate of its core.

* `Trail`: all that can happen to a memory while calls go through a gate. The policy may change
  the control byte while it is asked, the memory may react to accesses that meet no control byte,
  and the host sets `busy` on a byte that lets it in and clears it again.
* `Visits p core n h h'`: the gate of `core` was passed `n` times on the way from `h` to `h'`. As
  many entries as exits were counted, and other cores' counters are as they were.
* `Exchange.passes_receive`, `Exchange.passes_transmit`: a call passes the gate once if it enters,
  however it goes on, and else not at all.
* `Exchange.visits_bringUp`: bringing up a core passes its gate once for each of its receives that
  entered.
-/

namespace LineExchange

open ControlByte (LetsIn setBusy bit isBusy)
open Memory (controlByte stored)

variable {M σ : Type} [Memory M]

/-- What happens to a memory while the gate of a core is passed `n` times under a policy. -/
inductive Trail (p : SpinPolicy σ) (l : Layout) (core : Nat) : Nat → M → M → Prop where
  | refl (m : M) : Trail p l core 0 m m
  /-- The memory reacts to accesses that meet no control byte. -/
  | reacts {n : Nat} {m m' m'' : M} : Trail p l core n m m' → Reacts l m' m'' →
    Trail p l core n m m''
  /-- The policy is asked until it gives up. -/
  | asked {n : Nat} {m m' : M} {b : UInt8} : Trail p l core n m m' →
    p.Asked (controlByte (l.workerAt core) m') b →
    Trail p l core n m (stored (l.workerAt core) b m')
  /-- The policy is asked until the host is let in; it sets `busy`, and clears it in the end. -/
  | passed {n : Nat} {m m' m'' : M} {b : UInt8} : Trail p l core n m m' →
    p.Asked (controlByte (l.workerAt core) m') b → LetsIn b →
    Reacts l (stored (l.workerAt core) (setBusy b true) m') m'' →
    Trail p l core (n + 1) m
      (stored (l.workerAt core) (setBusy (controlByte (l.workerAt core) m'') false) m'')

theorem Trail.trans {p : SpinPolicy σ} {l : Layout} {core n k : Nat} {m m' m'' : M}
    (h : Trail p l core n m m') (h' : Trail p l core k m' m'') : Trail p l core (n + k) m m'' := by
  induction h' with
  | refl => exact h
  | reacts _ hr ih => exact (ih h).reacts hr
  | asked _ hb ih => exact (ih h).asked hb
  | passed _ hb ho hr ih => exact (ih h).passed hb ho hr

/-- Whether neither the policy nor a reaction of the memory changes bit `i` of a control byte. -/
structure LeavesBit (M : Type) [Memory M] (p : SpinPolicy σ) (l : Layout) (core i : Nat) :
    Prop where
  policy : ∀ failed s b, bit (p.keepSpinning failed s b).2.2 i = bit b i
  memory : ∀ (m : M) (a : HostAccess), a.MissesGates l →
    bit (controlByte (l.workerAt core) (a.after m)) i = bit (controlByte (l.workerAt core) m) i

namespace LeavesBit

variable {p : SpinPolicy σ} {l : Layout} {core i : Nat}

theorem asked (h : LeavesBit M p l core i) {b c : UInt8} (hb : p.Asked b c) :
    bit c i = bit b i := by
  induction hb with
  | refl => rfl
  | tail _ hstep ih =>
    obtain ⟨failed, s, rfl⟩ := hstep
    exact (h.policy failed s _).trans ih

theorem reacts (h : LeavesBit M p l core i) {m m' : M} (hr : Reacts l m m') :
    bit (controlByte (l.workerAt core) m') i = bit (controlByte (l.workerAt core) m) i := by
  induction hr with
  | refl => rfl
  | tail _ hstep ih =>
    obtain ⟨a, ha, rfl⟩ := hstep
    exact (h.memory _ a ha).trans ih

end LeavesBit

theorem Reacts.size_eq [LawfulMemory M] {l : Layout} {m m' : M} (h : Reacts l m m') :
    Memory.size m' = Memory.size m := by
  induction h with
  | refl => rfl
  | tail _ hstep ih =>
    obtain ⟨a, -, rfl⟩ := hstep
    exact (LawfulMemory.size_after a _).trans ih

/-- The gate of `core` was passed `n` times on the way from `h` to `h'`. -/
structure Visits (p : SpinPolicy σ) (core n : Nat) (h h' : Host M) : Prop where
  config : h'.config = h.config
  counters_size : h'.counters.size = h.counters.size
  size : Memory.size h'.memory = Memory.size h.memory
  entries : (h'.countersOf core).entries = (h.countersOf core).entries + n
  exits : (h'.countersOf core).exits = (h.countersOf core).exits + n
  others : ∀ c, c ≠ core → h'.countersOf c = h.countersOf c
  trail : Trail p h.config.layout core n h.memory h'.memory
  /-- A bit of the control byte changes only if policy or memory change it. -/
  bits : ∀ i, LeavesBit M p h.config.layout core i →
    bit (controlByte (h.workerAt core) h'.memory) i = bit (controlByte (h.workerAt core) h.memory) i

namespace Visits

variable {p : SpinPolicy σ} {core n k : Nat} {h h' h'' : Host M}

theorem refl (h : Host M) : Visits p core 0 h h :=
  ⟨rfl, rfl, rfl, rfl, rfl, fun _ _ => rfl, .refl _, fun _ _ => rfl⟩

theorem trans (h₁ : Visits p core n h h') (h₂ : Visits p core k h' h'') :
    Visits p core (n + k) h h'' where
  config := h₂.config.trans h₁.config
  counters_size := h₂.counters_size.trans h₁.counters_size
  size := h₂.size.trans h₁.size
  entries := by rw [h₂.entries, h₁.entries, Nat.add_assoc]
  exits := by rw [h₂.exits, h₁.exits, Nat.add_assoc]
  others c hc := (h₂.others c hc).trans (h₁.others c hc)
  trail := h₁.trail.trans (h₁.config ▸ h₂.trail)
  bits i hi := by
    have hat : h'.workerAt core = h.workerAt core := by rw [Host.workerAt, h₁.config, Host.workerAt]
    have h₂i := h₂.bits i (h₁.config ▸ hi)
    rw [hat] at h₂i
    exact h₂i.trans (h₁.bits i hi)

end Visits

/-- What a call does at the gate of a core: it enters and leaves once, or never gets there. -/
structure Passes {α : Type} (p : SpinPolicy σ) (core : Nat) (entered : Bool) (r : Except Stop α)
    (h h' : Host M) : Prop where
  visits : Visits p core entered.toNat h h'
  free : entered = true → isBusy (controlByte (h.workerAt core) h'.memory) = false
  inside : entered = true → ∀ e, r = .error e → e.Inside
  outside : entered = false → ∃ e, r = .error e ∧
    (e.Outside ∨ ∃ f, e = .fault f ∧ Memory.size h.memory ≤ h.workerAt core)

namespace Passes

variable {α : Type} {p : SpinPolicy σ} {core : Nat} {entered : Bool} {h h' : Host M}

/-- Whoever has a result has entered. -/
theorem entered_of_ok {v : α} (hp : Passes p core entered (.ok v) h h') : entered = true := by
  cases entered with
  | true => rfl
  | false =>
    obtain ⟨e, he, -⟩ := hp.outside rfl
    cases he

/-- Whoever gave up at the gate has not. -/
theorem not_entered_of_stuck {k attempts : Nat}
    (hp : Passes (α := α) p core entered (.error (.refused (.handshakeStuck k attempts))) h h') :
    entered = false := by
  cases entered with
  | false => rfl
  | true => cases hp.inside rfl _ rfl

end Passes

namespace Visits

variable [LawfulMemory M] {p : SpinPolicy σ} {core : Nat} {h h' : Host M} {b : UInt8}

theorem of_asked {c : Counters} (hcore : core < h.counters.size)
    (hin : h.workerAt core < Memory.size h.memory) (hb : p.Asked (h.gateOf core).byte b)
    (hentries : c.entries = (h.countersOf core).entries)
    (hexits : c.exits = (h.countersOf core).exits) :
    Visits p core 0 h (h.withGate core ⟨b, c⟩) where
  config := rfl
  counters_size := Array.size_setIfInBounds
  size := LawfulMemory.size_stored b hin
  entries := by rw [Host.countersOf_withGate hcore, if_pos rfl, hentries, Nat.add_zero]
  exits := by rw [Host.countersOf_withGate hcore, if_pos rfl, hexits, Nat.add_zero]
  others d hd := by rw [Host.countersOf_withGate hcore, if_neg hd]
  trail := .asked (.refl _) hb
  bits i hi := by
    show bit (controlByte _ (stored _ b h.memory)) i = _
    rw [LawfulMemory.controlByte_stored b hin, if_pos rfl]
    exact hi.asked hb

/-- The host was let in, the memory reacted, and the host left again. -/
theorem of_passed {c : Counters} (hcore : core < h.counters.size)
    (hin : h.workerAt core < Memory.size h.memory) (hb : p.Asked (h.gateOf core).byte b)
    (hopen : LetsIn b) (hentries : c.entries = (h.countersOf core).entries + 1)
    (hexits : c.exits = (h.countersOf core).exits) (hconfig : h'.config = h.config)
    (hcounters : h'.counters = (h.withGate core ⟨setBusy b true, c⟩).counters)
    (hmem : Reacts h.config.layout (h.withGate core ⟨setBusy b true, c⟩).memory h'.memory) :
    Visits p core 1 h (h'.withGate core (h'.gateOf core).leave) ∧
      isBusy (controlByte (h.workerAt core) (h'.withGate core (h'.gateOf core).leave).memory) =
        false := by
  have hat : h'.workerAt core = h.workerAt core := by rw [Host.workerAt, hconfig, Host.workerAt]
  have hsize : Memory.size h'.memory = Memory.size h.memory :=
    hmem.size_eq.trans (LawfulMemory.size_stored _ hin)
  have hin' : h'.workerAt core < Memory.size h'.memory := by rw [hat, hsize]; exact hin
  have hsize' : h'.counters.size = h.counters.size := by
    rw [hcounters]; exact Array.size_setIfInBounds
  have hcore' : core < h'.counters.size := hsize' ▸ hcore
  have hcount (d : Nat) : h'.countersOf d = if d = core then c else h.countersOf d := by
    rw [← Host.countersOf_withGate (g := ⟨setBusy b true, c⟩) hcore, Host.countersOf, hcounters]
    rfl
  have hbyte : controlByte (h.workerAt core) (h'.withGate core (h'.gateOf core).leave).memory =
      setBusy (controlByte (h.workerAt core) h'.memory) false := by
    show controlByte _ (stored (h'.workerAt core) _ h'.memory) = _
    rw [LawfulMemory.controlByte_stored _ hin', ← hat, if_pos rfl]
    rfl
  refine ⟨⟨hconfig, ?_, ?_, ?_, ?_, fun d hd => ?_, ?_, fun i hi => ?_⟩, ?_⟩
  · exact Array.size_setIfInBounds.trans hsize'
  · exact (LawfulMemory.size_stored _ hin').trans hsize
  · rw [Host.countersOf_withGate hcore', if_pos rfl]
    show (h'.countersOf core).entries = _
    rw [hcount, if_pos rfl, hentries]
  · rw [Host.countersOf_withGate hcore', if_pos rfl]
    show (h'.countersOf core).exits + 1 = _
    rw [hcount, if_pos rfl, hexits]
  · rw [Host.countersOf_withGate hcore', if_neg hd, hcount, if_neg hd]
  · have passed : Trail p h.config.layout core 1 h.memory _ := .passed (.refl _) hb hopen hmem
    show Trail p h.config.layout core 1 h.memory
      (stored (h'.workerAt core) (setBusy (controlByte (h'.workerAt core) h'.memory) false)
        h'.memory)
    rw [hat]
    exact passed
  · rw [hbyte, ControlByte.bit_setBusy]
    have hinside : bit (controlByte (h.workerAt core) h'.memory) i = bit (setBusy b true) i := by
      refine (hi.reacts hmem).trans ?_
      show bit (controlByte (h.workerAt core) (stored (h.workerAt core) _ h.memory)) i = _
      rw [LawfulMemory.controlByte_stored _ hin, if_pos rfl]
    have hasked : bit b i = bit (controlByte (h.workerAt core) h.memory) i := hi.asked hb
    rw [hinside, ControlByte.bit_setBusy, ← hasked]
    by_cases hbusy : i = 1
    · rw [if_pos hbusy, hbusy, ← ControlByte.isBusy_eq, hopen.2]
    · rw [if_neg hbusy, if_neg hbusy]
  · rw [hbyte, ControlByte.isBusy_setBusy]

end Visits

theorem Visits.of_inside [LawfulMemory M] {p : SpinPolicy σ} {core : Nat} {x y : Exchange M}
    (h : x.Inside y) : Visits p core 0 x.host y.host where
  config := h.config
  counters_size := by rw [h.counters]
  size := h.memory.size_eq
  entries := by rw [Host.countersOf, h.counters]; rfl
  exits := by rw [Host.countersOf, h.counters]; rfl
  others c _ := by rw [Host.countersOf, h.counters]; rfl
  trail := .reacts (.refl _) h.memory
  bits i hi := hi.reacts h.memory

namespace Exchange

variable [LawfulMemory M] {α β : Type} {x : Exchange M} {p : SpinPolicy σ} {s : σ}

/-- Once inside, a call whose only critical section is `body` leaves from where `body` ends. -/
theorem ends_section {body : Step M α} {k : α → Step M β}
    (hin : x.host.workerAt x.owner.core < Memory.size x.host.memory)
    (hbody : Keeps (Inside x) body) (hraises : Raises Stop.Inside body)
    (hk : ∀ v h, Keeps (fun y => y.host = h ∧ y.owner.core = x.owner.core) (k v))
    (hkraises : ∀ v, Raises Stop.Inside (k v)) :
    ∃ r y z, Ends (guarded body >>= k) x r y ∧ (∀ e, r = .error e → e.Inside) ∧ Inside x z ∧
      y.host = z.host.withGate x.owner.core (z.host.gateOf x.owner.core).leave ∧
      y.owner.core = x.owner.core := by
  have hr := Ends.intro body x
  generalize (ExceptT.run body).run x = end_ at hr
  obtain ⟨r, z⟩ := end_
  have hz : Inside x z := hbody.out hr (.refl x)
  have hat : z.host.workerAt z.owner.core = x.host.workerAt x.owner.core := by
    rw [Host.workerAt, hz.config, hz.core, Host.workerAt]
  have guard := ends_guarded hr (by rw [hat, hz.memory.size_eq]; exact hin)
  rw [hz.core] at guard
  cases r with
  | error e =>
    exact ⟨_, _, z, .bind_error guard, fun e' he => Except.error.inj he ▸ hraises.out hr, hz, rfl,
      hz.core⟩
  | ok v =>
    have rest := Ends.intro (k v) { z with
      host := z.host.withGate x.owner.core (z.host.gateOf x.owner.core).leave }
    obtain ⟨hhost, howner⟩ := (hk v _).out rest ⟨rfl, hz.core⟩
    refine ⟨_, _, z, guard.bind rest, fun e he => ?_, hz, hhost, howner⟩
    exact (hkraises v).out (he ▸ rest)

/-- A call whose only critical section is `body` passes the gate once if it enters. -/
theorem passes_entering {body : Step M α} {k : α → Step M β}
    (hcore : x.owner.core < x.host.counters.size)
    (hbody : ∀ y : Exchange M, y.host.config = x.host.config → Keeps (Inside y) body)
    (hraises : Raises Stop.Inside body)
    (hk : ∀ v h, Keeps (fun y => y.host = h ∧ y.owner.core = x.owner.core) (k v))
    (hkraises : ∀ v, Raises Stop.Inside (k v)) :
    let y := x.entering p s (guarded body >>= k)
    Passes p x.owner.core (x.enter p s).1.isOk y.1 x.host y.2.2.host ∧
      y.2.2.owner.core = x.owner.core := by
  rcases Nat.lt_or_ge (x.host.workerAt x.owner.core) (Memory.size x.host.memory) with hin | hout
  · have spun := Gate.spun_enter (p := p) (x.host.gateOf x.owner.core) s
    unfold entering
    rw [enter_eq hin]
    generalize (x.host.gateOf x.owner.core).enter p s = tries at spun ⊢
    obtain ⟨r, s', g⟩ := tries
    dsimp only at spun ⊢
    cases spun with
    | stuck attempts hb =>
      exact ⟨⟨.of_asked hcore hin hb rfl rfl, nofun, nofun,
        fun _ => ⟨_, rfl, .inl (.handshakeStuck ..)⟩⟩, rfl⟩
    | endless hb =>
      exact ⟨⟨.of_asked hcore hin hb rfl rfl, nofun, nofun, fun _ => ⟨_, rfl, .inl .endless⟩⟩, rfl⟩
    | @entered b spins hb hopen =>
      have hsize : Memory.size (stored (x.host.workerAt x.owner.core) (setBusy b true)
          x.host.memory) = Memory.size x.host.memory := LawfulMemory.size_stored _ hin
      let c := x.host.countersOf x.owner.core
      let inner : Exchange M := ⟨x.host.withGate x.owner.core
        ⟨setBusy b true, c.entries + 1, c.exits, c.spins + spins⟩, x.owner⟩
      obtain ⟨r, y, z, hend, hr, hz, hhost, howner⟩ :=
        ends_section (x := inner) (hsize.symm ▸ hin) (hbody inner rfl) hraises hk hkraises
      obtain ⟨visits, free⟩ := Visits.of_passed (c := ⟨c.entries + 1, c.exits, c.spins + spins⟩)
        hcore hin hb hopen rfl rfl hz.config hz.counters hz.memory
      have hrun : Step.run (guarded body >>= k) inner = (r, y) := hend
      change y.host = _ at hhost
      rw [← hhost] at visits free
      show Passes p x.owner.core true (Step.run (guarded body >>= k) inner).1 x.host
        (Step.run (guarded body >>= k) inner).2.host ∧
          (Step.run (guarded body >>= k) inner).2.owner.core = x.owner.core
      rw [hrun]
      exact ⟨⟨visits, fun _ => free, fun _ => hr, nofun⟩, howner⟩
  · obtain ⟨f, hf⟩ := enter_outside (x := x) (p := p) (s := s) hout
    unfold entering
    rw [hf]
    exact ⟨⟨.refl _, nofun, nofun, fun _ => ⟨_, rfl, .inr ⟨f, rfl, hout⟩⟩⟩, rfl⟩

/-- Whether a call on the owner's core gets past the gate: the core is mapped and lets in. -/
def entersGate (p : SpinPolicy σ) (s : σ) (x : Exchange M) : Bool :=
  (x.host.coreError? x.owner.core).isNone && (x.enter p s).1.isOk

omit [LawfulMemory M] in
theorem transmitWith_eq {d : Descriptor} :
    (x.transmitWith p s d).1 = (x.transmitStaged p s d).1 ∧
      (x.transmitWith p s d).2.2.host = (x.transmitStaged p s d).2.2.host := by
  unfold transmitWith
  rcases x.transmitStaged p s d with ⟨⟨_ | _ | _⟩ | _, _, _⟩ <;> exact ⟨rfl, rfl⟩

variable (hcounters : x.host.counters.size = x.host.config.numCores)
include hcounters

/-- A receive passes the gate once if it enters, and else not at all. -/
theorem passes_receive :
    let y := x.receiveWith p s
    Passes p x.owner.core (x.entersGate p s) y.1 x.host y.2.2.host ∧
      y.2.2.owner.core = x.owner.core := by
  unfold receiveWith entersGate
  cases hcore : x.host.coreError? x.owner.core with
  | some e =>
    exact ⟨⟨.refl _, nofun, nofun, fun _ => ⟨_, rfl, .inl (.of_coreError? hcore)⟩⟩, rfl⟩
  | none =>
    refine passes_entering (hcounters.symm ▸ Host.lt_of_coreError? hcore) (fun y hy => ?_)
      raises_poll (fun v h => ?_) fun v => ?_
    · exact keeps_poll (hy.symm ▸ x.host.ordered)
    · cases v with
      | none => exact .pure _
      | some r => exact (keeps_count _).bind fun _ => .pure _
    · cases v with
      | none => exact .pure _
      | some r => exact (Raises.modify _).bind fun _ => .pure _

/-- A transmit passes the gate once if it enters, and else not at all. -/
theorem passes_transmit (d : Descriptor) :
    let y := x.transmitWith p s d
    Passes p x.owner.core
      (decide (d.payload.size ≤ x.host.config.layout.payloadCapacity) && x.entersGate p s)
      y.1 x.host y.2.2.host := by
  dsimp only
  rw [transmitWith_eq.1, transmitWith_eq.2]
  unfold transmitStaged entersGate
  cases hcore : x.host.coreError? x.owner.core with
  | some e =>
    rw [Option.isNone_some, Bool.false_and, Bool.and_false]
    exact ⟨.refl _, nofun, nofun, fun _ => ⟨_, rfl, .inl (.of_coreError? hcore)⟩⟩
  | none =>
    dsimp only
    by_cases hfits : x.host.config.layout.payloadCapacity < d.payload.size
    · rw [if_pos hfits, decide_eq_false (Nat.not_le.2 hfits), Bool.false_and]
      exact ⟨.refl _, nofun, nofun, fun _ => ⟨_, rfl, .inl (.payloadTooLarge ..)⟩⟩
    · rw [if_neg hfits, decide_eq_true (Nat.not_lt.1 hfits), Bool.true_and]
      refine (passes_entering (hcounters.symm ▸ Host.lt_of_coreError? hcore) (fun y hy => ?_)
        (raises_send d) (fun v h => ?_) fun v => ?_).1
      · exact keeps_send (hy.symm ▸ x.host.ordered) (hy.symm ▸ Nat.not_lt.1 hfits)
      · cases v with
        | ok _ => exact keeps_count _
        | error e => exact (keeps_count _).bind fun _ => .throw _
      · cases v with
        | ok _ => exact .modify _
        | error e => exact (Raises.modify _).bind fun _ => .throw (.unsupportedTransmit e)

omit hcounters in
/-- How many receives of a drain enter the gate. -/
def drainPasses (p : SpinPolicy Unit) : (fuel : Nat) → Exchange M → Nat
  | 0, _ => 0
  | fuel + 1, x =>
    (x.entersGate p ()).toNat +
      match Step.run (receive p) x with
      | (.ok (some _), y) => drainPasses p fuel y
      | _ => 0

omit hcounters in
/-- How many receives of a bring-up enter the gate. -/
def bringUpPasses (p : SpinPolicy Unit) (fuel : Nat) (x : Exchange M) : Nat :=
  match x.host.coreError? x.owner.core, Step.run invalidateLines x with
  | none, (.ok (), y) => drainPasses p fuel y
  | _, _ => 0

theorem visits_drain {p : SpinPolicy Unit} (fuel drained : Nat) :
    let y := Step.run (drain p fuel drained) x
    Visits p x.owner.core (drainPasses p fuel x) x.host y.2.host ∧
      ∀ n, y.1 = .ok n → drained + drainPasses p fuel x = n + 1 := by
  induction fuel generalizing x drained with
  | zero => exact ⟨.refl _, nofun⟩
  | succ fuel ih =>
    obtain ⟨passes, howner⟩ := passes_receive (p := p) (s := ()) hcounters
    have entered {r : Option Received} (hr : (x.receiveWith p ()).1 = .ok r) :
        x.entersGate p () = true := by
      cases h : x.entersGate p () with
      | true => rfl
      | false =>
        obtain ⟨e, he, -⟩ := passes.outside h
        rw [hr] at he
        cases he
    have receive : Ends (receive p) x (x.receiveWith p ()).1 (x.receiveWith p ()).2.2 := rfl
    have hrun : Step.run (Exchange.receive p) x = _ := receive
    unfold drainPasses
    rw [hrun]
    revert entered passes howner receive
    generalize (x.receiveWith p ()).1 = r
    generalize (x.receiveWith p ()).2.2 = z
    intro passes howner entered receive
    cases r with
    | error e =>
      have hdrain : Step.run (drain p (fuel + 1) drained) x =
          (.error e, z) := Ends.bind_error receive
      dsimp only
      rw [hdrain]
      exact ⟨passes.visits, nofun⟩
    | ok o =>
      cases o with
      | none =>
        have hdrain : Step.run (drain p (fuel + 1) drained) x = (.ok drained, z) :=
          Ends.bind receive (.pure _ _)
        dsimp only
        rw [hdrain]
        refine ⟨passes.visits, fun n hn => ?_⟩
        cases hn
        rw [entered rfl]
        rfl
      | some r =>
        have hdrain : Step.run (drain p (fuel + 1) drained) x =
            Step.run (drain p fuel (drained + 1)) z := Ends.bind receive (.intro _ z)
        obtain ⟨visits, hn⟩ := ih (x := z)
          (by rw [passes.visits.counters_size, hcounters, passes.visits.config]) (drained + 1)
        dsimp only
        rw [hdrain]
        rw [howner] at visits
        refine ⟨passes.visits.trans visits, fun n h => ?_⟩
        have := hn n h
        rw [entered rfl]
        show drained + (1 + drainPasses p fuel z) = n + 1
        omega

/-- Bringing up a core passes its gate once for each receive that entered: one for each transaction
that was dropped, and one that found nothing. -/
theorem visits_bringUp {p : SpinPolicy Unit} (fuel : Nat) :
    let y := Step.run (bringUp p fuel) x
    Visits p x.owner.core (bringUpPasses p fuel x) x.host y.2.host ∧
      ∀ n, y.1 = .ok n → bringUpPasses p fuel x = n + 1 := by
  unfold bringUpPasses
  cases hcore : x.host.coreError? x.owner.core with
  | some e =>
    have hrun : Step.run (bringUp p fuel) x = (.error (.refused e), x) :=
      (ends_checkCore_refused hcore).bind_error
    rw [hrun]
    exact ⟨.refl _, nofun⟩
  | none =>
    have check := ends_checkCore hcore
    cases hlines : Step.run invalidateLines x with | mk r y =>
    have lines : Ends invalidateLines x r y := hlines
    have hy : x.Inside y := (keeps_invalidateLines x.host.ordered).out lines (.refl x)
    have visits : Visits p x.owner.core 0 x.host y.host := .of_inside hy
    cases r with
    | error e =>
      have hrun : Step.run (bringUp p fuel) x = (.error e, y) := check.bind lines.bind_error
      rw [hrun]
      exact ⟨visits, nofun⟩
    | ok _ =>
      have hrun : Step.run (bringUp p fuel) x = Step.run (drain p fuel 0) y :=
        check.bind (lines.bind (.intro _ y))
      obtain ⟨visits', hn⟩ := visits_drain (x := y) (by rw [hy.counters, hcounters, hy.config])
        (p := p) fuel 0
      rw [hrun]
      rw [hy.core] at visits'
      have both := visits.trans visits'
      rw [Nat.zero_add] at both
      exact ⟨both, fun n h => (Nat.zero_add _).symm.trans (hn n h)⟩

end Exchange
end LineExchange
