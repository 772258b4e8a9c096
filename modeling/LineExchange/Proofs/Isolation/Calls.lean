import LineExchange.Proofs.Isolation.Memory
import LineExchange.Proofs.Isolation.Scoped

/-!
# LineExchange.Proofs.Isolation.Calls

The calls of an owner keep to its core (`Call.confined`). Inside its critical section a call only
makes accesses to the window of the core; outside of it the call looks at the settings, which all
cores share and nobody changes, and at the gate of the core.
-/

namespace LineExchange

variable {α σ : Type} {c : Config} {core : Nat}

namespace Host

/-- Two hosts look the same from a core. -/
structure Alike (c : Config) (core : Nat) (h h' : Host Backing) : Prop where
  memory : h.memory.Alike c.layout core h'.memory
  counters : h.counters[core]? = h'.counters[core]?
  claimed : h.claimed[core]? = h'.claimed[core]?

/-- A host with the settings `c` whose device, if there is one, is tidy. -/
structure Tidy (c : Config) (h : Host Backing) : Prop where
  config : h.config = c
  memory : h.memory.Tidy c.layout

theorem Alike.refl (h : Host Backing) : Alike c core h h := ⟨.refl _, rfl, rfl⟩

theorem Alike.symm {h h' : Host Backing} (a : Alike c core h h') : Alike c core h' h :=
  ⟨a.memory.symm, a.counters.symm, a.claimed.symm⟩

theorem Alike.trans {h h' h'' : Host Backing} (a : Alike c core h h') (a' : Alike c core h' h'') :
    Alike c core h h'' :=
  ⟨a.memory.trans a'.memory, a.counters.trans a'.counters, a.claimed.trans a'.claimed⟩

def scope (c : Config) : Nat → Scope (Host Backing) :=
  .ofCore (Tidy c) (Alike c) (fun _ => .refl) .trans

theorem Alike.countersOf {h h' : Host Backing} (a : Alike c core h h') :
    h.countersOf core = h'.countersOf core := by
  simp only [Host.countersOf, Array.getD_eq_getD_getElem?, a.counters]

theorem Alike.isClaimed {h h' : Host Backing} (a : Alike c core h h') :
    h.isClaimed core = h'.isClaimed core := by
  simp only [Host.isClaimed, Array.getD_eq_getD_getElem?, a.claimed]

theorem Tidy.coreError? {h h' : Host Backing} (ht : Tidy c h) (ht' : Tidy c h') (k : Nat) :
    h.coreError? k = h'.coreError? k := by
  simp only [Host.coreError?, ht.config, ht'.config]

theorem local_onMemory {a : Access Backing α} (ha : Local (Backing.scope c.layout core) a) :
    Local (scope c core) (onMemory a) := by
  refine .onPart ?_ ha
  constructor
  · intro h ht
    exact ht.memory
  · intro h m ht hm
    exact ⟨ht.config, hm⟩
  · intro h m _ hrest other hne
    exact ⟨hrest other hne, rfl, rfl⟩
  · intro h h' a
    exact a.memory
  · intro h h' m m' a hm
    exact ⟨hm, a.counters, a.claimed⟩

theorem getElem?_set_congr {β : Type} {as bs : Array β} (heq : as[core]? = bs[core]?) (v : β) :
    (as.setIfInBounds core v)[core]? = (bs.setIfInBounds core v)[core]? := by
  have hlt : core < as.size ↔ core < bs.size := by
    rw [← Nat.not_le, ← Nat.not_le, ← Array.getElem?_eq_none_iff, heq,
      Array.getElem?_eq_none_iff]
  simp only [Array.getElem?_setIfInBounds, if_true, hlt]

/-- What is stored for a core is not seen from any other. -/
theorem local_setCounters (counters : Counters) : Local (scope c core)
    (modify fun host => { host with counters := host.counters.setIfInBounds core counters } :
      Access (Host Backing) PUnit) := by
  refine .modify ?_ ?_ ?_
  · intro h ht
    exact ⟨ht.config, ht.memory⟩
  · intro h _ other hne
    exact ⟨.refl _, (Array.getElem?_setIfInBounds_ne (Ne.symm hne)).symm, rfl⟩
  · intro h h' _ _ a
    exact ⟨a.memory, getElem?_set_congr a.counters _, a.claimed⟩

/-- So is whether it is claimed. -/
theorem confined_setClaimed (v : Bool) (b : α) :
    Confined (scope c core) fun h => (b, h.setClaimed core v) := by
  constructor
  · intro h ht
    exact ⟨ht.config, ht.memory⟩
  · intro h _ other hne
    exact ⟨.refl _, rfl, (Array.getElem?_setIfInBounds_ne (Ne.symm hne)).symm⟩
  · intro h h' _ _ a
    exact ⟨rfl, a.memory, a.counters, getElem?_set_congr a.claimed _⟩

theorem local_onGate (hl : c.layout.Ordered) (f : Gate → α × Gate) :
    Local (scope c core) (onGate core f : Access (Host Backing) α) := by
  have look : Local (scope c core) (gate core : Access (Host Backing) Gate) := by
    refine .get_bind ?_ ?_
    · intro h h' ht ht' a
      simp only [workerAt, ht.config, ht'.config, a.countersOf]
    · intro h ht
      rw [workerAt, ht.config]
      exact (local_onMemory (Backing.local_load hl)).bind fun _ => .pure _
  have store (g : Gate) : Local (scope c core) (setGate core g : Access (Host Backing) Unit) := by
    refine .get_bind ?_ ?_
    · intro h h' ht ht' _
      simp only [workerAt, ht.config, ht'.config]
    · intro h ht
      rw [workerAt, ht.config]
      exact (local_onMemory (Backing.local_store hl _)).bind fun _ => local_setCounters _
  exact look.bind fun g => (store _).bind fun _ => .pure _

/-- How a claim ends: the core may not be mapped, it may be taken, or there may be no room. -/
def claimed? (core : Nat) (next : Parity) (e? : Option ExchangeError) (taken : Bool)
    (config : Config) (h : Host Backing) : Except Fault (Except ExchangeError Owner) × Host Backing :=
  match e? with
  | some e => (.ok (.error e), h)
  | none =>
    if taken then (.ok (.error (.coreInUse core)), h)
    else if config.rxBufferSize < storageLimit ∧ config.txBufferSize < storageLimit then
      (.ok (.ok (.synced core config next)), h.setClaimed core true)
    else (.error .outOfStorage, h)

theorem claim_run (h : Host Backing) (next : Parity) : (ExceptT.run (claim core next)).run h =
    claimed? core next (h.coreError? core) (h.isClaimed core) h.config h := by
  refine (Ends.bind (.get h) ?_ : Ends (claim core next) h _ _)
  cases hcore : h.coreError? core with
  | some e => exact .pure _ h
  | none =>
    dsimp only
    by_cases htaken : h.isClaimed core = true
    · rw [if_pos htaken, if_pos htaken]
      exact .pure _ h
    · rw [if_neg htaken, if_neg htaken]
      unfold Access.require
      by_cases hroom : h.config.rxBufferSize < storageLimit ∧ h.config.txBufferSize < storageLimit
      · rw [if_pos hroom, if_pos (decide_eq_true hroom)]
        exact .bind (.pure _ h) (.bind (.set _ h) (.pure _ _))
      · rw [if_neg hroom, if_neg (by simpa using hroom)]
        exact .bind_error (.throw _ h)

theorem local_claim (next : Parity) : Local (scope c core)
    (claim core next : Access (Host Backing) (Except ExchangeError Owner)) := by
  unfold Local
  simp only [claim_run]
  refine .choose (c := fun h : Host Backing => (h.coreError? core, h.isClaimed core, h.config))
    (f := fun k => claimed? core next k.1 k.2.1 k.2.2) ?_ ?_
  · intro h h' ht ht' a
    rw [ht.coreError? ht', a.isClaimed, ht.config, ht'.config]
  · intro h _
    unfold claimed?
    split
    · exact .const _
    · split
      · exact .const _
      · split
        · exact confined_setClaimed true _
        · exact .const _

end Host

namespace Exchange

/-- The owner of the core, at work on a tidy host. -/
structure Tidy (c : Config) (core : Nat) (x : Exchange Backing) : Prop where
  host : x.host.Tidy c
  core : x.owner.core = core

/-- The owner is the same, and the hosts look the same from its core. -/
structure Alike (c : Config) (core : Nat) (x y : Exchange Backing) : Prop where
  host : x.host.Alike c core y.host
  owner : x.owner = y.owner

def scope (c : Config) (core : Nat) : Scope (Exchange Backing) where
  Holds := Tidy c core
  Own := Alike c core
  Rest x y := (Host.scope c core).Rest x.host y.host
  refl x := (Host.scope c core).refl x.host
  trans := (Host.scope c core).trans

theorem Tidy.config_eq {x y : Exchange Backing} (hx : Tidy c core x) (hy : Tidy c core y) :
    x.host.config = y.host.config := hx.host.config.trans hy.host.config.symm

theorem same_core (x y : Exchange Backing) (_ : (scope c core).Holds x)
    (_ : (scope c core).Holds y) (h : (scope c core).Own x y) : x.owner.core = y.owner.core :=
  congrArg Owner.core h.owner

theorem same_config (x y : Exchange Backing) (hx : (scope c core).Holds x)
    (hy : (scope c core).Holds y) (_ : (scope c core).Own x y) : x.host.config = y.host.config :=
  hx.config_eq hy

theorem confined_onHost {β : Type} {f : Host Backing → β × Host Backing}
    (hf : Confined (Host.scope c core) f) :
    Confined (scope c core) fun x => ((f x.host).1, { x with host := (f x.host).2 }) := by
  constructor
  · intro x hx
    exact ⟨hf.holds _ hx.host, hx.core⟩
  · intro x hx
    exact hf.rest _ hx.host
  · intro x y hx hy h
    obtain ⟨heq, hown⟩ := hf.own _ _ hx.host hy.host h.host
    exact ⟨heq, hown, h.owner⟩

theorem local_onHost {a : Access (Host Backing) α} (ha : Local (Host.scope c core) a) :
    Local (scope c core) (onHost a : Step Backing α) :=
  Confined.map (confined_onHost ha) (Except.mapError Stop.fault)

theorem local_onMemory {a : Access Backing α} (ha : Local (Backing.scope c.layout core) a) :
    Local (scope c core) (onMemory a : Step Backing α) :=
  local_onHost (Host.local_onMemory ha)

theorem local_setOwner {f : Owner → Owner} (hf : ∀ o, (f o).core = o.core) :
    Local (scope c core)
      (modify fun x => { x with owner := f x.owner } : Step Backing PUnit) := by
  refine .modify ?_ ?_ ?_
  · intro x hx
    exact ⟨hx.host, (hf _).trans hx.core⟩
  · intro x _
    exact (Host.scope c core).refl x.host
  · intro x y _ _ h
    exact ⟨h.host, congrArg f h.owner⟩

theorem local_count (f : Stats → Stats) : Local (scope c core) (count f : Step Backing Unit) :=
  local_setOwner (f := fun o => { o with stats := f o.stats }) fun _ => rfl

theorem local_toggle (d : Direction) : Local (scope c core) (toggle d : Step Backing Unit) :=
  local_setOwner (f := fun o => { o with next := o.next.toggle d }) fun _ => rfl

theorem local_fillBuffer (start : Nat) (data : Bytes) :
    Local (scope c core) (fillBuffer start data : Step Backing Unit) :=
  local_setOwner (f := fun o => { o with rxBuffer := o.rxBuffer.patch start data }) fun _ => rfl

theorem local_checkCore : Local (scope c core) (checkCore : Step Backing Unit) := by
  refine .get_bind ?_ ?_
  · intro x y hx hy h
    rw [hx.host.coreError? hy.host, h.owner]
  · intro x _
    split
    · exact .throw _
    · exact .pure _

theorem local_resync (next : Parity) : Local (scope c core) (resync next : Step Backing Unit) :=
  local_checkCore.bind fun _ =>
    local_setOwner (f := fun o => { o with next }) fun _ => rfl

theorem local_prepare (kind : TransactionKind) :
    Local (scope c core) (prepare kind : Step Backing Descriptor) := by
  have hrun (x : Exchange Backing) : (ExceptT.run (prepare kind)).run x = _ := ends_prepare x kind
  constructor
  · intro x hx
    rw [hrun]
    exact ⟨hx.host, hx.core⟩
  · intro x _
    rw [hrun]
    exact (Host.scope c core).refl x.host
  · intro x y hx hy h
    rw [hrun, hrun, hx.config_eq hy]
    exact ⟨rfl, h.host, congrArg (fun o : Owner => { o with txBuffer := none }) h.owner⟩

variable (hl : c.layout.Ordered)
include hl

theorem local_readControl (parity : Bool) : Local (scope c core)
    (readLine (c.layout.controlAt core .rx parity) : Step Backing Line) :=
  Local.map (local_onMemory (Backing.local_read hl (.control hl core .rx parity))) _

theorem local_poll : Local (scope c core) (poll : Step Backing (Option Received)) := by
  refine .get_bind ?_ ?_
  · intro x y hx hy h
    simp only [rxLimit, hx.config_eq hy, h.owner]
  · intro x hx
    rw [hx.host.config, hx.core]
    refine (local_readControl hl _).bind fun line => (local_toggle .rx).bind fun _ => ?_
    dsimp only
    split
    · split
      · exact .throw _
      · next hfits =>
        have hcap := c.layout.payloadCapacity_eq hl
        have hlen : (c.format.decode line).length - inlineSize ≤ c.layout.overflowSize := by
          unfold rxLimit at hfits
          rw [hx.host.config] at hfits
          omega
        have finish : Local (scope c core) (get >>= fun z : Exchange Backing =>
            pure (some (Received.mk (c.format.decode line).transaction
              (z.owner.rxBuffer.slice 0 (c.format.decode line).length))) : Step Backing _) := by
          refine .get_bind ?_ fun _ _ => .pure _
          intro z z' _ _ h
          rw [h.owner]
        refine (local_fillBuffer 0 _).bind fun _ => ?_
        split
        · refine (local_onMemory (Backing.local_read hl (.overflow hl core .rx hlen))).bind ?_
          intro data
          exact (local_fillBuffer _ data).bind fun _ => finish
        · exact finish
    · exact (local_count _).bind fun _ => .pure _

theorem local_writeStaged {d : Descriptor} (line : Line)
    (hd : d.payload.size ≤ c.layout.payloadCapacity) :
    Local (scope c core) (writeStaged d line : Step Backing Unit) := by
  refine .get_bind ?_ ?_
  · intro x y hx hy h
    rw [hx.config_eq hy, h.owner]
  · intro x hx
    rw [hx.host.config, hx.core]
    have control : Local (scope c core) (onMemory (Memory.write
        (c.layout.controlAt core .tx x.owner.next.tx) line.bytes) : Step Backing Unit) := by
      refine local_onMemory (Backing.local_write hl ?_)
      rw [line.size_bytes]
      exact .control hl core .tx _
    dsimp only
    split
    · refine .bind (local_onMemory (Backing.local_write hl ?_)) fun _ => control
      refine .overflow hl core .tx ?_
      rw [c.layout.payloadCapacity_eq hl] at hd
      rw [Bytes.size_slice]
      omega
    · exact control

theorem local_ringDoorbell : Local (scope c core) (ringDoorbell : Step Backing Unit) := by
  refine (local_toggle .tx).bind fun _ => .get_bind ?_ ?_
  · intro x y hx hy h
    rw [hx.config_eq hy, h.owner]
  · intro x hx
    rw [hx.host.config, hx.core]
    exact local_onMemory (Backing.local_touch hl (Layout.Within.control hl core .tx _).starts)

theorem local_send {d : Descriptor} (hd : d.payload.size ≤ c.layout.payloadCapacity) :
    Local (scope c core) (send d : Step Backing (Except EncodeError Unit)) := by
  refine .get_bind ?_ ?_
  · intro x y hx hy _
    rw [hx.config_eq hy]
  · intro x _
    split
    · exact (local_writeStaged hl _ hd).bind fun _ => (local_ringDoorbell hl).bind fun _ => .pure _
    · exact (local_ringDoorbell hl).bind fun _ => .pure _

theorem local_guarded {body : Step Backing α} (hbody : Local (scope c core) body) :
    Local (scope c core) (guarded body) := by
  refine local_guarded_of same_core hbody ?_
  intro x hx
  rw [hx.core]
  exact local_onHost (Host.local_onGate hl _)

theorem local_receiveEntered :
    Local (scope c core) (receiveEntered : Step Backing (Option Received)) := by
  refine (local_guarded hl (local_poll hl)).bind fun r => ?_
  split
  · exact .pure _
  · exact (local_count _).bind fun _ => .pure _

theorem local_transmitEntered {d : Descriptor} (hd : d.payload.size ≤ c.layout.payloadCapacity) :
    Local (scope c core) (transmitEntered d : Step Backing Unit) := by
  refine (local_guarded hl (local_send hl hd)).bind fun r => ?_
  split
  · exact local_count _
  · exact (local_count _).bind fun _ => .throw _

theorem confined_enter (p : SpinPolicy σ) (s : σ) :
    Confined (scope c core) fun x => paired (x.enter p s) := by
  refine confined_enter_of same_core ?_
  intro x hx
  rw [hx.core]
  exact confined_onHost (Host.local_onGate hl _)

theorem confined_entering (p : SpinPolicy σ) (s : σ) {rest : Step Backing α}
    (hrest : Local (scope c core) rest) :
    Confined (scope c core) fun x => paired (x.entering p s rest) :=
  confined_entering_of (confined_enter hl p s) hrest

theorem confined_receiveWith (p : SpinPolicy σ) (s : σ) :
    Confined (scope c core) fun x => paired (x.receiveWith p s) :=
  confined_receiveWith_of same_core same_config (confined_entering hl p s (local_receiveEntered hl))

theorem local_receive (p : SpinPolicy Unit) :
    Local (scope c core) (receive p : Step Backing (Option Received)) :=
  Confined.map (confined_receiveWith hl p ()) Prod.fst

theorem local_drain (p : SpinPolicy Unit) (fuel drained : Nat) :
    Local (scope c core) (drain p fuel drained : Step Backing Nat) :=
  local_drain_of (local_receive hl p) fuel drained

omit hl in
theorem local_invalidateLines :
    Local (scope c core) (invalidateLines : Step Backing Unit) := by
  refine .get_bind ?_ ?_
  · intro x y hx hy h
    rw [hx.config_eq hy, h.owner]
  · intro x _
    refine .forM ?_
    intro offset _
    exact local_onMemory Backing.local_invalidate

theorem local_bringUp (p : SpinPolicy Unit) (fuel : Nat) :
    Local (scope c core) (bringUp p fuel : Step Backing Nat) :=
  local_checkCore.bind fun _ => local_invalidateLines.bind fun _ => local_drain hl p fuel 0

theorem confined_transmitStaged (p : SpinPolicy σ) (s : σ) (d : Descriptor) :
    Confined (scope c core) fun x => paired (x.transmitStaged p s d) := by
  refine confined_transmitStaged_of same_core same_config (local_count _) ?_
  intro x hx hd
  rw [hx.host.config] at hd
  exact confined_entering hl p s (local_transmitEntered hl hd)

theorem confined_transmitWith (p : SpinPolicy σ) (s : σ) (d : Descriptor) :
    Confined (scope c core) fun x => paired (x.transmitWith p s d) := by
  refine confined_transmitWith_of ?_ (confined_transmitStaged hl p s d)
  intro v
  exact Confined.map (local_setOwner (f := fun o => { o with txBuffer := some ByteArray.empty })
    fun _ => rfl) fun _ => v

end Exchange

/-- Whatever an owner is asked to do keeps to its core. -/
theorem Call.confined (hl : c.layout.Ordered) (call : Call) :
    Confined (Exchange.scope c core) fun x => call.make x := by
  cases call with
  | receive p t =>
    exact Confined.map (Exchange.confined_receiveWith hl p t) fun r => Outcome.ofCall .received r.1
  | prepare kind => exact Confined.map (Exchange.local_prepare kind) (Outcome.ofCall .staged)
  | transmit p t d =>
    exact Confined.map (Exchange.confined_transmitWith hl p t d) fun r =>
      Outcome.ofCall (fun _ => .done) r.1
  | resync next => exact Confined.map (Exchange.local_resync next) (Outcome.ofCall fun _ => .done)
  | bringUp p fuel => exact Confined.map (Exchange.local_bringUp hl p fuel) (Outcome.ofCall .drained)

end LineExchange
