import LineExchange.Exchange.BringUp
import LineExchange.Exchange.Transmit
import LineExchange.Proofs.Config
import LineExchange.Proofs.Gate.Enter
import LineExchange.Proofs.Memory.Lawful

/-!
# LineExchange.Proofs.Exchange.Section

Critical sections of a host.

* `Host.ends_onGate`, `Host.ends_onGate_outside`: a step on a gate stores what became of it, or
  faults and changes nothing.
* `Exchange.enter_eq`, `Exchange.ends_guarded`: entering and leaving are steps on the gate.
* `Exchange.keeps_poll`, `Exchange.keeps_send`: inside, a call leaves the counters alone and makes
  no access that meets a control byte; what happens to one is done by the memory (`Reacts`).
-/

namespace LineExchange

open Memory (controlByte stored)

variable {M : Type} [Memory M]

/-- Whether the access meets no control byte of any core. -/
def HostAccess.MissesGates (l : Layout) (a : HostAccess) : Prop :=
  ∀ core, a.Misses (l.workerAt core)

/-- What a memory becomes through accesses that meet no control byte. -/
def Reacts (l : Layout) : M → M → Prop :=
  Relation.ReflTransGen fun m m' => ∃ a : HostAccess, a.MissesGates l ∧ m' = a.after m

theorem HostAccess.missesGates {l : Layout} (h : l.Ordered) {a : HostAccess} (core : Nat)
    (p : Part) (hp : p ≠ .worker) (hs : l.partAt core p ≤ a.start)
    (he : a.start + a.len ≤ l.partAt core p + p.len l) : a.MissesGates l := by
  intro other
  have hl : 0 < lineSize := by decide
  have : l.partAt core p + p.len l ≤ l.workerAt other ∨ l.workerAt other + lineSize ≤
      l.partAt core p := l.partAt_apart (q := .worker) h (.inr hp)
  unfold HostAccess.Misses
  omega

/-- A region for settings with one overflow line. Its core is ready, and a call with 100 bytes of
payload waits in the first control line. -/
def Region.waitingCall : Region := ⟨(((Bytes.zeros 0x380).put 0 201).put 2 1).put 0x300 1⟩

namespace Host

/-- The gate of a core as it stands. -/
def gateOf (core : Nat) (host : Host M) : Gate :=
  ⟨controlByte (host.workerAt core) host.memory, host.countersOf core⟩

/-- The host with another gate for a core. -/
def withGate (core : Nat) (g : Gate) (host : Host M) : Host M :=
  { host with
    memory := stored (host.workerAt core) g.byte host.memory
    counters := host.counters.setIfInBounds core g.counters }

theorem countersOf_withGate {core : Nat} {g : Gate} {host : Host M}
    (h : core < host.counters.size) (c : Nat) :
    (host.withGate core g).countersOf c = if c = core then g.counters else host.countersOf c := by
  simp only [countersOf, withGate, Array.getD_eq_getD_getElem?, Array.getElem?_setIfInBounds]
  by_cases hc : core = c
  · subst hc
    simp [h]
  · simp [hc, Ne.symm hc]

omit [Memory M] in
theorem ends_onMemory {α : Type} {a : Access M α} {host : Host M} {r : Except Fault α} {m : M}
    (h : Ends a host.memory r m) : Ends (onMemory a) host r { host with memory := m } := .onPart h

/-- A new host over the memory. -/
def fresh (memory : M) (config : Config) (hc : config.check = .ok ()) : Host M where
  memory := memory
  config := config
  config_ok := hc
  counters := .replicate config.numCores {}
  claimed := .replicate config.numCores false

theorem open_fresh {memory : M} {config : Config} (hc : config.check = .ok ())
    (hs : config.regionSize ≤ Memory.size memory) :
    open? memory config = .ok (fresh memory config hc) := by
  unfold open?
  split
  · next h =>
    rw [hc] at h
    cases h
  · exact if_neg (Nat.not_lt.2 hs)

theorem exists_open? {memory : M} {config : Config} (hc : config.check = .ok ())
    (hs : config.regionSize ≤ Memory.size memory) : ∃ host, open? memory config = .ok host :=
  ⟨_, open_fresh hc hs⟩

/-- A new host for a core that is ready, where a call waits. -/
def waitingCall : Host Region :=
  fresh .waitingCall Exchange.narrow Exchange.check_narrow

theorem open_waitingCall : open? Region.waitingCall Exchange.narrow = .ok waitingCall :=
  open_fresh Exchange.check_narrow (by decide +kernel)

theorem of_open? {memory : M} {config : Config} {host : Host M}
    (h : open? memory config = .ok host) :
    host.memory = memory ∧ host.config = config ∧
      host.counters = .replicate config.numCores {} ∧
      host.claimed = .replicate config.numCores false ∧
      config.regionSize ≤ Memory.size memory := by
  unfold open? at h
  split at h
  · cases h
  · split at h
    · cases h
    · next hs =>
      cases h
      exact ⟨rfl, rfl, rfl, rfl, Nat.not_lt.1 hs⟩

omit [Memory M] in
theorem ordered (host : Host M) : host.config.layout.Ordered :=
  Config.ordered_of_check host.config_ok

omit [Memory M] in
theorem lt_of_coreError? {host : Host M} {core : Nat} (h : host.coreError? core = none) :
    core < host.config.numCores := by
  unfold coreError? at h
  split at h
  · assumption
  · cases h

variable [LawfulMemory M] {host : Host M} {core : Nat} {α : Type}

theorem ends_onGate (f : Gate → α × Gate) (h : host.workerAt core < Memory.size host.memory) :
    Ends (onGate core f) host (.ok (f (host.gateOf core)).1)
      (host.withGate core (f (host.gateOf core)).2) := by
  have gate : Ends (gate core) host (.ok (host.gateOf core)) host :=
    .bind (.get host) (.bind (ends_onMemory (LawfulMemory.load_inside _ _ h)) (.pure _ _))
  have store (g : Gate) : Ends (setGate core g) host (.ok ⟨⟩) (host.withGate core g) :=
    .bind (.get host) (.bind (ends_onMemory (LawfulMemory.ends_store g.byte h)) (.modify _ _))
  exact gate.bind ((store _).bind (.pure _ _))

theorem ends_onGate_outside (f : Gate → α × Gate)
    (h : Memory.size host.memory ≤ host.workerAt core) :
    ∃ e, Ends (onGate core f) host (.error e) host := by
  obtain ⟨e, he⟩ := LawfulMemory.load_outside _ _ h
  exact ⟨e, .bind_error (.bind (.get host) (.bind_error (ends_onMemory he)))⟩

end Host

/-- Why a call can stop after it has entered. -/
inductive Stop.Inside : Stop → Prop where
  | overflowExceeded (len capacity : Nat) : Inside (.refused (.overflowExceeded len capacity))
  | unsupportedTransmit (e : EncodeError) : Inside (.refused (.unsupportedTransmit e))
  | fault (f : Fault) : Inside (.fault f)

/-- Why a call can stop without having entered. -/
inductive Stop.Outside : Stop → Prop where
  | invalidCore (core numCores : Nat) : Outside (.refused (.invalidCore core numCores))
  | payloadTooLarge (len capacity : Nat) : Outside (.refused (.payloadTooLarge len capacity))
  | handshakeStuck (core attempts : Nat) : Outside (.refused (.handshakeStuck core attempts))
  | endless : Outside .endless

omit [Memory M] in
theorem Stop.Outside.of_coreError? {host : Host M} {core : Nat} {e : ExchangeError}
    (h : host.coreError? core = some e) : (Stop.refused e).Outside := by
  unfold Host.coreError? at h
  split at h
  · cases h
  · cases h
    exact .invalidCore ..

namespace Exchange

variable {α σ : Type}

omit [Memory M] in
theorem ends_onHost {a : Access (Host M) α} {x : Exchange M} {r : Except Fault α} {host : Host M}
    (h : Ends a x.host r host) :
    Ends (onHost a) x (r.mapError .fault) { x with host } :=
  congrArg (fun q : Except Fault α × Host M =>
    (q.1.mapError Stop.fault, (⟨q.2, x.owner⟩ : Exchange M))) h

omit [Memory M] in
theorem ends_onMemory {a : Access M α} {x : Exchange M} {r : Except Fault α} {m : M}
    (h : Ends a x.host.memory r m) :
    Ends (onMemory a) x (r.mapError .fault) { x with host := { x.host with memory := m } } :=
  ends_onHost (Host.ends_onMemory h)

omit [Memory M] in
theorem ends_checkCore {x : Exchange M} (h : x.host.coreError? x.owner.core = none) :
    Ends checkCore x (.ok ()) x := by
  refine .bind (.get x) ?_
  rw [h]
  exact .pure _ x

omit [Memory M] in
theorem ends_checkCore_refused {x : Exchange M} {e : ExchangeError}
    (h : x.host.coreError? x.owner.core = some e) :
    Ends checkCore x (.error (.refused e)) x := by
  refine .bind (.get x) ?_
  rw [h]
  exact .throw _ x

omit [Memory M] in
theorem ends_prepare (x : Exchange M) (kind : TransactionKind) : Ends (prepare kind) x
    (if x.host.config.txBufferSize < storageLimit then
      .ok { transaction := .empty x.host.config.format kind }
    else .error (.fault .outOfStorage))
    { x with owner := { x.owner with txBuffer := none } } := by
  refine .bind (.get x) (.bind (.set _ x) ?_)
  by_cases hroom : x.host.config.txBufferSize < storageLimit
  · rw [if_pos hroom, if_pos hroom]
    exact .pure _ _
  · rw [if_neg hroom, if_neg hroom]
    exact .throw _ _

/-- Where an exchange can be while a critical section that started at `x` goes on. -/
structure Inside (x y : Exchange M) : Prop where
  config : y.host.config = x.host.config
  counters : y.host.counters = x.host.counters
  claimed : y.host.claimed = x.host.claimed
  core : y.owner.core = x.owner.core
  memory : Reacts x.host.config.layout x.host.memory y.host.memory

theorem Inside.refl (x : Exchange M) : Inside x x := ⟨rfl, rfl, rfl, rfl, .refl⟩

section Body

variable {x : Exchange M}

theorem keeps_modify {g : Exchange M → Exchange M} (hh : ∀ y, (g y).host = y.host)
    (hc : ∀ y, (g y).owner.core = y.owner.core) : Keeps (Inside x) (modify g : Step M PUnit) :=
  .modify fun y hy => ⟨hh y ▸ hy.config, hh y ▸ hy.counters, hh y ▸ hy.claimed,
    (hc y).trans hy.core, hh y ▸ hy.memory⟩

omit [Memory M] in
theorem keeps_count {h : Host M} {core : Nat} (f : Stats → Stats) :
    Keeps (fun y : Exchange M => y.host = h ∧ y.owner.core = core) (count f) :=
  .modify fun _ hy => hy

/-- The memory reacts to an access. -/
theorem keeps_onMemory {b : Access M α} (a : HostAccess)
    (hab : ∀ m, (Access.run b m).2 = a.after m) (ha : a.MissesGates x.host.config.layout) :
    Keeps (Inside x) (onMemory b : Step M α) := by
  refine ⟨fun {y r z} h hy => ?_⟩
  obtain ⟨-, rfl⟩ := h.unique (ends_onMemory (.intro b y.host.memory))
  exact { hy with memory := hy.memory.tail ⟨a, ha, hab _⟩ }

variable (hl : x.host.config.layout.Ordered)
include hl

theorem keeps_poll : Keeps (Inside x) (poll : Step M (Option Received)) := by
  refine .get_bind fun y hy => ?_
  have read (p : Part) (len : Nat) (hp : p ≠ .worker) (hlen : len ≤ p.len x.host.config.layout) :
      Keeps (Inside x) (onMemory (Memory.read (y.host.config.layout.partAt y.owner.core p) len) :
        Step M Bytes) := by
    refine keeps_onMemory (.read _ len) (HostAccess.after_read _ len) ?_
    rw [hy.config, hy.core]
    exact HostAccess.missesGates hl x.owner.core p hp (Nat.le_refl _) (Nat.add_le_add_left hlen _)
  refine .bind (.map (read (.control .rx y.owner.next.rx) lineSize (by simp) (Nat.le_refl _)))
    fun line => .bind (keeps_modify (fun _ => rfl) fun _ => rfl) fun _ => ?_
  dsimp only
  split
  · split
    · exact .throw _
    · next hfits =>
      have hlen : (y.host.config.format.decode line).length - inlineSize ≤
          (Part.overflow .rx).len x.host.config.layout := by
        have hcap := x.host.config.layout.payloadCapacity_eq hl
        have hmin := Nat.le_trans (Nat.not_lt.1 hfits) (Nat.min_le_right ..)
        rw [hy.config, hcap] at hmin
        rw [hy.config]
        exact Nat.sub_le_iff_le_add'.2 hmin
      refine .bind (keeps_modify (fun _ => rfl) fun _ => rfl) fun _ => ?_
      have finish {f : Exchange M → Received} :
          Keeps (Inside x) (get >>= fun z => pure (some (f z)) : Step M (Option Received)) :=
        .get_bind fun z _ => .pure _
      split
      · exact .bind (read (.overflow .rx) _ (by simp) hlen) fun data =>
          .bind (keeps_modify (fun _ => rfl) fun _ => rfl) fun _ => finish
      · exact finish
  · exact .bind (keeps_modify (fun _ => rfl) fun _ => rfl) fun _ => .pure _

theorem keeps_ringDoorbell : Keeps (Inside x) (ringDoorbell : Step M Unit) := by
  refine .bind (keeps_modify (fun _ => rfl) fun _ => rfl) fun _ => .get_bind fun y hy => ?_
  refine keeps_onMemory (.touch _) (fun _ => rfl) ?_
  rw [hy.config, hy.core]
  exact HostAccess.missesGates hl x.owner.core (.control .tx y.owner.next.tx) (by simp)
    (Nat.le_refl _) (Nat.add_le_add_left (by decide : 1 ≤ lineSize) _)

theorem keeps_writeStaged {d : Descriptor} (line : Line)
    (hd : d.payload.size ≤ x.host.config.layout.payloadCapacity) :
    Keeps (Inside x) (writeStaged d line : Step M Unit) := by
  refine .get_bind fun y hy => ?_
  have write (p : Part) (data : Bytes) (hp : p ≠ .worker)
      (hdata : data.size ≤ p.len x.host.config.layout) :
      Keeps (Inside x) (onMemory (Memory.write (y.host.config.layout.partAt y.owner.core p) data) :
        Step M Unit) := by
    refine keeps_onMemory (.write _ data) (fun _ => rfl) ?_
    rw [hy.config, hy.core]
    exact HostAccess.missesGates hl x.owner.core p hp (Nat.le_refl _) (Nat.add_le_add_left hdata _)
  have control := write (.control .tx y.owner.next.tx) line.bytes (by simp)
    (Nat.le_of_eq line.size_bytes)
  have overflow := write (.overflow .tx)
    (d.payload.slice inlineSize (d.payload.size - inlineSize)) (by simp) (by
      rw [x.host.config.layout.payloadCapacity_eq hl] at hd
      rw [Bytes.size_slice, Nat.min_self]
      exact Nat.sub_le_iff_le_add'.2 hd)
  dsimp only
  split
  · exact overflow.bind fun _ => control
  · exact control

theorem keeps_send {d : Descriptor} (hd : d.payload.size ≤ x.host.config.layout.payloadCapacity) :
    Keeps (Inside x) (send d : Step M (Except EncodeError Unit)) := by
  refine .get_bind fun y _ => ?_
  split
  · exact (keeps_writeStaged hl _ hd).bind fun _ => (keeps_ringDoorbell hl).bind fun _ => .pure _
  · exact (keeps_ringDoorbell hl).bind fun _ => .pure _

theorem keeps_invalidateLines : Keeps (Inside x) (invalidateLines : Step M Unit) := by
  refine .get_bind fun y hy => .forM fun offset hoffset => ?_
  obtain ⟨i, hi, rfl⟩ := List.mem_map.1 hoffset
  rw [List.mem_range, Nat.min_self, hy.config] at hi
  obtain ⟨p, hp, hstart, hend⟩ := Layout.exchangeLine_in hi
  refine keeps_onMemory (.invalidate _) (fun _ => rfl) ?_
  rw [hy.config, hy.core]
  refine HostAccess.missesGates hl x.owner.core p hp (Nat.add_le_add_left hstart _) ?_
  show _ + _ + lineSize ≤ _
  rw [Layout.partAt, Nat.add_assoc, Nat.add_assoc]
  exact Nat.add_le_add_left hend _

end Body

omit [Memory M] in
theorem raises_onMemory (a : Access M α) : Raises Stop.Inside (onMemory a : Step M α) := by
  refine ⟨fun {x e y} h => ?_⟩
  obtain ⟨he, -⟩ := h.unique (ends_onMemory (.intro a x.host.memory))
  cases hr : ((ExceptT.run a).run x.host.memory).1 with
  | ok v => rw [hr] at he; cases he
  | error f => rw [hr] at he; cases he; exact .fault f

theorem raises_poll : Raises Stop.Inside (poll : Step M (Option Received)) := by
  refine .bind .get fun x => .bind (.map (raises_onMemory _)) fun line =>
    .bind (.modify _) fun _ => ?_
  dsimp only
  split
  · split
    · exact .throw (.overflowExceeded ..)
    · refine .bind (.modify _) fun _ => ?_
      split
      · exact .bind (raises_onMemory _) fun _ => .bind (.modify _) fun _ =>
          .bind .get fun _ => .pure _
      · exact .bind .get fun _ => .pure _
  · exact .bind (.modify _) fun _ => .pure _

theorem raises_ringDoorbell : Raises Stop.Inside (ringDoorbell : Step M Unit) :=
  .bind (.modify _) fun _ => .bind .get fun _ => raises_onMemory _

theorem raises_send (d : Descriptor) :
    Raises Stop.Inside (send d : Step M (Except EncodeError Unit)) := by
  refine .bind .get fun x => ?_
  split
  · refine .bind ?_ fun _ => raises_ringDoorbell.bind fun _ => .pure _
    refine .bind .get fun y => ?_
    dsimp only
    split
    · exact .bind (raises_onMemory _) fun _ => raises_onMemory _
    · exact raises_onMemory _
  · exact raises_ringDoorbell.bind fun _ => .pure _

/-- A critical section is left at the gate, whatever comes of that. -/
theorem ends_guarded_leave {a : Step M α} {x y : Exchange M} {r : Except Stop α}
    (h : Ends a x r y) : Ends (guarded a) x r
      (Step.run (onHost (Host.onGate y.owner.core fun g => ((), g.leave))) y).2 :=
  congrArg (fun q : Except Stop α × Exchange M =>
    (q.1, (Step.run (onHost (Host.onGate q.2.owner.core fun g => ((), g.leave))) q.2).2)) h

variable [LawfulMemory M] {x y : Exchange M} {p : SpinPolicy σ} {s : σ}

/-- A critical section is left wherever and however it ends. -/
theorem ends_guarded {body : Step M α} {r : Except Stop α} (h : Ends body x r y)
    (hin : y.host.workerAt y.owner.core < Memory.size y.host.memory) :
    Ends (guarded body) x r
      { y with host := y.host.withGate y.owner.core (y.host.gateOf y.owner.core).leave } := by
  have leave := ends_onHost (x := y) (Host.ends_onGate (fun g => ((), g.leave)) hin)
  exact (ends_guarded_leave h).trans (congrArg (r, ·.2) leave)

/-- What is made of the end of the tries to enter. -/
def entryOf (core : Nat) : SpinResult → Except Stop Unit
  | .entered => .ok ()
  | .stuck attempts => .error (.refused (.handshakeStuck core attempts))
  | .endless => .error .endless

theorem enter_eq (hin : x.host.workerAt x.owner.core < Memory.size x.host.memory) :
    x.enter p s =
      let (r, s, g) := (x.host.gateOf x.owner.core).enter p s
      (entryOf x.owner.core r, s, { x with host := x.host.withGate x.owner.core g }) := by
  have spin := Host.ends_onGate (fun g : Gate => let (r, s, g) := g.enter p s; ((r, s), g)) hin
  unfold enter
  dsimp only
  rw [Access.run, spin]
  obtain ⟨r, s', g⟩ := (x.host.gateOf x.owner.core).enter p s
  cases r <;> rfl

/-- The exchange after the gate was entered at the first attempt. -/
def admitted (x : Exchange M) : Exchange M :=
  { x with host := x.host.withGate x.owner.core (x.host.gateOf x.owner.core).entered }

theorem enter_open (hin : x.host.workerAt x.owner.core < Memory.size x.host.memory)
    (h : (x.host.gateOf x.owner.core).isOpen = true) : x.enter p s = (.ok (), s, x.admitted) := by
  rw [enter_eq hin, Gate.enter_open h]
  rfl

theorem enter_outside (hout : Memory.size x.host.memory ≤ x.host.workerAt x.owner.core) :
    ∃ f, x.enter p s = (.error (.fault f), s, x) := by
  obtain ⟨f, hf⟩ :=
    Host.ends_onGate_outside (fun g : Gate => let (r, s, g) := g.enter p s; ((r, s), g)) hout
  refine ⟨f, ?_⟩
  unfold enter
  dsimp only
  rw [Access.run, hf]

end Exchange
end LineExchange
