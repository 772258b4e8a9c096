import LineExchange.Fenced
import LineExchange.Proofs.Bounds.Header
import LineExchange.Proofs.Exchange.Section
import LineExchange.Proofs.Layout.Views

/-!
# LineExchange.Proofs.Bounds.Engine

The calls of an owner never meet their fence. Every access of a call is to the control byte of its
core or to a part of its window in front of that byte, so all of them are in a region that the
control byte lies in; and every slice is within its buffer. Here are the parts of a call that are
made inside the gate (`agrees_poll`, `agrees_send`) and how they are entered (`same_entering`).
-/

namespace LineExchange

variable {ε S α β : Type}

/-- From the states of `P` the computations run the same, and they stay in `P`. -/
structure Agrees (P : S → Prop) (a b : ExceptT ε (StateM S) α) : Prop where
  same : ∀ s, P s → (ExceptT.run a).run s = (ExceptT.run b).run s
  keeps : Keeps P b

namespace Agrees

variable {P : S → Prop} {a b : ExceptT ε (StateM S) α} {f g : α → ExceptT ε (StateM S) β}

theorem refl (h : Keeps P a) : Agrees P a a := ⟨fun _ _ => rfl, h⟩

theorem bind (h : Agrees P a b) (hf : ∀ v, Agrees P (f v) (g v)) :
    Agrees P (a >>= f) (b >>= g) := by
  refine ⟨?_, h.keeps.bind fun v => (hf v).keeps⟩
  intro s hs
  cases hr : (ExceptT.run b).run s with
  | mk r s' =>
    have ha : (ExceptT.run a).run s = (r, s') := (h.same s hs).trans hr
    have hs' : P s' := h.keeps.out hr hs
    cases r with
    | error e => exact (Ends.bind_error ha).trans (Ends.bind_error hr).symm
    | ok v =>
      have hf' := (hf v).same s' hs'
      exact (Ends.bind ha hf').trans (Ends.bind hr (.intro (g v) s')).symm

theorem get_bind {f g : S → ExceptT ε (StateM S) β} (h : ∀ s, P s → Agrees P (f s) (g s)) :
    Agrees P (get >>= f) (get >>= g) := by
  refine ⟨?_, .get_bind fun s hs => (h s hs).keeps⟩
  intro s hs
  exact (h s hs).same s hs

theorem map (h : Agrees P a b) (g : α → β) : Agrees P (g <$> a) (g <$> b) := by
  rw [← bind_pure_comp, ← bind_pure_comp]
  exact h.bind fun v => .refl (.pure (g v))

theorem forM {γ : Type} {l : List γ} {a b : γ → ExceptT ε (StateM S) PUnit}
    (h : ∀ v ∈ l, Agrees P (a v) (b v)) : Agrees P (l.forM a) (l.forM b) := by
  induction l with
  | nil => exact .refl (.pure _)
  | cons v l ih => exact (h v (.head l)).bind fun _ => ih fun w hw => h w (.tail v hw)

/-- A look at the state before the rest. -/
theorem look {f : S → ExceptT ε (StateM S) α} (h : ∀ s, P s → Agrees P (f s) b)
    (hb : Keeps P b) : Agrees P (get >>= f) b :=
  ⟨fun s hs => (h s hs).same s hs, hb⟩

end Agrees

namespace Fenced

open Exchange (Step onMemory toggle fillBuffer count guarded ends_guarded ends_onMemory)

/-- The core is mapped, and its control byte lies in a region of `n` bytes, whose end is a word. -/
structure Placed (c : Config) (core n : Nat) : Prop where
  ordered : c.layout.Ordered
  accepted : c.format.Accepted
  lt_numCores : core < c.numCores
  worker_lt : c.layout.workerAt core < n
  word : n ≤ wordMax

variable {M α σ : Type} [Memory M] {stray : Stop} {c : Config} {core n size : Nat}

/-- An owner of a core with a buffer of `size` bytes, at a host with the settings `c` on a region
of `n` bytes. -/
structure At (c : Config) (core n size : Nat) (x : Exchange M) : Prop where
  config : x.host.config = c
  core : x.owner.core = core
  region : Memory.size x.host.memory = n
  buffer : x.owner.rxBuffer.size = size

/-- All other parts of a window end where its control byte lies. -/
theorem Placed.part_le (h : Placed c core n) {p : Part} (hp : p ≠ .worker) :
    c.layout.partAt core p + p.len c.layout ≤ n := by
  have hend := p.before_worker h.ordered hp
  have hlt : c.layout.coreBase core + Part.worker.offset c.layout < n := h.worker_lt
  unfold Layout.partAt
  omega

theorem Placed.inRegion (h : Placed c core n) {p : Part} (hp : p ≠ .worker) {len : Nat}
    (hlen : len ≤ p.len c.layout) {m : M} (hm : Memory.size m = n) :
    InRegion m (c.layout.partAt core p) len := by
  have hend := Nat.le_trans (Nat.add_le_add_left hlen _) (h.part_le hp)
  exact ⟨hm.symm ▸ hend, Nat.le_trans hend h.word⟩

theorem Placed.worker_inRegion (h : Placed c core n) {m : M} (hm : Memory.size m = n) :
    InRegion m (c.layout.workerAt core) 1 := by
  have hend : c.layout.workerAt core + 1 ≤ n := h.worker_lt
  exact ⟨hm.symm ▸ hend, Nat.le_trans hend h.word⟩

theorem Placed.base_le (h : Placed c core n) : c.layout.coreBase core ≤ wordMax :=
  Nat.le_trans (Nat.le_add_right ..) (Nat.le_trans (Nat.le_of_lt h.worker_lt) h.word)

omit [Memory M] in
theorem demand_bind {o : Option α} {v : α} (h : o = some v) {β : Type} (f : α → Step M β) :
    demand stray o >>= f = f v := by
  rw [h]
  exact pure_bind v f

theorem keeps_onMemory {a : Access M α} (ha : Keeps (fun m => Memory.size m = n) a) :
    Keeps (At c core n size) (onMemory a : Step M α) := by
  refine ⟨fun {x r y} hend hx => ?_⟩
  obtain ⟨-, rfl⟩ := hend.unique (ends_onMemory (.intro a x.host.memory))
  exact ⟨hx.config, hx.core, ha.out (.intro a x.host.memory) hx.region, hx.buffer⟩

theorem keeps_toggle (d : Direction) : Keeps (At c core n size) (toggle d : Step M Unit) :=
  .modify fun _ hx => ⟨hx.config, hx.core, hx.region, hx.buffer⟩

theorem keeps_count (f : Stats → Stats) : Keeps (At c core n size) (count f : Step M Unit) :=
  .modify fun _ hx => ⟨hx.config, hx.core, hx.region, hx.buffer⟩

theorem keeps_fillBuffer (start : Nat) (data : Bytes) :
    Keeps (At c core n size) (fillBuffer start data : Step M Unit) :=
  .modify fun _ hx => ⟨hx.config, hx.core, hx.region, (Bytes.size_patch ..).trans hx.buffer⟩

theorem agrees_reach {offset len : Nat} {a : Access M α}
    (hin : ∀ m : M, Memory.size m = n → InRegion m offset len)
    (ha : Keeps (fun m => Memory.size m = n) a) :
    Agrees (At c core n size) (reach stray offset len a) (onMemory a) := by
  refine .look ?_ (keeps_onMemory ha)
  intro x hx
  rw [if_pos (hin _ hx.region)]
  exact .refl (keeps_onMemory ha)

theorem agrees_fill {len : Nat} {data : Bytes} (hlen : len ≤ size) (hword : len ≤ wordMax)
    (hdata : data.size = len) :
    Agrees (At c core n size) (fill stray len data) (fillBuffer 0 data : Step M Unit) := by
  refine ⟨?_, keeps_fillBuffer 0 data⟩
  intro x hx
  have hcopy : x.owner.rxBuffer.copy? 0 len data = some (x.owner.rxBuffer.patch 0 data) :=
    Bytes.copy?_eq (by rw [hx.buffer]; omega) (by omega) hdata
  have hfill : Ends (fill stray len data) x (.ok ())
      { x with owner := { x.owner with rxBuffer := x.owner.rxBuffer.patch 0 data } } := by
    refine .bind (.get x) ?_
    rw [demand_bind hcopy]
    exact .set _ x
  exact hfill

/-- What was received is handed out. -/
theorem agrees_handOut {len : Nat} (hlen : len ≤ size) (hword : len ≤ wordMax) (t : Transaction) :
    Agrees (At c core n size)
      (get >>= fun y => demand stray (y.owner.rxBuffer.slice? 0 len) >>= fun payload =>
        pure (some ⟨t, payload⟩) : Step M (Option Received))
      (get >>= fun y => pure (some ⟨t, y.owner.rxBuffer.slice 0 len⟩)) := by
  refine .get_bind ?_
  intro y hy
  rw [demand_bind (Bytes.slice?_eq (by rw [hy.buffer]; omega) (by omega))]
  exact .refl (.pure _)

section Body

variable [LawfulMemory M] (h : Placed c core n)
include h

theorem agrees_readLine (parity : Bool) : Agrees (At c core n size)
    (readLine stray (c.layout.controlAt core .rx parity) : Step M Line)
    (Exchange.readLine (c.layout.controlAt core .rx parity)) :=
  .map (agrees_reach (fun _ => h.inRegion (p := .control .rx parity) (by simp) (Nat.le_refl _))
    (LawfulMemory.size_read ..)) _

theorem agrees_readOverflow {len : Nat} (hlen : len ≤ c.layout.overflowSize) :
    Agrees (At c core n size)
      (reach stray (c.layout.overflowAt core .rx) len
        (Memory.read (c.layout.overflowAt core .rx) len) : Step M Bytes)
      (onMemory (Memory.read (c.layout.overflowAt core .rx) len)) :=
  agrees_reach (fun _ => h.inRegion (p := .overflow .rx) (by simp) hlen)
    (LawfulMemory.size_read ..)

/-- A payload that is received fits the buffer and the overflow array, whatever length the header
announces. -/
theorem agrees_poll :
    Agrees (At c core n size) (poll stray : Step M (Option Received)) Exchange.poll := by
  have hcap := c.layout.payloadCapacity_eq h.ordered
  have hcapw : c.layout.payloadCapacity ≤ wordMax := saturate_le_wordMax _
  refine .get_bind ?_
  intro x hx
  have hlimit : x.rxLimit = min size c.layout.payloadCapacity := by
    rw [Exchange.rxLimit, Owner.rxCapacity, hx.buffer, hx.config]
  rw [hlimit, hx.config, hx.core]
  refine (agrees_readLine h x.owner.next.rx).bind fun line => ?_
  dsimp only
  rw [demand_bind (Format.decode?_eq h.accepted line)]
  refine (Agrees.refl (keeps_toggle .rx)).bind fun _ => ?_
  generalize c.format.decode line = header
  have hinline : line.inline.slice? 0 (min header.length inlineSize) =
      some (line.inline.slice 0 header.length) := by
    have hsize := line.size_inline
    rw [← hsize]
    exact Bytes.slice?_start (hsize ▸ by decide)
  split
  · split
    · exact .refl (.throw _)
    · next hfits =>
      have hlen : header.length ≤ size := by omega
      have hlenw : header.length ≤ wordMax := by omega
      rw [demand_bind line.slice?_inline, demand_bind hinline]
      refine (agrees_fill (by omega) (by omega) ?_).bind fun _ => ?_
      · rw [Bytes.size_slice, line.size_inline]
        omega
      · split
        · next hlong =>
          rw [demand_bind (Bytes.slice?_eq (by rw [hx.buffer]; omega) (by omega))]
          refine (agrees_readOverflow h (by omega)).bind fun data => ?_
          exact (Agrees.refl (keeps_fillBuffer _ data)).bind fun _ =>
            agrees_handOut hlen hlenw _
        · exact agrees_handOut hlen hlenw _
  · exact .refl ((keeps_count _).bind fun _ => .pure _)

theorem agrees_ringDoorbell :
    Agrees (At c core n size) (ringDoorbell stray : Step M Unit) Exchange.ringDoorbell := by
  refine (Agrees.refl (keeps_toggle .tx)).bind fun _ => .get_bind ?_
  intro x hx
  rw [hx.config, hx.core]
  exact agrees_reach
    (fun _ => h.inRegion (p := .control .tx x.owner.next.tx) (by simp) (by decide : 1 ≤ lineSize))
    (LawfulMemory.size_touch ..)

theorem agrees_write {p : Part} (hp : p ≠ .worker) {len : Nat} (hlen : len ≤ p.len c.layout)
    (data : Bytes) :
    Agrees (At c core n size)
      (reach stray (c.layout.partAt core p) len
        (Memory.write (c.layout.partAt core p) data) : Step M Unit)
      (onMemory (Memory.write (c.layout.partAt core p) data)) :=
  agrees_reach (fun _ => h.inRegion hp hlen) (LawfulMemory.size_write ..)

theorem agrees_writeStaged {d : Descriptor} (line : Line)
    (hd : d.payload.size ≤ c.layout.payloadCapacity) :
    Agrees (At c core n size) (writeStaged stray d line : Step M Unit)
      (Exchange.writeStaged d line) := by
  have hcap := c.layout.payloadCapacity_eq h.ordered
  have hcapw : c.layout.payloadCapacity ≤ wordMax := saturate_le_wordMax _
  refine .get_bind ?_
  intro x hx
  rw [hx.config, hx.core]
  have control : Agrees (At c core n size)
      (reach stray (c.layout.controlAt core .tx x.owner.next.tx) lineSize
        (Memory.write (c.layout.controlAt core .tx x.owner.next.tx) line.bytes) : Step M Unit)
      (onMemory (Memory.write (c.layout.controlAt core .tx x.owner.next.tx) line.bytes)) :=
    agrees_write h (p := .control .tx x.owner.next.tx) (by simp) (Nat.le_refl _) line.bytes
  dsimp only
  split
  · have hrest : (d.payload.slice inlineSize (d.payload.size - inlineSize)).size ≤
        c.layout.overflowSize := by
      rw [Bytes.size_slice]
      omega
    rw [demand_bind (Bytes.slice?_eq (by omega) (by omega))]
    exact (agrees_write h (p := .overflow .tx) (by simp) hrest _).bind fun _ => control
  · exact control

omit h in
theorem encodeStaged?_eq (h : Placed c core n) {d : Descriptor} (hd : d.payload.size ≤ wordMax) :
    encodeStaged? c.format d = some (Exchange.encodeStaged c.format d) := by
  unfold encodeStaged? Exchange.encodeStaged
  cases Exchange.sendable d.transaction with
  | error e => rfl
  | ok _ =>
    dsimp only
    rw [Nat.min_comm, Bytes.slice?_start hd]
    exact Format.encode?_eq h.accepted ..

theorem agrees_send {d : Descriptor} (hd : d.payload.size ≤ c.layout.payloadCapacity) :
    Agrees (At c core n size) (send stray d : Step M (Except EncodeError Unit))
      (Exchange.send d) := by
  have hcapw : c.layout.payloadCapacity ≤ wordMax := saturate_le_wordMax _
  refine .get_bind ?_
  intro x hx
  rw [hx.config, demand_bind (encodeStaged?_eq h (Nat.le_trans hd hcapw))]
  cases Exchange.encodeStaged c.format d with
  | ok line =>
    exact (agrees_writeStaged h line hd).bind fun _ => (agrees_ringDoorbell h).bind fun _ =>
      .refl (.pure _)
  | error e => exact (agrees_ringDoorbell h).bind fun _ => .refl (.pure _)

omit [LawfulMemory M] in
theorem workerAt_lt {x : Exchange M} (hx : At c core n size x) :
    x.host.workerAt x.owner.core < Memory.size x.host.memory := by
  rw [Host.workerAt, hx.config, hx.core, hx.region]
  exact h.worker_lt

theorem At.withGate {x : Exchange M} (hx : At c core n size x) (g : Gate) :
    At c core n size { x with host := x.host.withGate x.owner.core g } :=
  ⟨hx.config, hx.core, (LawfulMemory.size_stored _ (workerAt_lt h hx)).trans hx.region, hx.buffer⟩

theorem agrees_guarded {a b : Step M α} (hab : Agrees (At c core n size) a b) :
    Agrees (At c core n size) (guarded a) (guarded b) := by
  constructor
  · intro x hx
    exact congrArg (fun q : Except Stop α × Exchange M => (q.1, (Step.run (Exchange.onHost
      (Host.onGate q.2.owner.core fun g => ((), g.leave))) q.2).2)) (hab.same x hx)
  · refine ⟨fun {x r y} hend hx => ?_⟩
    cases hr : (ExceptT.run b).run x with
    | mk r' z =>
      have hz := hab.keeps.out hr hx
      obtain ⟨-, rfl⟩ := hend.unique (ends_guarded hr (workerAt_lt h hz))
      exact At.withGate h hz _

/-- A call and the same call behind the fence come to the same, and leave the owner where it
was. -/
def Same (c : Config) (core n size : Nat) (r r' : Except Stop α × σ × Exchange M) : Prop :=
  r = r' ∧ At c core n size r'.2.2

theorem same_entering {a b : Step M α} (hab : Agrees (At c core n size) a b) {x : Exchange M}
    (hx : At c core n size x) (p : SpinPolicy σ) (s : σ) :
    Same c core n size (entering stray p s a x) (x.entering p s b) := by
  have hin : InRegion x.host.memory (x.host.workerAt x.owner.core) 1 := by
    rw [Host.workerAt, hx.config, hx.core]
    exact h.worker_inRegion hx.region
  unfold entering
  rw [if_pos hin]
  unfold Exchange.entering
  rw [Exchange.enter_eq (workerAt_lt h hx)]
  generalize (x.host.gateOf x.owner.core).enter p s = tries
  obtain ⟨r, t, g⟩ := tries
  have hg := At.withGate h hx g
  cases r with
  | entered =>
    have hsame : Step.run a _ = Step.run b _ := hab.same _ hg
    exact ⟨congrArg (fun q : Except Stop α × Exchange M => (q.1, t, q.2)) hsame,
      hab.keeps.out (.intro b _) hg⟩
  | stuck attempts => exact ⟨rfl, hg⟩
  | endless => exact ⟨rfl, hg⟩

end Body

end Fenced
end LineExchange
