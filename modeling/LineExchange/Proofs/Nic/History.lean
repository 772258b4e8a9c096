import LineExchange.Proofs.Isolation.Cores
import LineExchange.Proofs.Nic.Carries

/-!
# LineExchange.Proofs.Nic.History

Which raw transactions a device can have queued. Whatever a host does in front of the device, and
whatever the device is asked for, the queues are filled in two ways: a packet is injected, or the
host sends one in loopback. Both leave the control line with the overflow bytes that its header
announces, as far as the layout has room for them (`RawTransaction.Whole`).

* `Nic.Reached`: the devices that come of a new one by events (`Nic.Event`).
* `Nic.Stocked`: the device has the settings it was made with, and its queues hold whole
  transactions. `Nic.stocked_perform`: an event keeps it; `Nic.Reached.stocked`: so a history does.
* `Nic.size_perform`: an event leaves the region as large as it is.
* `Nic.Reached.inject`: every packet that can be encoded can be queued.
* `RawTransaction.Whole.carries`: a whole transaction that fits the layout carries a packet.
-/

namespace LineExchange

variable {c : Config}

namespace RawTransaction

/-- The line is valid, and the bytes behind it are those that it announces, up to the capacity. -/
structure Whole (c : Config) (raw : RawTransaction) : Prop where
  valid : (c.format.decode raw.control).valid = true
  overflow : raw.overflow.size =
    min (c.format.decode raw.control).length c.layout.payloadCapacity - inlineSize

/-- How much payload the header announces. -/
def announced (c : Config) (raw : RawTransaction) : Nat := (c.format.decode raw.control).length

variable {raw : RawTransaction}

theorem Whole.size_overflow_le (h : raw.Whole c) (hl : c.layout.Ordered) :
    raw.overflow.size ≤ c.layout.overflowSize := by
  have hsize := h.overflow
  have hcap := c.layout.payloadCapacity_eq hl
  omega

/-- The packet that a whole transaction carries, if it fits. -/
def packet (c : Config) (raw : RawTransaction) : Packet :=
  ⟨(c.format.decode raw.control).transaction,
    raw.control.inline.slice 0 (raw.announced c) ++ raw.overflow⟩

theorem Whole.size_packet (h : raw.Whole c) (hfits : raw.announced c ≤ c.layout.payloadCapacity) :
    (raw.packet c).payload.size = raw.announced c := by
  have hover := h.overflow
  have hinline := raw.control.size_inline
  rw [packet, ByteArray.size_append, Bytes.size_slice]
  unfold announced at hfits ⊢
  omega

theorem Whole.carries (h : raw.Whole c) (hfits : raw.announced c ≤ c.layout.payloadCapacity) :
    Carries c.format c.layout.payloadCapacity raw (raw.packet c) := by
  have hsize := h.size_packet hfits
  refine ⟨?_, hsize.trans_le hfits, ?_, ?_⟩
  · rw [hsize, ← h.valid]
    rfl
  · rw [hsize, h.overflow]
    unfold announced at hfits ⊢
    omega
  · rw [hsize]
    rfl

/-- What is injected is whole. -/
theorem whole_of_rawOf (ha : c.format.Accepted) {t : Transaction} {payload : Bytes}
    (h : Nic.rawOf c.layout c.format t payload = .ok raw) : raw.Whole c := by
  unfold Nic.rawOf at h
  split at h
  · cases h
  · next hfits =>
    split at h
    · cases h
    · next line hline =>
      cases h
      have hdecode := Format.decode_encode ha hline
      refine ⟨congrArg Header.valid hdecode, ?_⟩
      dsimp only
      rw [hdecode, Bytes.size_slice]
      dsimp only
      omega

end RawTransaction

/-- What was returned can be used if every state of `P` returns it. -/
theorem Keeps.bind_of {ε S α β : Type} {P : S → Prop} {Q : α → Prop} {a : ExceptT ε (StateM S) α}
    {f : α → ExceptT ε (StateM S) β} (ha : Keeps P a) (hq : Returns P Q a)
    (hf : ∀ v, Q v → Keeps P (f v)) : Keeps P (a >>= f) := by
  refine ⟨fun {s r s'} h hs => ?_⟩
  cases hr : (ExceptT.run a).run s with | mk ra t =>
  have ht := ha.out hr hs
  cases ra with
  | error e =>
    obtain ⟨-, rfl⟩ := h.unique (Ends.bind_error hr)
    exact ht
  | ok v =>
    obtain ⟨-, rfl⟩ := h.unique (Ends.bind hr (.intro (f v) t))
    exact (hf v (hq s v t hs hr)).out (.intro (f v) t) ht

namespace Nic

/-- What happens to a device: a host in front of it makes an access, or it is asked for something.
Loads of control bytes change nothing. -/
inductive Event where
  | access (a : HostAccess)
  | store (offset : Nat) (byte : UInt8)
  | setReady (core : Nat) (v : Bool)
  | inject (core : Nat) (t : Transaction) (payload : Bytes)
  | setLoopback (core : Nat) (v : Bool)
  | takeSent (core : Nat)

/-- Let it happen; an answer is dropped. -/
def Event.perform : Event → Access (Nic Region) Unit
  | access a => a.perform
  | store offset byte => Memory.storeControl offset byte
  | setReady core v => Nic.setReady core v
  | inject core t payload => discard (Nic.inject core t payload)
  | setLoopback core v => Nic.setLoopback core v
  | takeSent core => discard (Nic.takeSent core)

/-- The devices that come of a new one by events, also of those that fault. -/
inductive Reached (c : Config) : Nic Region → Prop where
  | start {r : Region} {d : Nic Region} : Nic.start r c = .ok (.ok d) → Reached c d
  | step {d : Nic Region} (e : Event) : Reached c d → Reached c (Access.run e.perform d).2

/-- A device with these settings that has whole transactions queued. -/
structure Stocked (c : Config) (d : Nic Region) : Prop where
  layout : d.layout = c.layout
  format : d.format = c.format
  size : d.cores.size = c.numCores
  whole : ∀ (core : Nat) (k : NicCore), d.cores[core]? = some k → ∀ raw ∈ k.queue, raw.Whole c

variable {α : Type} {core : Nat}

theorem stocked_onMemory (a : Access Region α) : Keeps (Stocked c) (onMemory a) :=
  .onPart fun _ _ _ _ h => ⟨h.layout, h.format, h.size, h.whole⟩

theorem stocked_modifyCore {f : NicCore → NicCore}
    (hf : ∀ k : NicCore, (∀ raw ∈ k.queue, raw.Whole c) → ∀ raw ∈ (f k).queue, raw.Whole c) :
    Keeps (Stocked c) (modifyCore core f : Access (Nic Region) Unit) := by
  refine .modify fun d h => ⟨h.layout, h.format, Array.size_modify.trans h.size, ?_⟩
  intro other k hk
  have hmodify : (d.cores.modify core f)[other]? =
      if core = other then d.cores[other]?.map f else d.cores[other]? := Array.getElem?_modify
  rw [hmodify] at hk
  split at hk
  · obtain ⟨k', hk', rfl⟩ := Option.map_eq_some_iff.1 hk
    exact hf k' (h.whole other k' hk')
  · exact h.whole other k hk

theorem stocked_coreState (core : Nat) :
    Keeps (Stocked c) (coreState core : Access (Nic Region) NicCore) := by
  refine .get_bind fun d _ => ?_
  split
  · exact .pure _
  · exact .throw _

theorem stocked_noteAccess (dir : Direction) (parity : Bool) :
    Keeps (Stocked c) (noteAccess core dir parity : Access (Nic Region) Unit) :=
  .get_bind fun _ _ => (stocked_onMemory _).bind fun _ => stocked_modifyCore fun _ hk => hk

theorem stocked_setNext (dir : Direction) (parity : Bool) :
    Keeps (Stocked c) (setNext core dir parity : Access (Nic Region) Unit) :=
  stocked_modifyCore fun _ hk => hk

theorem stocked_serveRx (parity : Bool) :
    Keeps (Stocked c) (serveRx core parity : Access (Nic Region) Unit) := by
  have pop : Keeps (Stocked c) (modifyCore core fun k => { k with queue := k.queue.tail } :
      Access (Nic Region) Unit) :=
    stocked_modifyCore fun _ hk raw hraw => hk raw (List.mem_of_mem_tail hraw)
  refine (stocked_noteAccess .rx parity).bind fun _ => .get_bind fun d _ => ?_
  refine (stocked_coreState core).bind fun k => pop.bind fun _ => ?_
  split
  · exact (stocked_onMemory _).bind fun _ => stocked_setNext .rx _
  · split
    · exact (stocked_onMemory _).bind fun _ => (stocked_onMemory _).bind fun _ =>
        stocked_setNext .rx _
    · exact (stocked_onMemory _).bind fun _ => stocked_setNext .rx _

theorem returns_exactly {P : Nic Region → Prop} (start len : Nat) :
    Returns P (fun b : Bytes => b.size = len) (onMemory (Memory.read start len)) := by
  intro d b d' _ hend
  by_cases hin : start + len ≤ d.memory.size
  · obtain ⟨heq, -⟩ := hend.unique (ends_onMemory (Region.ends_read hin))
    cases heq
    have hsize : d.memory.bytes.size = d.memory.size := rfl
    rw [Bytes.size_slice]
    omega
  · obtain ⟨heq, -⟩ :=
      hend.unique (ends_onMemory (.bind_error (Region.ends_checkBounds_outside hin)))
    cases heq

/-- What is taken from a TX line is whole. -/
theorem stocked_consumeTx (doorbell : Bool) :
    Keeps (Stocked c) (consumeTx core doorbell : Access (Nic Region) Unit) := by
  refine (stocked_noteAccess .tx _).bind fun _ => (stocked_setNext .tx doorbell).bind fun _ => ?_
  refine .get_bind fun d hd => (stocked_onMemory _).bind fun b => ?_
  rw [hd.layout, hd.format]
  have take (overflow : Bytes) (hvalid : (c.format.decode (.ofBytes b)).valid = true)
      (hsize : overflow.size =
        min (c.format.decode (.ofBytes b)).length c.layout.payloadCapacity - inlineSize)
      (packet : Packet) : Keeps (Stocked c)
      (onMemory (Memory.write (c.layout.controlAt core .tx !doorbell) Line.zero.bytes) >>= fun _ =>
        modifyCore core fun k =>
          { k with
            queue := if k.loopback then k.queue ++ [⟨.ofBytes b, overflow⟩] else k.queue
            sent := k.sent ++ [packet] } : Access (Nic Region) Unit) := by
    refine (stocked_onMemory _).bind fun _ => stocked_modifyCore fun k hk raw hraw => ?_
    dsimp only at hraw
    split at hraw
    · rcases List.mem_append.1 hraw with hraw | hraw
      · exact hk raw hraw
      · obtain rfl := List.mem_singleton.1 hraw
        exact ⟨hvalid, hsize⟩
    · exact hk raw hraw
  dsimp only
  split
  · next hvalid =>
    split
    · exact (stocked_onMemory _).bind_of (returns_exactly _ _) fun overflow hsize =>
        take overflow hvalid hsize _
    · next hless =>
      refine (Keeps.pure ByteArray.empty).bind_of (Q := (· = ByteArray.empty)) ?_ ?_
      · intro d v d' _ hend
        exact Except.ok.inj (hend.unique (.pure _ d)).1
      · rintro overflow rfl
        exact take .empty hvalid (Nat.sub_eq_zero_of_le (Nat.not_lt.1 hless)).symm _
  · exact .pure _

theorem stocked_setReady (core : Nat) (v : Bool) :
    Keeps (Stocked c) (setReady core v : Access (Nic Region) Unit) :=
  .get_bind fun _ _ => (stocked_onMemory _).bind fun _ => stocked_onMemory _

theorem stocked_perform (ha : c.format.Accepted) (e : Event) : Keeps (Stocked c) e.perform := by
  cases e with
  | access a =>
    cases a with
    | read offset len =>
      refine .map (.get_bind fun d _ => ?_)
      split
      · exact (stocked_serveRx _).bind fun _ => stocked_onMemory _
      · exact stocked_onMemory _
    | write offset data => exact stocked_onMemory (Memory.write offset data)
    | touch offset =>
      refine .get_bind fun d _ => ?_
      split
      · exact (stocked_consumeTx _).bind fun _ => stocked_onMemory _
      · exact stocked_onMemory _
    | invalidate offset => exact stocked_onMemory (Memory.invalidate offset)
  | store offset byte => exact stocked_onMemory (Memory.storeControl offset byte)
  | setReady core v => exact stocked_setReady core v
  | inject core t payload =>
    refine .map (.get_bind fun d hd => ?_)
    rw [hd.layout, hd.format]
    split
    · exact .pure _
    · next raw hraw =>
      have hwhole := RawTransaction.whole_of_rawOf ha hraw
      have push : Keeps (Stocked c) (modifyCore core fun k => { k with queue := k.queue ++ [raw] } :
          Access (Nic Region) Unit) := by
        refine stocked_modifyCore fun k hk raw' hraw' => ?_
        rcases List.mem_append.1 hraw' with hraw' | hraw'
        · exact hk raw' hraw'
        · obtain rfl := List.mem_singleton.1 hraw'
          exact hwhole
      exact ((stocked_coreState core).bind fun _ => push).bind fun _ => .pure _
  | setLoopback core v =>
    exact (stocked_coreState core).bind fun _ => stocked_modifyCore fun _ hk => hk
  | takeSent core =>
    refine .map ((stocked_coreState core).bind fun k => .bind ?_ fun _ => .pure _)
    exact stocked_modifyCore (f := fun k => { k with sent := [] }) fun _ hk => hk

/-- A new device has nothing queued. -/
theorem stocked_start {r : Region} {d : Nic Region} (h : Nic.start r c = .ok (.ok d)) :
    Stocked c d := by
  have keeps : Keeps (Stocked c) ((List.range c.numCores).forM fun core =>
      Nic.setReady core true : Access (Nic Region) Unit) := .forM fun _ _ => stocked_setReady _ true
  refine keeps.out (Nic.ends_start h) ⟨rfl, rfl, Array.size_replicate, ?_⟩
  intro core k hk raw hraw
  dsimp only at hk
  rw [Array.getElem?_replicate] at hk
  split at hk
  · cases hk
    cases hraw
  · cases hk

theorem size_store (offset : Nat) (byte : UInt8) (n : Nat) :
    Keeps (fun d : Nic Region => Memory.size d = n) (onMemory (Memory.storeControl offset byte)) :=
  keeps_onMemory ((Region.keeps_checkBounds offset 1).bind fun _ =>
    .modify fun _ hr => (Bytes.size_put ..).trans hr)

theorem size_setReady (core : Nat) (v : Bool) (n : Nat) :
    Keeps (fun d : Nic Region => Memory.size d = n) (setReady core v) :=
  .get_bind fun _ _ => (keeps_onMemory (LawfulMemory.keeps_load _)).bind fun _ => size_store ..

/-- An event leaves the region as large as it is. -/
theorem size_perform (e : Event) (n : Nat) :
    Keeps (fun d : Nic Region => Memory.size d = n) e.perform := by
  cases e with
  | access a =>
    refine ⟨fun {d r d'} hend hd => ?_⟩
    obtain ⟨-, rfl⟩ := hend.unique (.intro a.perform d)
    exact (LawfulMemory.size_after a d).trans hd
  | store offset byte => exact size_store offset byte n
  | setReady core v => exact size_setReady core v n
  | inject core t payload =>
    refine .map (.get_bind fun d _ => ?_)
    split
    · exact .pure _
    · exact ((keeps_coreState core).bind fun _ => keeps_modifyCore ..).bind fun _ => .pure _
  | setLoopback core v => exact (keeps_coreState core).bind fun _ => keeps_modifyCore ..
  | takeSent core =>
    exact .map ((keeps_coreState core).bind fun _ => (keeps_modifyCore ..).bind fun _ => .pure _)

theorem size_start {r : Region} {d : Nic Region} (h : Nic.start r c = .ok (.ok d)) :
    Memory.size d = r.size := by
  have keeps : Keeps (fun d : Nic Region => Memory.size d = r.size)
      ((List.range c.numCores).forM fun core => Nic.setReady core true :
        Access (Nic Region) Unit) := .forM fun _ _ => size_setReady _ true _
  exact keeps.out (Nic.ends_start h) rfl

theorem Reached.check {d : Nic Region} (h : Reached c d) : c.check = .ok () := by
  induction h with
  | start hstart => exact (of_start hstart).1
  | step _ _ ih => exact ih

/-- Whatever happened to a device, its queues hold whole transactions. -/
theorem Reached.stocked {d : Nic Region} (h : Reached c d) : Stocked c d := by
  induction h with
  | start hstart => exact stocked_start hstart
  | step e h ih =>
    exact (stocked_perform (Config.accepted_of_check h.check) e).out (.intro e.perform _) ih

/-- A packet that can be encoded is queued behind the others. -/
theorem Reached.inject {d : Nic Region} {a : Ports} (h : Reached c d) (hd : Tracks c d a)
    {core : Nat} (hcore : core < c.numCores) (t : Transaction) (payload : Bytes)
    (hfits : payload.size ≤ c.layout.payloadCapacity) (hmax : payload.size ≤ c.format.maxLength)
    (ht : c.format.Encodable t) :
    ∃ d', Reached c d' ∧ Memory.size d' = Memory.size d ∧ Tracks c d' (a.set core
      { a core with queue := (a core).queue ++ [⟨c.format.wireForm t, payload⟩] }) := by
  obtain ⟨r, d', a', hend, hport, hd'⟩ :=
    tracks_inject hd (Config.accepted_of_check h.check) hcore t payload
  have hperform : Ends (Event.inject core t payload).perform d (.ok ()) d' := hend.map
  have hstep := h.step (.inject core t payload)
  rw [Access.run, hperform] at hstep
  refine ⟨d', hstep, (size_perform _ _).out hperform rfl, ?_⟩
  have hinline : (payload.slice 0 inlineSize).size ≤ inlineSize := by
    rw [Bytes.size_slice]
    omega
  obtain ⟨line, henc⟩ := (Format.encode_isOk t payload.size _).2 ⟨hinline, hmax, ht⟩
  rw [Ports.step, if_neg (Nat.not_lt.2 hfits), henc] at hport
  cases hport
  exact hd'

end Nic
end LineExchange
