import LineExchange.Bench.Backing
import LineExchange.Memory.Flaky
import LineExchange.Memory.Sparse
import LineExchange.Proofs.Run

/-!
# LineExchange.Proofs.Memory.Lawful

What a host relies on in a memory, and that every memory here keeps it.

* `LawfulMemory`: control bytes behave as bytes: they can be loaded and stored inside the region
  and nowhere else, a load changes nothing, and a store changes that byte only. Any other access
  may do anything to the memory except change its size.
* `HostAccess`: one of those other accesses. The memory, with all that stands behind it, reacts.
-/

namespace LineExchange

/-- An access to memory other than to a control byte. -/
inductive HostAccess where
  | read (offset len : Nat)
  | write (offset : Nat) (data : Bytes)
  | touch (offset : Nat)
  | invalidate (offset : Nat)

namespace HostAccess

/-- Where the bytes start that the access is about. -/
def start : HostAccess → Nat
  | read offset _ => offset
  | write offset _ => offset
  | touch offset => offset
  | invalidate offset => offset

/-- How many bytes the access is about. -/
def len : HostAccess → Nat
  | read _ len => len
  | write _ data => data.size
  | touch _ => 1
  | invalidate _ => lineSize

/-- Whether the byte at an offset is none of those that the access is about. -/
def Misses (a : HostAccess) (offset : Nat) : Prop := offset < a.start ∨ a.start + a.len ≤ offset

variable {M : Type} [Memory M]

/-- Make the access; what was read is dropped. -/
def perform : HostAccess → Access M Unit
  | read offset len => discard (Memory.read offset len)
  | write offset data => Memory.write offset data
  | touch offset => Memory.touch offset
  | invalidate offset => Memory.invalidate offset

/-- The memory after the access, whether it faulted or not. -/
def after (a : HostAccess) (m : M) : M := (Access.run a.perform m).2

theorem after_read (offset len : Nat) (m : M) :
    (Access.run (Memory.read offset len) m).2 = (read offset len).after m := by
  cases h : Access.run (Memory.read offset len) m with | mk r m' =>
  cases r with
  | ok b => exact (congrArg Prod.snd (Ends.map (g := Function.const _ PUnit.unit) h)).symm
  | error e =>
    have : Ends (discard (Memory.read offset len)) m (.error e) m' := by
      show Ends (Function.const _ PUnit.unit <$> _) m _ m'
      rw [← bind_pure_comp]
      exact .bind_error h
    exact (congrArg Prod.snd this).symm

end HostAccess

/-- The control byte at an offset; 0 outside the region. -/
def Memory.controlByte {M : Type} [Memory M] (offset : Nat) (m : M) : UInt8 :=
  match (Access.run (Memory.loadControl offset) m).1 with
  | .ok byte => byte
  | .error _ => 0

/-- The memory after a control byte was stored. -/
def Memory.stored {M : Type} [Memory M] (offset : Nat) (byte : UInt8) (m : M) : M :=
  (Access.run (Memory.storeControl offset byte) m).2

open Memory (controlByte stored)

/-- A memory whose control bytes behave as bytes. -/
class LawfulMemory (M : Type) [Memory M] : Prop where
  load_inside (offset : Nat) (m : M) : offset < Memory.size m →
    Ends (Memory.loadControl offset) m (.ok (controlByte offset m)) m
  load_outside (offset : Nat) (m : M) : Memory.size m ≤ offset →
    ∃ f, Ends (Memory.loadControl offset) m (.error f) m
  store_inside (offset : Nat) (byte : UInt8) (m : M) : offset < Memory.size m →
    ∃ m', Ends (Memory.storeControl offset byte) m (.ok ()) m' ∧ Memory.size m' = Memory.size m ∧
      ∀ o, controlByte o m' = if o = offset then byte else controlByte o m
  size_read (offset len n : Nat) : Keeps (fun m : M => Memory.size m = n) (Memory.read offset len)
  size_write (offset : Nat) (data : Bytes) (n : Nat) :
    Keeps (fun m : M => Memory.size m = n) (Memory.write offset data)
  size_touch (offset n : Nat) : Keeps (fun m : M => Memory.size m = n) (Memory.touch offset)
  size_invalidate (offset n : Nat) :
    Keeps (fun m : M => Memory.size m = n) (Memory.invalidate offset)

namespace LawfulMemory

variable {M : Type} [Memory M] [LawfulMemory M]

theorem keeps_load {P : M → Prop} (offset : Nat) :
    Keeps P (Memory.loadControl offset : Access M UInt8) := by
  refine ⟨fun {m r m'} h hm => ?_⟩
  rcases Nat.lt_or_ge offset (Memory.size m) with hlt | hge
  · obtain ⟨-, rfl⟩ := h.unique (load_inside offset m hlt)
    exact hm
  · obtain ⟨f, hf⟩ := load_outside offset m hge
    obtain ⟨-, rfl⟩ := h.unique hf
    exact hm

theorem ends_store {offset : Nat} {m : M} (byte : UInt8) (h : offset < Memory.size m) :
    Ends (Memory.storeControl offset byte) m (.ok ()) (stored offset byte m) := by
  obtain ⟨m', hm, -, -⟩ := store_inside offset byte m h
  have hs : stored offset byte m = m' := congrArg Prod.snd hm
  exact hs ▸ hm

theorem size_stored {offset : Nat} {m : M} (byte : UInt8) (h : offset < Memory.size m) :
    Memory.size (stored offset byte m) = Memory.size m := by
  obtain ⟨m', hm, hsize, -⟩ := store_inside offset byte m h
  have hs : stored offset byte m = m' := congrArg Prod.snd hm
  exact hs ▸ hsize

theorem controlByte_stored {offset : Nat} {m : M} (byte : UInt8) (h : offset < Memory.size m)
    (o : Nat) :
    controlByte o (stored offset byte m) = if o = offset then byte else controlByte o m := by
  obtain ⟨m', hm, -, hbytes⟩ := store_inside offset byte m h
  have hs : stored offset byte m = m' := congrArg Prod.snd hm
  exact hs ▸ hbytes o

theorem size_after (a : HostAccess) (m : M) : Memory.size (a.after m) = Memory.size m := by
  have keeps : Keeps (fun m' : M => Memory.size m' = Memory.size m) a.perform := by
    cases a with
    | read offset len => exact (size_read ..).map
    | write offset data => exact size_write ..
    | touch offset => exact size_touch ..
    | invalidate offset => exact size_invalidate ..
  exact keeps.out (.intro _ m) rfl

end LawfulMemory

namespace Region

theorem ends_checkBounds {r : Region} {offset len : Nat} (h : offset + len ≤ r.size) :
    Ends (checkBounds offset len) r (.ok ()) r := by
  simp only [checkBounds]
  refine .bind (.get r) ?_
  simp only [boundsFault?, if_pos h]
  exact .pure () r

theorem ends_checkBounds_outside {r : Region} {offset len : Nat} (h : ¬offset + len ≤ r.size) :
    Ends (checkBounds offset len) r (.error (.outsideRegion offset len r.size)) r := by
  simp only [checkBounds]
  refine .bind (.get r) ?_
  simp only [boundsFault?, if_neg h]
  exact .throw _ r

theorem ends_read {r : Region} {offset len : Nat} (h : offset + len ≤ r.size) :
    Ends (Memory.read offset len) r (.ok (r.bytes.slice offset len)) r :=
  .bind (ends_checkBounds h) (.bind (.get r) (.pure _ r))

theorem ends_write {r : Region} {offset : Nat} {data : Bytes} (h : offset + data.size ≤ r.size) :
    Ends (Memory.write offset data) r (.ok ()) ⟨r.bytes.patch offset data⟩ :=
  .bind (ends_checkBounds h) (.modify _ r)

theorem ends_touch {r : Region} {offset : Nat} (h : offset < r.size) :
    Ends (Memory.touch offset) r (.ok ()) r := ends_checkBounds h

theorem ends_loadControl {r : Region} {offset : Nat} (h : offset < r.size) :
    Ends (Memory.loadControl offset) r (.ok (r.bytes.byteAt offset)) r :=
  .bind (ends_checkBounds h) (.bind (.get r) (.pure _ r))

theorem ends_storeControl {r : Region} {offset : Nat} (byte : UInt8) (h : offset < r.size) :
    Ends (Memory.storeControl offset byte) r (.ok ()) ⟨r.bytes.put offset byte⟩ :=
  .bind (ends_checkBounds h) (.modify _ r)

theorem controlByte_eq (offset : Nat) (r : Region) :
    controlByte offset r = r.bytes.byteAt offset := by
  by_cases h : offset < r.size
  · have hrun : Access.run (Memory.loadControl offset) r = _ := ends_loadControl h
    rw [controlByte, hrun]
  · have hrun : Access.run (Memory.loadControl offset) r = _ :=
      Ends.bind_error (ends_checkBounds_outside h)
    rw [controlByte, hrun, Bytes.byteAt_of_le (Nat.not_lt.1 h)]

theorem keeps_checkBounds {P : Region → Prop} (offset len : Nat) :
    Keeps P (checkBounds offset len) := by
  refine .get_bind fun r _ => ?_
  split
  · exact .pure _
  · exact .throw _

instance : LawfulMemory Region where
  load_inside offset r h := by
    rw [controlByte_eq]
    exact ends_loadControl h
  load_outside offset r h := ⟨_, .bind_error (ends_checkBounds_outside (Nat.not_lt.2 h))⟩
  store_inside offset byte r h := by
    refine ⟨_, ends_storeControl byte h, Bytes.size_put .., fun o => ?_⟩
    have hs : offset < r.bytes.size := h
    simp [controlByte_eq, Bytes.byteAt_put, hs]
  size_read offset len n :=
    (keeps_checkBounds offset len).bind fun _ => .get_bind fun _ _ => .pure _
  size_write offset data n := (keeps_checkBounds offset data.size).bind fun _ =>
    .modify fun r hr => (Bytes.size_patch ..).trans hr
  size_touch offset n := keeps_checkBounds offset 1
  size_invalidate offset n := .pure _

end Region

namespace Sparse

theorem byteAt_put (s : Sparse) (offset : Nat) (byte : UInt8) (o : Nat) :
    (s.put offset byte).byteAt o = if o = offset then byte else s.byteAt o := by
  unfold byteAt put
  rw [List.lookup_cons]
  split <;> simp_all

theorem size_puts (f : Nat → Nat) (g : Nat → UInt8) (l : List Nat) (s : Sparse) :
    (l.foldl (fun s i => s.put (f i) (g i)) s).size = s.size := by
  induction l generalizing s with
  | nil => rfl
  | cons i l ih => exact ih _

theorem ends_checkBounds {s : Sparse} {offset len : Nat} (h : offset + len ≤ s.size) :
    Ends (checkBounds offset len) s (.ok ()) s := by
  refine .bind (.get s) ?_
  rw [decide_eq_true h]
  exact .pure () s

theorem ends_checkBounds_outside {s : Sparse} {offset len : Nat} (h : ¬offset + len ≤ s.size) :
    Ends (checkBounds offset len) s (.error (.outsideRegion offset len s.size)) s := by
  refine .bind (.get s) ?_
  rw [decide_eq_false h]
  exact .throw _ s

theorem ends_loadControl {s : Sparse} {offset : Nat} (h : offset < s.size) :
    Ends (Memory.loadControl offset) s (.ok (s.byteAt offset)) s :=
  .bind (ends_checkBounds h) (.bind (.get s) (.pure _ s))

theorem ends_loadControl_outside {s : Sparse} {offset : Nat} (h : ¬offset < s.size) :
    Ends (Memory.loadControl offset) s (.error (.outsideRegion offset 1 s.size)) s :=
  .bind_error (ends_checkBounds_outside h)

theorem controlByte_eq (offset : Nat) (s : Sparse) :
    controlByte offset s = if offset < s.size then s.byteAt offset else 0 := by
  split
  · next h =>
    have hrun : Access.run (Memory.loadControl offset) s = _ := ends_loadControl h
    rw [controlByte, hrun]
  · next h =>
    have hrun : Access.run (Memory.loadControl offset) s = _ := ends_loadControl_outside h
    rw [controlByte, hrun]

theorem keeps_checkBounds {P : Sparse → Prop} (offset len : Nat) :
    Keeps P (checkBounds offset len) := by
  refine .get_bind fun s _ => ?_
  unfold Access.require
  split
  · exact .pure _
  · exact .throw _

instance : LawfulMemory Sparse where
  load_inside offset s h := by
    have hs : offset < s.size := h
    rw [controlByte_eq, if_pos hs]
    exact ends_loadControl hs
  load_outside offset s h := ⟨_, ends_loadControl_outside (Nat.not_lt.2 h)⟩
  store_inside offset byte s h := by
    refine ⟨_, .bind (ends_checkBounds h) (.modify _ s), rfl, fun o => ?_⟩
    have hs : offset < s.size := h
    have hsize : (s.put offset byte).size = s.size := rfl
    rw [controlByte_eq, controlByte_eq, hsize, byteAt_put]
    by_cases ho : o = offset
    · rw [if_pos ho, if_pos ho, if_pos (ho ▸ hs)]
    · rw [if_neg ho, if_neg ho]
  size_read offset len n :=
    (keeps_checkBounds offset len).bind fun _ => .get_bind fun _ _ => .pure _
  size_write offset data n := (keeps_checkBounds offset data.size).bind fun _ =>
    .modify fun s hs => (size_puts ..).trans hs
  size_touch offset n := keeps_checkBounds offset 1
  size_invalidate offset n := .pure _

end Sparse

namespace Traced

variable {M : Type}

theorem ends_onInner {α : Type} {a : Access M α} {t : Traced M} {r : Except Fault α} {m : M}
    (h : Ends a t.inner r m) : Ends (onInner a) t r { t with inner := m } := .onPart h

variable [Memory M]

theorem keeps_record {n : Nat} (e : LogEntry) :
    Keeps (fun t : Traced M => Memory.size t = n) (record e) := .modify fun _ h => h

theorem keeps_onInner {n : Nat} {α : Type} {a : Access M α}
    (ha : Keeps (fun m => Memory.size m = n) a) :
    Keeps (fun t : Traced M => Memory.size t = n) (onInner a) :=
  .onPart fun _ _ _ h ht => ha.out h ht

instance [LawfulMemory M] : LawfulMemory (Traced M) where
  load_inside offset t h := ends_onInner (LawfulMemory.load_inside offset t.inner h)
  load_outside offset t h :=
    (LawfulMemory.load_outside offset t.inner h).imp fun _ hf => ends_onInner hf
  store_inside offset byte t h := by
    obtain ⟨m, hm, hsize, hbytes⟩ := LawfulMemory.store_inside offset byte t.inner h
    exact ⟨_, ends_onInner hm, hsize, hbytes⟩
  size_read offset len n :=
    (keeps_record _).bind fun _ => keeps_onInner (LawfulMemory.size_read offset len n)
  size_write offset data n :=
    (keeps_record _).bind fun _ => keeps_onInner (LawfulMemory.size_write offset data n)
  size_touch offset n :=
    (keeps_record _).bind fun _ => keeps_onInner (LawfulMemory.size_touch offset n)
  size_invalidate offset n :=
    (keeps_record _).bind fun _ => keeps_onInner (LawfulMemory.size_invalidate offset n)

end Traced

namespace Nic

variable {M : Type}

theorem ends_onMemory {α : Type} {a : Access M α} {d : Nic M} {r : Except Fault α} {m : M}
    (h : Ends a d.memory r m) : Ends (onMemory a) d r { d with memory := m } := .onPart h

theorem keeps_coreState {P : Nic M → Prop} (core : Nat) : Keeps P (coreState core) := by
  refine .get_bind fun d _ => ?_
  split
  · exact .pure _
  · exact .throw _

variable [Memory M]

/-- What the device does to the memory behind it and to what it keeps for a core leaves `P`. -/
structure KeepsParts (core : Nat) (P : Nic M → Prop) : Prop where
  load : ∀ offset, Keeps P (onMemory (Memory.loadControl offset))
  read : ∀ offset len, Keeps P (onMemory (Memory.read offset len))
  write : ∀ offset data, Keeps P (onMemory (Memory.write offset data))
  modifyCore : ∀ f, Keeps P (modifyCore core f)

namespace KeepsParts

variable {core : Nat} {P : Nic M → Prop} (h : KeepsParts core P)
include h

theorem noteAccess (d : Direction) (parity : Bool) : Keeps P (noteAccess core d parity) :=
  .get_bind fun _ _ => (h.load _).bind fun _ => h.modifyCore _

theorem serveRx (parity : Bool) : Keeps P (serveRx core parity) := by
  refine (h.noteAccess ..).bind fun _ => .get_bind fun d _ => ?_
  refine (keeps_coreState core).bind fun c => (h.modifyCore _).bind fun _ => ?_
  split
  · exact (h.write ..).bind fun _ => h.modifyCore _
  · split
    · exact (h.write ..).bind fun _ => (h.write ..).bind fun _ => h.modifyCore _
    · exact (h.write ..).bind fun _ => h.modifyCore _

theorem consumeTx (doorbell : Bool) : Keeps P (consumeTx core doorbell) := by
  refine (h.noteAccess ..).bind fun _ => (h.modifyCore _).bind fun _ => ?_
  refine .get_bind fun d _ => (h.read ..).bind fun b => ?_
  dsimp only
  split
  · split
    · exact (h.read ..).bind fun _ => (h.write ..).bind fun _ => h.modifyCore _
    · exact (Keeps.pure _).bind fun _ => (h.write ..).bind fun _ => h.modifyCore _
  · exact .pure _

end KeepsParts

variable {n : Nat}

theorem keeps_onMemory {α : Type} {a : Access M α} (ha : Keeps (fun m => Memory.size m = n) a) :
    Keeps (fun d : Nic M => Memory.size d = n) (onMemory a) :=
  .onPart fun _ _ _ h hd => ha.out h hd

theorem keeps_modifyCore (core : Nat) (f : NicCore → NicCore) :
    Keeps (fun d : Nic M => Memory.size d = n) (modifyCore core f) := .modify fun _ h => h

variable [LawfulMemory M]

theorem keepsParts_size (core : Nat) :
    KeepsParts core fun d : Nic M => Memory.size d = n where
  load _ := keeps_onMemory (LawfulMemory.keeps_load _)
  read _ _ := keeps_onMemory (LawfulMemory.size_read ..)
  write _ _ := keeps_onMemory (LawfulMemory.size_write ..)
  modifyCore := keeps_modifyCore core

instance : LawfulMemory (Nic M) where
  load_inside offset d h := ends_onMemory (LawfulMemory.load_inside offset d.memory h)
  load_outside offset d h :=
    (LawfulMemory.load_outside offset d.memory h).imp fun _ hf => ends_onMemory hf
  store_inside offset byte d h := by
    obtain ⟨m, hm, hsize, hbytes⟩ := LawfulMemory.store_inside offset byte d.memory h
    exact ⟨_, ends_onMemory hm, hsize, hbytes⟩
  size_read offset len n := by
    refine .get_bind fun d _ => ?_
    have read := keeps_onMemory (LawfulMemory.size_read (M := M) offset len n)
    split
    · exact ((keepsParts_size _).serveRx _).bind fun _ => read
    · exact read
  size_write offset data n := keeps_onMemory (LawfulMemory.size_write ..)
  size_touch offset n := by
    refine .get_bind fun d _ => ?_
    have touch := keeps_onMemory (LawfulMemory.size_touch (M := M) offset n)
    split
    · exact ((keepsParts_size _).consumeTx _).bind fun _ => touch
    · exact touch
  size_invalidate offset n := keeps_onMemory (LawfulMemory.size_invalidate ..)

end Nic

namespace Flaky

theorem keeps_spend {n : Nat} : Keeps (fun m : Flaky => Memory.size m = n) spend := by
  refine .bind (.modify fun _ h => h) fun _ => .get_bind fun m _ => ?_
  unfold Access.expect Access.require
  split
  · exact .pure _
  · exact .throw _

theorem ends_onRegion {α : Type} {a : Access Region α} {m : Flaky} {r : Except Fault α}
    {region : Region} (h : Ends a m.region r region) : Ends (onRegion a) m r { m with region } :=
  .onPart h

theorem keeps_onRegion {n : Nat} {α : Type} {a : Access Region α}
    (ha : Keeps (fun r => Memory.size r = n) a) :
    Keeps (fun m : Flaky => Memory.size m = n) (onRegion a) :=
  .onPart fun _ _ _ h hm => ha.out h hm

theorem keeps_read {n : Nat} (offset len : Nat) :
    Keeps (fun m : Flaky => Memory.size m = n) (read offset len) :=
  keeps_spend.bind fun _ => (keeps_onRegion (LawfulMemory.size_read ..)).bind fun _ =>
    .get_bind fun _ _ => .pure _

instance : LawfulMemory Flaky where
  load_inside offset m h := ends_onRegion (LawfulMemory.load_inside offset m.region h)
  load_outside offset m h :=
    (LawfulMemory.load_outside offset m.region h).imp fun _ hf => ends_onRegion hf
  store_inside offset byte m h := by
    obtain ⟨r, hr, hsize, hbytes⟩ := LawfulMemory.store_inside offset byte m.region h
    exact ⟨_, ends_onRegion hr, hsize, hbytes⟩
  size_read offset len n := keeps_read offset len
  size_write offset data n := keeps_spend.bind fun _ => .get_bind fun m _ =>
    keeps_onRegion (LawfulMemory.size_write ..)
  size_touch offset n := (keeps_read offset 1).map
  size_invalidate offset n := .pure _

end Flaky

namespace Backing

theorem ends_access_plain {α : Type} {onPlain : Access Region α}
    {onDevice : Access (Nic Region) α} {m m' : Region} {r : Except Fault α}
    (h : Ends onPlain m r m') : Ends (access onPlain onDevice) (plain m) r (plain m') :=
  congrArg (fun q : Except Fault α × Region => (q.1, plain q.2)) h

theorem ends_access_device {α : Type} {onPlain : Access Region α}
    {onDevice : Access (Nic Region) α} {d d' : Nic Region} {r : Except Fault α}
    (h : Ends onDevice d r d') : Ends (access onPlain onDevice) (device d) r (device d') :=
  congrArg (fun q : Except Fault α × Nic Region => (q.1, device q.2)) h

theorem keeps_access {n : Nat} {α : Type} {onPlain : Access Region α}
    {onDevice : Access (Nic Region) α} (hr : Keeps (fun r => Memory.size r = n) onPlain)
    (hd : Keeps (fun d => Memory.size d = n) onDevice) :
    Keeps (fun b : Backing => Memory.size b = n) (access onPlain onDevice) := by
  refine ⟨fun {b r b'} h hb => ?_⟩
  cases b with
  | plain m =>
    obtain ⟨-, rfl⟩ := h.unique (ends_access_plain (.intro onPlain m))
    exact hr.out (.intro onPlain m) hb
  | device d =>
    obtain ⟨-, rfl⟩ := h.unique (ends_access_device (.intro onDevice d))
    exact hd.out (.intro onDevice d) hb

instance : LawfulMemory Backing where
  load_inside
    | offset, plain r, h => ends_access_plain (LawfulMemory.load_inside offset r h)
    | offset, device d, h => ends_access_device (LawfulMemory.load_inside offset d h)
  load_outside
    | offset, plain r, h =>
      (LawfulMemory.load_outside offset r h).imp fun _ hf => ends_access_plain hf
    | offset, device d, h =>
      (LawfulMemory.load_outside offset d h).imp fun _ hf => ends_access_device hf
  store_inside
    | offset, byte, plain r, h => by
      obtain ⟨m, hm, hsize, hbytes⟩ := LawfulMemory.store_inside offset byte r h
      exact ⟨_, ends_access_plain hm, hsize, hbytes⟩
    | offset, byte, device d, h => by
      obtain ⟨m, hm, hsize, hbytes⟩ := LawfulMemory.store_inside offset byte d h
      exact ⟨_, ends_access_device hm, hsize, hbytes⟩
  size_read _ _ _ := keeps_access (LawfulMemory.size_read ..) (LawfulMemory.size_read ..)
  size_write _ _ _ := keeps_access (LawfulMemory.size_write ..) (LawfulMemory.size_write ..)
  size_touch _ _ := keeps_access (LawfulMemory.size_touch ..) (LawfulMemory.size_touch ..)
  size_invalidate _ _ :=
    keeps_access (LawfulMemory.size_invalidate ..) (LawfulMemory.size_invalidate ..)

end Backing
end LineExchange
