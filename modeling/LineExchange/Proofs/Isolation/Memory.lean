import LineExchange.Proofs.Isolation.Confined
import LineExchange.Proofs.Isolation.Windows
import LineExchange.Proofs.Nic.React

/-!
# LineExchange.Proofs.Isolation.Memory

Accesses to a window keep to its core: on a plain region, on a region behind a device, which
reacts to some of them, and on either.

* `Region.Alike`, `Nic.Alike`, `Backing.Alike`: two memories look the same from a core.
* `Nic.local_serveRx`, `Nic.local_consumeTx`: so does what the device does of its own accord. It
  relies on `NicCore.Fits`: what is queued fits the overflow array.
* `Backing.local_read` and its like: the accesses of a host.
-/

namespace LineExchange

variable {ε α : Type} {l : Layout} {core start len : Nat}

namespace Region

/-- Two regions look the same from a core. -/
structure Alike (l : Layout) (core : Nat) (r r' : Region) : Prop where
  size : r.size = r'.size
  bytes : ∀ i, l.InWindow core i → r.bytes.byteAt i = r'.bytes.byteAt i

theorem Alike.refl (r : Region) : Alike l core r r := ⟨rfl, fun _ _ => rfl⟩

theorem Alike.symm {r r' : Region} (h : Alike l core r r') : Alike l core r' r :=
  ⟨h.size.symm, fun i hi => (h.bytes i hi).symm⟩

theorem Alike.trans {r r' r'' : Region} (h : Alike l core r r') (h' : Alike l core r' r'') :
    Alike l core r r'' :=
  ⟨h.size.trans h'.size, fun i hi => (h.bytes i hi).trans (h'.bytes i hi)⟩

def scope (l : Layout) : Nat → Scope Region :=
  .ofCore (fun _ => True) (Alike l) (fun _ => .refl) .trans

theorem local_checkBounds (start len : Nat) : Local (scope l core) (checkBounds start len) := by
  refine .get_bind ?_ ?_
  · intro r r' _ _ h
    simp only [boundsFault?, h.size]
  · intro r _
    split
    · exact .pure _
    · exact .throw _

theorem Alike.slice_eq {r r' : Region} (h : Alike l core r r') (hw : l.Within core start len) :
    r.bytes.slice start len = r'.bytes.slice start len := by
  have hsize : r.bytes.size = r'.bytes.size := h.size
  refine Bytes.ext_byteAt (by simp [hsize]) ?_
  intro i hi
  rw [Bytes.size_slice] at hi
  have hlt : i < len := by omega
  rw [Bytes.byteAt_slice, Bytes.byteAt_slice, if_pos hlt, if_pos hlt]
  exact h.bytes _ (hw.inWindow (by omega) (by omega))

/-- A change within one window is not seen from any other core. -/
theorem local_modify (h : l.Ordered) {g : Bytes → Bytes} (hsize : ∀ b, (g b).size = b.size)
    (hsame : ∀ b b' i, b.size = b'.size → b.byteAt i = b'.byteAt i →
      (g b).byteAt i = (g b').byteAt i)
    (hother : ∀ b i, ¬l.InWindow core i → (g b).byteAt i = b.byteAt i) :
    Local (scope l core) (modify fun r => ⟨g r.bytes⟩ : Access Region PUnit) := by
  refine .modify ?_ ?_ ?_
  · intro r _
    exact trivial
  · intro r _ other hne
    refine ⟨(hsize r.bytes).symm, ?_⟩
    intro i hi
    refine (hother r.bytes i ?_).symm
    intro hi'
    exact hne (hi.unique h hi')
  · intro r r' _ _ halike
    refine ⟨(hsize _).trans (halike.size.trans (hsize _).symm), ?_⟩
    intro i hi
    exact hsame _ _ i halike.size (halike.bytes i hi)

theorem local_read (hw : l.Within core start len) :
    Local (scope l core) (Memory.read start len : Access Region Bytes) := by
  refine (local_checkBounds start len).bind fun _ => .get_bind ?_ fun _ _ => .pure _
  intro r r' _ _ h
  rw [h.slice_eq hw]

theorem local_write (h : l.Ordered) {data : Bytes} (hw : l.Within core start data.size) :
    Local (scope l core) (Memory.write start data : Access Region Unit) := by
  refine (local_checkBounds start data.size).bind fun _ =>
    local_modify h (g := fun b => b.patch start data) (fun _ => Bytes.size_patch ..) ?_ ?_
  · intro b b' i hsize heq
    by_cases hfits : start + data.size ≤ b.size
    · rw [Bytes.byteAt_patch hfits, Bytes.byteAt_patch (hsize ▸ hfits), heq]
    · rw [Bytes.patch, if_neg hfits, Bytes.patch, if_neg (hsize ▸ hfits), heq]
  · intro b i hi
    by_cases hfits : start + data.size ≤ b.size
    · rw [Bytes.byteAt_patch hfits, if_neg]
      rintro ⟨hle, hlt⟩
      exact hi (hw.inWindow hle hlt)
    · rw [Bytes.patch, if_neg hfits]

theorem local_touch : Local (scope l core) (Memory.touch start : Access Region Unit) :=
  local_checkBounds start 1

theorem local_load (hw : l.InWindow core start) :
    Local (scope l core) (Memory.loadControl start : Access Region UInt8) := by
  refine (local_checkBounds start 1).bind fun _ => .get_bind ?_ fun _ _ => .pure _
  intro r r' _ _ h
  rw [h.bytes start hw]

theorem local_store (h : l.Ordered) (hw : l.InWindow core start) (byte : UInt8) :
    Local (scope l core) (Memory.storeControl start byte : Access Region Unit) := by
  refine (local_checkBounds start 1).bind fun _ =>
    local_modify h (g := fun b => b.put start byte) (fun _ => Bytes.size_put ..) ?_ ?_
  · intro b b' i hsize heq
    rw [Bytes.byteAt_put, Bytes.byteAt_put, heq, hsize]
  · intro b i hi
    rw [Bytes.byteAt_put, if_neg]
    rintro ⟨rfl, -⟩
    exact hi hw

theorem returns_read (P : Region → Prop) :
    Returns P (fun b : Bytes => b.size ≤ len) (Memory.read start len) := by
  intro r b r' _ hend
  by_cases hin : start + len ≤ r.size
  · obtain ⟨heq, -⟩ := hend.unique (ends_read hin)
    cases heq
    rw [Bytes.size_slice]
    exact Nat.min_le_left ..
  · obtain ⟨heq, -⟩ := hend.unique (Ends.bind_error (ends_checkBounds_outside hin))
    cases heq

end Region

/-- Whether all that is queued fits the overflow array. -/
def NicCore.Fits (l : Layout) (c : NicCore) : Prop :=
  ∀ raw ∈ c.queue, raw.overflow.size ≤ l.overflowSize

namespace NicCore.Fits

variable {c : NicCore} (h : c.Fits l)
include h

theorem tail : ({ c with queue := c.queue.tail } : NicCore).Fits l :=
  fun raw hraw => h raw (List.mem_of_mem_tail hraw)

variable {raw : RawTransaction} (hraw : raw.overflow.size ≤ l.overflowSize)
include hraw

theorem push : ({ c with queue := c.queue ++ [raw] } : NicCore).Fits l := by
  intro r hr
  rcases List.mem_append.1 hr with hr | hr
  · exact h r hr
  · cases List.mem_singleton.1 hr
    exact hraw

theorem loop (sent : List Packet) :
    ({ c with queue := if c.loopback then c.queue ++ [raw] else c.queue, sent } : NicCore).Fits l := by
  cases hloop : c.loopback with
  | false => exact h
  | true => exact h.push hraw

end NicCore.Fits

namespace Nic

/-- Two devices look the same from a core. -/
structure Alike (l : Layout) (core : Nat) (d d' : Nic Region) : Prop where
  memory : d.memory.Alike l core d'.memory
  layout : d.layout = d'.layout
  format : d.format = d'.format
  size : d.cores.size = d'.cores.size
  state : d.cores[core]? = d'.cores[core]?

/-- A device for the layout whose queues fit its overflow arrays. -/
structure Tidy (l : Layout) (d : Nic Region) : Prop where
  layout : d.layout = l
  fits : ∀ (core : Nat) (c : NicCore), d.cores[core]? = some c → c.Fits l

theorem Alike.refl (d : Nic Region) : Alike l core d d := ⟨.refl _, rfl, rfl, rfl, rfl⟩

theorem Alike.symm {d d' : Nic Region} (h : Alike l core d d') : Alike l core d' d :=
  ⟨h.memory.symm, h.layout.symm, h.format.symm, h.size.symm, h.state.symm⟩

theorem Alike.trans {d d' d'' : Nic Region} (h : Alike l core d d') (h' : Alike l core d' d'') :
    Alike l core d d'' :=
  ⟨h.memory.trans h'.memory, h.layout.trans h'.layout, h.format.trans h'.format,
    h.size.trans h'.size, h.state.trans h'.state⟩

def scope (l : Layout) : Nat → Scope (Nic Region) :=
  .ofCore (Tidy l) (Alike l) (fun _ => .refl) .trans

theorem local_onMemory {a : Access Region α} (ha : Local (Region.scope l core) a) :
    Local (scope l core) (onMemory a) := by
  refine .onPart ?_ ha
  constructor
  · intro d _
    exact trivial
  · intro d m hd _
    exact ⟨hd.layout, hd.fits⟩
  · intro d m _ h other hne
    exact ⟨h other hne, rfl, rfl, rfl, rfl⟩
  · intro d d' h
    exact h.memory
  · intro d d' m m' h hm
    exact ⟨hm, h.layout, h.format, h.size, h.state⟩

theorem local_modifyCore {f : NicCore → NicCore} (hf : ∀ c, c.Fits l → (f c).Fits l) :
    Local (scope l core) (modifyCore core f) := by
  have at_ (d : Nic Region) (other : Nat) : (d.cores.modify core f)[other]? =
      if core = other then d.cores[other]?.map f else d.cores[other]? := Array.getElem?_modify
  refine .modify ?_ ?_ ?_
  · intro d hd
    refine ⟨hd.layout, ?_⟩
    intro other c hc
    dsimp only at hc
    rw [at_] at hc
    split at hc
    · obtain ⟨c', hc', rfl⟩ := Option.map_eq_some_iff.1 hc
      exact hf c' (hd.fits other c' hc')
    · exact hd.fits other c hc
  · intro d _ other hne
    refine ⟨.refl _, rfl, rfl, Array.size_modify.symm, ?_⟩
    dsimp only
    rw [at_, if_neg (Ne.symm hne)]
  · intro d d' _ _ h
    refine ⟨h.memory, h.layout, h.format, ?_, ?_⟩
    · dsimp only
      rw [Array.size_modify, Array.size_modify, h.size]
    · dsimp only
      rw [at_, at_, if_pos rfl, if_pos rfl, h.state]

theorem local_setNext (dir : Direction) (parity : Bool) :
    Local (scope l core) (setNext core dir parity : Access (Nic Region) Unit) :=
  local_modifyCore fun _ hc => hc

theorem local_coreState : Local (scope l core) (coreState core : Access (Nic Region) NicCore) := by
  refine .get_bind ?_ ?_
  · intro d d' _ _ h
    rw [h.state]
  · intro d _
    split
    · exact .pure _
    · exact .throw _

theorem returns_coreState :
    Returns (Tidy l) (·.Fits l) (coreState core : Access (Nic Region) NicCore) := by
  intro d c d' hd hend
  cases hc : d.cores[core]? with
  | some c' =>
    obtain ⟨heq, -⟩ := hend.unique (ends_coreState hc)
    cases heq
    exact hd.fits core _ hc
  | none =>
    have hthrow : Ends (coreState core) d (.error .outOfRange) d := by
      refine .bind (.get d) ?_
      rw [hc]
      exact .throw _ d
    obtain ⟨heq, -⟩ := hend.unique hthrow
    cases heq

theorem returns_read {P : Nic Region → Prop} :
    Returns P (fun b : Bytes => b.size ≤ len) (onMemory (Memory.read start len)) := by
  intro d b d' _ hend
  obtain ⟨heq, -⟩ := hend.unique (ends_onMemory (.intro _ d.memory))
  exact Region.returns_read (fun _ => True) d.memory b _ trivial (heq ▸ Ends.intro _ d.memory)

variable (h : l.Ordered)
include h

theorem local_noteAccess (dir : Direction) (parity : Bool) :
    Local (scope l core) (noteAccess core dir parity : Access (Nic Region) Unit) := by
  refine .get_bind ?_ ?_
  · intro d d' _ _ halike
    rw [halike.layout]
  · intro d hd
    rw [hd.layout]
    refine .bind (local_onMemory (Region.local_load (Layout.Within.worker h core).starts)) ?_
    intro byte
    exact local_modifyCore fun _ hc => hc

/-- Filling an RX line keeps to the core. -/
theorem local_serveRx (parity : Bool) :
    Local (scope l core) (serveRx core parity : Access (Nic Region) Unit) := by
  have finish (line : Line) : Local (scope l core)
      (onMemory (Memory.write (l.controlAt core .rx parity) line.bytes) >>= fun _ =>
        setNext core .rx !parity : Access (Nic Region) Unit) := by
    refine .bind (local_onMemory (Region.local_write h ?_)) fun _ => local_setNext .rx _
    rw [line.size_bytes]
    exact .control h core .rx parity
  refine (local_noteAccess h .rx parity).bind fun _ => .get_bind ?_ ?_
  · intro d d' _ _ halike
    rw [halike.layout]
  · intro d hd
    rw [hd.layout]
    refine local_coreState.bind_of returns_coreState ?_
    intro c hc
    refine .bind (local_modifyCore fun _ hc => hc.tail) fun _ => ?_
    split
    · exact finish .zero
    · next raw rest hq =>
      have hfits : raw.overflow.size ≤ l.overflowSize := hc raw (hq ▸ .head _)
      split
      · refine .bind (local_onMemory (Region.local_write h ?_)) fun _ => finish raw.control
        exact .overflow h core .rx hfits
      · exact finish raw.control

/-- Taking what lies in a TX line keeps to the core. -/
theorem local_consumeTx (doorbell : Bool) :
    Local (scope l core) (consumeTx core doorbell : Access (Nic Region) Unit) := by
  refine (local_noteAccess h .tx _).bind fun _ => (local_setNext .tx doorbell).bind fun _ => ?_
  refine .get_bind ?_ ?_
  · intro d d' _ _ halike
    rw [halike.layout, halike.format]
  · intro d hd
    rw [hd.layout]
    refine .bind (local_onMemory (Region.local_read (.control h core .tx !doorbell))) fun b => ?_
    have take (overflow : Bytes) (t : Transaction) (payload : Bytes)
        (hfits : overflow.size ≤ l.overflowSize) : Local (scope l core)
        (onMemory (Memory.write (l.controlAt core .tx !doorbell) Line.zero.bytes) >>= fun _ =>
          modifyCore core fun c =>
            { c with
              queue := if c.loopback then c.queue ++ [⟨.ofBytes b, overflow⟩] else c.queue
              sent := c.sent ++ [⟨t, payload⟩] } : Access (Nic Region) Unit) := by
      refine .bind (local_onMemory (Region.local_write h ?_)) fun _ =>
        local_modifyCore fun _ hc => hc.loop hfits _
      rw [Line.zero.size_bytes]
      exact .control h core .tx !doorbell
    dsimp only
    split
    · have hcap := l.payloadCapacity_eq h
      have hlen : min (d.format.decode (.ofBytes b)).length l.payloadCapacity - inlineSize ≤
          l.overflowSize := by
        omega
      split
      · refine Local.bind_of (local_onMemory (Region.local_read (.overflow h core .tx hlen)))
          returns_read ?_
        intro overflow hsize
        exact take overflow _ _ (Nat.le_trans hsize hlen)
      · refine Local.bind_of (.pure _) (Q := (·.size ≤ l.overflowSize)) ?_ ?_
        · exact Returns.pure (Nat.zero_le _)
        · intro overflow hsize
          exact take overflow _ _ hsize
    · exact .pure _

omit h in
theorem locate_congr {d d' : Nic Region} (halike : Alike l core d d') (offset : Nat) :
    d.locate offset = d'.locate offset := by
  simp only [locate, halike.layout, halike.size]

/-- A line that starts in the window of a core is a line of that core. -/
theorem core_of_locate {d : Nic Region} (hd : Tidy l d) (hw : l.InWindow core start)
    {other : Nat} {dir : Direction} {parity : Bool}
    (hat : d.locate start = some (other, dir, parity)) : other = core := by
  obtain ⟨-, rfl⟩ := of_locate hat
  rw [hd.layout] at hw
  exact (Layout.Within.control h other dir parity).starts.unique h hw

theorem local_read (hw : l.Within core start len) :
    Local (scope l core) (Memory.read start len : Access (Nic Region) Bytes) := by
  have read := local_onMemory (Region.local_read hw)
  refine .get_bind ?_ ?_
  · intro d d' _ _ halike
    rw [locate_congr halike]
  · intro d hd
    split
    · next other parity hat =>
      rw [core_of_locate h hd hw.starts hat]
      exact (local_serveRx h parity).bind fun _ => read
    · exact read

theorem local_touch (hw : l.InWindow core start) :
    Local (scope l core) (Memory.touch start : Access (Nic Region) Unit) := by
  have touch : Local (scope l core) (onMemory (Memory.touch start)) :=
    local_onMemory Region.local_touch
  refine .get_bind ?_ ?_
  · intro d d' _ _ halike
    rw [locate_congr halike]
  · intro d hd
    split
    · next other parity hat =>
      rw [core_of_locate h hd hw hat]
      exact (local_consumeTx h parity).bind fun _ => touch
    · exact touch

/-! ## What is asked of the device -/

theorem local_setReady (v : Bool) :
    Local (scope l core) (setReady core v : Access (Nic Region) Unit) := by
  have hw := (Layout.Within.worker h core).starts
  refine .get_bind ?_ ?_
  · intro d d' _ _ halike
    rw [halike.layout]
  · intro d hd
    rw [hd.layout]
    exact (local_onMemory (Region.local_load hw)).bind fun _ =>
      local_onMemory (Region.local_store h hw _)

omit h in
theorem local_injectRaw {raw : RawTransaction} (hraw : raw.overflow.size ≤ l.overflowSize) :
    Local (scope l core) (injectRaw core raw : Access (Nic Region) Unit) :=
  local_coreState.bind fun _ => local_modifyCore fun _ hc => hc.push hraw

theorem fits_rawOf {f : Format} {t : Transaction} {payload : Bytes} {raw : RawTransaction}
    (hraw : rawOf l f t payload = .ok raw) : raw.overflow.size ≤ l.overflowSize := by
  have hcap := l.payloadCapacity_eq h
  unfold rawOf at hraw
  split at hraw
  · cases hraw
  · split at hraw
    · cases hraw
    · cases hraw
      rw [Bytes.size_slice]
      omega

theorem local_inject (t : Transaction) (payload : Bytes) : Local (scope l core)
    (inject core t payload : Access (Nic Region) (Except EncodeError Unit)) := by
  refine .get_bind ?_ ?_
  · intro d d' _ _ halike
    rw [halike.layout, halike.format]
  · intro d hd
    rw [hd.layout]
    split
    · exact .pure _
    · next raw hraw => exact (local_injectRaw (fits_rawOf h hraw)).bind fun _ => .pure _

omit h in
theorem local_setLoopback (v : Bool) :
    Local (scope l core) (setLoopback core v : Access (Nic Region) Unit) :=
  local_coreState.bind fun _ => local_modifyCore fun _ hc => hc

omit h in
theorem local_takeSent :
    Local (scope l core) (takeSent core : Access (Nic Region) (List Packet)) :=
  local_coreState.bind fun _ =>
    (local_modifyCore (f := fun c => { c with sent := [] }) fun _ hc => hc).bind fun _ => .pure _

end Nic

namespace Backing

/-- Two backings of one kind look the same from a core. -/
inductive Alike (l : Layout) (core : Nat) : Backing → Backing → Prop where
  | plain {r r' : Region} : r.Alike l core r' → Alike l core (plain r) (plain r')
  | device {d d' : Nic Region} : d.Alike l core d' → Alike l core (device d) (device d')

/-- A device, if there is one, is tidy. -/
def Tidy (l : Layout) : Backing → Prop
  | plain _ => True
  | device d => d.Tidy l

theorem Alike.refl (b : Backing) : Alike l core b b := by
  cases b with
  | plain r => exact .plain (.refl r)
  | device d => exact .device (.refl d)

theorem Alike.symm {b b' : Backing} (h : Alike l core b b') : Alike l core b' b := by
  cases h with
  | plain hr => exact .plain hr.symm
  | device hd => exact .device hd.symm

theorem Alike.trans {b b' b'' : Backing} (h : Alike l core b b') (h' : Alike l core b' b'') :
    Alike l core b b'' := by
  cases h with
  | plain hr =>
    cases h' with
    | plain hr' => exact .plain (hr.trans hr')
  | device hd =>
    cases h' with
    | device hd' => exact .device (hd.trans hd')

def scope (l : Layout) : Nat → Scope Backing :=
  .ofCore (Tidy l) (Alike l) (fun _ => .refl) .trans

theorem local_access {onPlain : Access Region α} {onDevice : Access (Nic Region) α}
    (hp : Local (Region.scope l core) onPlain) (hd : Local (Nic.scope l core) onDevice) :
    Local (scope l core) (access onPlain onDevice) := by
  constructor
  · intro b hb
    cases b with
    | plain r => exact trivial
    | device d => exact hd.holds d hb
  · intro b hb other hne
    cases b with
    | plain r => exact .plain (hp.rest r trivial other hne)
    | device d => exact .device (hd.rest d hb other hne)
  · intro b b' hb hb' h
    cases h with
    | plain hr =>
      obtain ⟨heq, hown⟩ := hp.own _ _ trivial trivial hr
      exact ⟨heq, .plain hown⟩
    | device hr =>
      obtain ⟨heq, hown⟩ := hd.own _ _ hb hb' hr
      exact ⟨heq, .device hown⟩

variable (h : l.Ordered)
include h

theorem local_read (hw : l.Within core start len) :
    Local (scope l core) (Memory.read start len : Access Backing Bytes) :=
  local_access (Region.local_read hw) (Nic.local_read h hw)

theorem local_write {data : Bytes} (hw : l.Within core start data.size) :
    Local (scope l core) (Memory.write start data : Access Backing Unit) :=
  local_access (Region.local_write h hw) (Nic.local_onMemory (Region.local_write h hw))

theorem local_touch (hw : l.InWindow core start) :
    Local (scope l core) (Memory.touch start : Access Backing Unit) :=
  local_access Region.local_touch (Nic.local_touch h hw)

omit h in
theorem local_invalidate :
    Local (scope l core) (Memory.invalidate start : Access Backing Unit) :=
  local_access (.pure _) (Nic.local_onMemory (.pure _))

theorem local_load : Local (scope l core)
    (Memory.loadControl (l.workerAt core) : Access Backing UInt8) := by
  have hw := (Layout.Within.worker h core).starts
  exact local_access (Region.local_load hw) (Nic.local_onMemory (Region.local_load hw))

theorem local_store (byte : UInt8) : Local (scope l core)
    (Memory.storeControl (l.workerAt core) byte : Access Backing Unit) := by
  have hw := (Layout.Within.worker h core).starts
  exact local_access (Region.local_store h hw byte)
    (Nic.local_onMemory (Region.local_store h hw byte))

end Backing
end LineExchange
