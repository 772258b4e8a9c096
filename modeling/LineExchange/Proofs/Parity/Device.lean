import LineExchange.Proofs.Isolation.Memory
import LineExchange.Proofs.Meets
import LineExchange.Proofs.Parity.Pace

/-!
# LineExchange.Proofs.Parity.Device

What the device counts and notes while a host makes its accesses. The device is sound
(`Nic.Sound`): it has the cores of the settings, all of them within the region. Then no access of
host or device to a part of a mapped core breaks off, and while someone is inside the gate of the
core (`Nic.Held`):

* `Nic.Held.read_control`, `Nic.Held.touch`: reading an RX control line or touching a TX control
  line is noted, and the other line comes next.
* `Nic.Held.read`, `Nic.Held.write`: no other access is noted.
-/

namespace LineExchange

open ControlByte (isBusy)

variable {α : Type} {c : Config} {core len : Nat} {t : Tally}

namespace Nic

def tallyOf (d : Nic Region) (core : Nat) : Option Tally := d.cores[core]?.map (·.tally)

/-- A device with the cores of the settings, all of them within the region. -/
structure Sound (c : Config) (d : Nic Region) : Prop where
  tidy : d.Tidy c.layout
  size : d.cores.size = c.numCores
  worker_lt : ∀ core, core < c.numCores → c.layout.workerAt core < d.memory.size

/-- A sound device with the tally of a core. -/
structure Counts (c : Config) (core : Nat) (t : Tally) (d : Nic Region) : Prop where
  sound : d.Sound c
  tally : d.tallyOf core = some t

/-- Someone is inside the gate of the core. -/
structure Held (c : Config) (core : Nat) (t : Tally) (d : Nic Region) : Prop where
  counts : Counts c core t d
  busy : isBusy (d.memory.bytes.byteAt (c.layout.workerAt core)) = true

theorem Sound.exists_tally {d : Nic Region} (h : d.Sound c) (hcore : core < c.numCores) :
    ∃ t, Counts c core t d := by
  have hlt : core < d.cores.size := h.size.symm ▸ hcore
  refine ⟨d.cores[core].tally, h, ?_⟩
  rw [tallyOf, Array.getElem?_eq_getElem hlt]
  rfl

namespace Counts

variable {d : Nic Region}

theorem lt_numCores (h : Counts c core t d) : core < c.numCores := by
  obtain ⟨k, hk, -⟩ := Option.map_eq_some_iff.1 h.tally
  exact h.sound.size ▸ (Array.getElem?_eq_some_iff.1 hk).1

theorem worker_lt (h : Counts c core t d) : c.layout.workerAt core < d.memory.size :=
  h.sound.worker_lt core h.lt_numCores

theorem workerAt_lt (h : Counts c core t d) : d.layout.workerAt core < d.memory.size :=
  h.sound.tidy.layout.symm ▸ h.worker_lt

theorem exists_core (h : Counts c core t d) :
    ∃ k, Ends (coreState core) d (.ok k) d ∧ k.Fits c.layout := by
  obtain ⟨k, hk, -⟩ := Option.map_eq_some_iff.1 h.tally
  exact ⟨k, ends_coreState hk, h.sound.tidy.fits core k hk⟩

theorem part_le (h : Counts c core t d) (hl : c.layout.Ordered) {p : Part} (hp : p ≠ .worker) :
    c.layout.partAt core p + p.len c.layout ≤ d.memory.size := by
  have hbefore := p.before_worker hl hp
  calc c.layout.partAt core p + p.len c.layout
      = c.layout.coreBase core + (p.offset c.layout + p.len c.layout) := Nat.add_assoc ..
    _ ≤ c.layout.workerAt core := Nat.add_le_add_left hbefore _
    _ ≤ d.memory.size := Nat.le_of_lt h.worker_lt

theorem withMemory (h : Counts c core t d) {r : Region} (hr : r.size = d.memory.size) :
    Counts c core t { d with memory := r } :=
  ⟨⟨⟨h.sound.tidy.layout, h.sound.tidy.fits⟩, h.sound.size, hr.symm ▸ h.sound.worker_lt⟩, h.tally⟩

theorem modify (h : Counts c core t d) {f : NicCore → NicCore} {g : Tally → Tally}
    (hfits : ∀ k, k.Fits c.layout → (f k).Fits c.layout) (hg : ∀ k, (f k).tally = g k.tally) :
    Counts c core (g t) { d with cores := d.cores.modify core f } := by
  refine ⟨⟨?_, ?_, h.sound.worker_lt⟩, ?_⟩
  · exact (local_modifyCore hfits).holds d h.sound.tidy
  · exact Array.size_modify.trans h.sound.size
  · obtain ⟨k, hk, rfl⟩ := Option.map_eq_some_iff.1 h.tally
    unfold tallyOf
    rw [Array.getElem?_modify, if_pos rfl, hk]
    exact congrArg some (hg k)

end Counts

namespace Held

theorem modifyCore {f : NicCore → NicCore} {g : Tally → Tally}
    (hfits : ∀ k, k.Fits c.layout → (f k).Fits c.layout) (hg : ∀ k, (f k).tally = g k.tally) :
    Meets (Held c core t) (modifyCore core f) (fun _ => Held c core (g t)) Never :=
  .modify fun _ h => ⟨h.counts.modify hfits hg, h.busy⟩

/-- A change that the device does not count. -/
theorem restock {f : NicCore → NicCore} (hfits : ∀ k, k.Fits c.layout → (f k).Fits c.layout)
    (hf : ∀ k, (f k).tally = k.tally) :
    Meets (Held c core t) (Nic.modifyCore core f) (fun _ => Held c core t) Never :=
  modifyCore (g := id) hfits hf

theorem coreState : Meets (Held c core t) (coreState core)
    (fun k d => k.Fits c.layout ∧ Held c core t d) Never := by
  refine .of_ends ?_
  intro d h
  obtain ⟨k, hend, hfits⟩ := h.counts.exists_core
  exact ⟨_, d, hend, hfits, h⟩

theorem noteAccess (dir : Direction) (parity : Bool) : Meets (Held c core t)
    (noteAccess core dir parity) (fun _ => Held c core (t.note dir parity)) Never := by
  refine .of_ends ?_
  intro d h
  have hbusy := h.busy
  rw [← h.counts.sound.tidy.layout] at hbusy
  refine ⟨_, _, .bind (.get d) (.bind (ends_onMemory (Region.ends_loadControl h.counts.workerAt_lt))
    (ends_modifyCore core _ _)), h.counts.modify (g := .note dir parity) (fun _ hk => hk) ?_, h.busy⟩
  intro k
  rw [hbusy]
  rfl

theorem setNext (dir : Direction) (parity : Bool) : Meets (Held c core t)
    (setNext core dir parity) (fun _ => Held c core (t.expect dir parity)) Never :=
  modifyCore (fun _ hk => hk) fun _ => rfl

variable (hl : c.layout.Ordered)
include hl

theorem read (p : Part) (hp : p ≠ .worker) (hlen : len ≤ p.len c.layout) : Meets (Held c core t)
    (onMemory (Memory.read (c.layout.partAt core p) len))
    (fun b d => b.size ≤ len ∧ Held c core t d) Never := by
  refine .of_ends ?_
  intro d h
  have hin : c.layout.partAt core p + len ≤ d.memory.size :=
    Nat.le_trans (Nat.add_le_add_left hlen _) (h.counts.part_le hl hp)
  refine ⟨_, _, ends_onMemory (Region.ends_read hin), ?_, h⟩
  rw [Bytes.size_slice]
  exact Nat.min_le_left ..

theorem write (p : Part) (hp : p ≠ .worker) {data : Bytes} (hdata : data.size ≤ p.len c.layout) :
    Meets (Held c core t) (onMemory (Memory.write (c.layout.partAt core p) data))
      (fun _ => Held c core t) Never := by
  refine .of_ends ?_
  intro d h
  have hpart := h.counts.part_le hl hp
  have hin : c.layout.partAt core p + data.size ≤ d.memory.size :=
    Nat.le_trans (Nat.add_le_add_left hdata _) hpart
  have hsame := c.layout.sameBut_patch hl hdata hpart
  refine ⟨_, _, ends_onMemory (Region.ends_write hin), h.counts.withMemory hsame.size, ?_⟩
  show isBusy (Bytes.byteAt (d.memory.bytes.patch _ _) _) = true
  rw [hsame.byteAt_worker (.inr (Ne.symm hp))]
  exact h.busy

theorem writeLine (dir : Direction) (parity : Bool) (line : Line) : Meets (Held c core t)
    (onMemory (Memory.write (c.layout.controlAt core dir parity) line.bytes))
    (fun _ => Held c core t) Never :=
  write hl (.control dir parity) (by simp) (Nat.le_of_eq line.size_bytes)

theorem serveRx (parity : Bool) : Meets (Held c core t) (serveRx core parity)
    (fun _ => Held c core ((t.note .rx parity).expect .rx !parity)) Never := by
  have finish (line : Line) : Meets (Held c core (t.note .rx parity))
      (onMemory (Memory.write (c.layout.controlAt core .rx parity) line.bytes) >>= fun _ =>
        Nic.setNext core .rx !parity : Access (Nic Region) Unit)
      (fun _ => Held c core ((t.note .rx parity).expect .rx !parity)) Never :=
    (writeLine hl .rx parity line).bind fun _ => setNext .rx _
  refine (noteAccess .rx parity).bind fun _ => .get_bind ?_
  intro d h
  rw [h.counts.sound.tidy.layout]
  refine coreState.bind fun k => .assume fun hk => ?_
  refine (restock (f := fun k => { k with queue := k.queue.tail }) (fun _ hk => hk.tail)
    fun _ => rfl).bind fun _ => ?_
  split
  · exact finish .zero
  · next raw rest hq =>
    have hfits : raw.overflow.size ≤ c.layout.overflowSize := hk raw (hq ▸ .head _)
    split
    · exact (write hl (.overflow .rx) (by simp) hfits).bind fun _ => finish raw.control
    · exact finish raw.control

theorem consumeTx (doorbell : Bool) : Meets (Held c core t) (consumeTx core doorbell)
    (fun _ => Held c core ((t.note .tx !doorbell).expect .tx doorbell)) Never := by
  have hcap := c.layout.payloadCapacity_eq hl
  refine (noteAccess .tx _).bind fun _ => (setNext .tx doorbell).bind fun _ => .get_bind ?_
  intro d h
  rw [h.counts.sound.tidy.layout]
  generalize (t.note .tx !doorbell).expect .tx doorbell = t'
  refine (read hl (.control .tx !doorbell) (by simp) (Nat.le_refl _)).bind fun b => .assume fun _ => ?_
  have take (overflow : Bytes) (packet : Packet) (hfits : overflow.size ≤ c.layout.overflowSize) :
      Meets (Held c core t')
        (onMemory (Memory.write (c.layout.controlAt core .tx !doorbell) Line.zero.bytes) >>= fun _ =>
          Nic.modifyCore core fun k =>
            { k with
              queue := if k.loopback then k.queue ++ [⟨.ofBytes b, overflow⟩] else k.queue
              sent := k.sent ++ [packet] } : Access (Nic Region) Unit)
        (fun _ => Held c core t') Never :=
    (writeLine hl .tx _ .zero).bind fun _ => restock (fun _ hk => hk.loop hfits _) fun _ => rfl
  dsimp only
  split
  · have hlen : min (d.format.decode (.ofBytes b)).length c.layout.payloadCapacity - inlineSize ≤
        c.layout.overflowSize := by
      omega
    split
    · refine (read hl (.overflow .tx) (by simp) hlen).bind fun overflow => .assume fun hsize => ?_
      exact take overflow _ (Nat.le_trans hsize hlen)
    · refine .bind (.pure (Q := fun b d => b = ByteArray.empty ∧ Held c core t' d)
        fun d h => ⟨rfl, h⟩) fun overflow => .assume fun hempty => ?_
      exact take overflow _ (hempty ▸ Nat.zero_le _)
  · exact .pure fun _ h => h

/-! ## The accesses of a host -/

theorem locate {d : Nic Region} (h : Held c core t d) (dir : Direction) (parity : Bool) :
    d.locate (c.layout.controlAt core dir parity) = some (core, dir, parity) := by
  have hlt : core < d.cores.size := h.counts.sound.size.symm ▸ h.counts.lt_numCores
  rw [← h.counts.sound.tidy.layout]
  exact locate_control (h.counts.sound.tidy.layout.symm ▸ hl) hlt dir parity

theorem read_control (parity : Bool) : Meets (Held c core t)
    (Memory.read (c.layout.controlAt core .rx parity) lineSize : Access (Nic Region) Bytes)
    (fun _ => Held c core ((t.note .rx parity).expect .rx !parity)) Never := by
  refine .get_bind ?_
  intro d h
  rw [h.locate hl]
  refine (serveRx hl parity).bind fun _ => ?_
  exact (read hl (.control .rx parity) (by simp) (Nat.le_refl _)).conseq (fun _ h => h) (fun _ _ h => h.2)
    fun _ _ h => h

theorem read_overflow (hlen : len ≤ c.layout.overflowSize) : Meets (Held c core t)
    (Memory.read (c.layout.overflowAt core .rx) len : Access (Nic Region) Bytes)
    (fun _ => Held c core t) Never := by
  refine .get_bind ?_
  intro d h
  have hlayout := h.counts.sound.tidy.layout
  have hlt : core < d.cores.size := h.counts.sound.size.symm ▸ h.counts.lt_numCores
  split
  · next other parity hat =>
    rw [← hlayout] at hat
    exact absurd hat (locate_overflow (hlayout.symm ▸ hl) hlt parity other)
  · exact (read hl (.overflow .rx) (by simp) hlen).conseq (fun _ h => h) (fun _ _ h => h.2) fun _ _ h => h

theorem touch (parity : Bool) : Meets (Held c core t)
    (Memory.touch (c.layout.controlAt core .tx parity) : Access (Nic Region) Unit)
    (fun _ => Held c core ((t.note .tx !parity).expect .tx parity)) Never := by
  refine .get_bind ?_
  intro d h
  rw [h.locate hl]
  refine (consumeTx hl parity).bind fun _ => .of_ends ?_
  intro d h
  have hin : c.layout.controlAt core .tx parity < d.memory.size :=
    Layout.lt_of_line_le (h.counts.part_le hl (p := .control .tx parity) (by simp))
  exact ⟨_, _, ends_onMemory (Region.ends_touch hin), h⟩

end Held
end Nic
end LineExchange
