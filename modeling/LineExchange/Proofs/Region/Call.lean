import LineExchange.Proofs.Exchange.Payload

/-!
# LineExchange.Proofs.Region.Call

Calls of a host over a plain region, on a core whose gate lets in. Such a call enters at once. Its
critical section finds the region with the control byte busy, and apart from that byte what it
makes of the region is what the call leaves.

* `Exchange.Ready`: the core is mapped, its window lies in the region, and its gate lets in.
* `Exchange.Ready.enter`, `Exchange.Ready.leave`: the rules for entering and for critical sections.
-/

namespace LineExchange

open ControlByte (LetsIn isBusy setBusy)

namespace Host

variable {host : Host Region} {core : Nat}

theorem byte_gateOf : (host.gateOf core).byte = host.memory.bytes.byteAt (host.workerAt core) :=
  Region.controlByte_eq ..

theorem memory_withGate (g : Gate) (h : host.workerAt core < host.memory.size) :
    (host.withGate core g).memory = ⟨host.memory.bytes.put (host.workerAt core) g.byte⟩ :=
  congrArg Prod.snd (Region.ends_storeControl g.byte h)

end Host

namespace Exchange

variable {α σ : Type} {x : Exchange Region}

/-- The owner's core is mapped, its window lies in the region, and its gate lets in. -/
structure Ready (x : Exchange Region) : Prop where
  core : x.owner.core < x.host.config.numCores
  fits : ∀ p : Part, x.host.config.layout.partAt x.owner.core p + p.len x.host.config.layout ≤
    x.host.memory.size
  letsIn : LetsIn (x.host.memory.bytes.byteAt (x.host.workerAt x.owner.core))

/-- A core that is mapped and idle is ready over a region that is large enough. -/
theorem ready_of_size {host : Host Region} {o : Owner}
    (hsize : host.config.regionSize ≤ host.memory.size) (hword : host.memory.size < wordMax)
    (hcore : o.core < host.config.numCores)
    (hidle : LetsIn (host.memory.bytes.byteAt (host.workerAt o.core))) : Ready ⟨host, o⟩ :=
  ⟨hcore, host.config.layout.fits_of_requiredSize host.ordered hsize hword o.core hcore, hidle⟩

/-- A region for a single core with default settings, which holds zeros but for the control byte
of the core. -/
theorem idle_default {b : Bytes} (hb : b = (Bytes.zeros 0x10000).put 0xff80 1) :
    ({} : Config).regionSize ≤ b.size ∧ b.size < wordMax ∧
      LetsIn (b.byteAt (({} : Layout).workerAt 0)) := by
  have hregion : ({} : Config).regionSize = 0x10000 := by decide
  have hworker : ({} : Layout).workerAt 0 = 0xff80 := by decide
  have hsize : b.size = 0x10000 := by rw [hb, Bytes.size_put, Bytes.size_zeros]
  have hbyte : b.byteAt 0xff80 = 1 := by
    rw [hb, Bytes.byteAt_put, Bytes.size_zeros, if_pos (by decide)]
  refine ⟨hregion.trans_le hsize.ge, hsize.trans_lt (by decide), ?_⟩
  rw [hworker, hbyte]
  exact ⟨rfl, rfl⟩

/-- The bytes `b` of the region while someone is inside the gate of the owner's core. -/
def inside (x : Exchange Region) (b : Bytes) : Bytes :=
  b.put (x.host.workerAt x.owner.core)
    (setBusy (x.host.memory.bytes.byteAt (x.host.workerAt x.owner.core)) true)

theorem size_inside (b : Bytes) : (x.inside b).size = b.size := Bytes.size_put ..

/-- Outside the control byte nothing is to be seen of who is inside. -/
theorem sameBut_inside (b : Bytes) :
    x.host.config.layout.SameBut x.owner.core (· = .worker) b (x.inside b) :=
  x.host.config.layout.sameBut_put x.host.ordered b x.owner.core _

namespace Ready

variable (h : x.Ready)
include h

theorem worker_lt : x.host.workerAt x.owner.core < x.host.memory.size :=
  Layout.lt_of_line_le (h.fits .worker)

theorem coreError?_eq : x.host.coreError? x.owner.core = none := if_pos h.core

theorem enter (p : SpinPolicy σ) (s : σ) : x.enter p s = (.ok (), s, x.admitted) :=
  enter_open h.worker_lt (Gate.isOpen_iff.2 (Host.byte_gateOf.symm ▸ h.letsIn))

theorem memory_admitted : x.admitted.host.memory = ⟨x.inside x.host.memory.bytes⟩ := by
  rw [admitted, Host.memory_withGate _ h.worker_lt, Gate.entered, Host.byte_gateOf, inside]

theorem fits_admitted (p : Part) :
    x.admitted.host.config.layout.partAt x.admitted.owner.core p +
      p.len x.admitted.host.config.layout ≤ x.admitted.host.memory.size := by
  rw [h.memory_admitted]
  exact (h.fits p).trans_eq (size_inside _).symm

/-- A critical section that leaves the control byte alone made of the region what the call does. -/
theorem leave {body : Step Region α} {r : Except Stop α} {b : Bytes} {o : Owner}
    (hcore : o.core = x.owner.core)
    (hb : x.host.config.layout.SameBut x.owner.core (· ≠ .worker) x.host.memory.bytes b)
    (hbody : Ends body x.admitted r ⟨{ x.admitted.host with memory := ⟨x.inside b⟩ }, o⟩) :
    ∃ host, Ends (guarded body) x.admitted r ⟨host, o⟩ ∧
      host.config = x.host.config ∧ host.memory = ⟨b⟩ := by
  let z : Host Region := { x.admitted.host with memory := ⟨x.inside b⟩ }
  have hworker : z.workerAt o.core = x.host.workerAt x.owner.core := by
    rw [hcore]
    rfl
  have hlt : x.host.workerAt x.owner.core < b.size := Nat.lt_of_lt_of_eq h.worker_lt hb.size.symm
  have hzin : z.workerAt o.core < z.memory.size := by
    rw [hworker]
    exact Nat.lt_of_lt_of_eq hlt (size_inside b).symm
  refine ⟨_, ends_guarded hbody hzin, rfl, ?_⟩
  -- the section left the control byte alone, so leaving restores it
  have hbyte : b.byteAt (x.host.workerAt x.owner.core) =
      x.host.memory.bytes.byteAt (x.host.workerAt x.owner.core) := hb.byteAt_worker (.inr (by simp))
  have hbusy : (x.inside b).byteAt (x.host.workerAt x.owner.core) =
      setBusy (x.host.memory.bytes.byteAt (x.host.workerAt x.owner.core)) true :=
    Layout.byteAt_put_worker _ hlt
  have hleave : (z.gateOf o.core).leave.byte = b.byteAt (x.host.workerAt x.owner.core) := by
    rw [Gate.leave, Host.byte_gateOf, hworker, hbusy, ControlByte.setBusy_false_true h.letsIn.2,
      hbyte]
  refine (Host.memory_withGate (z.gateOf o.core).leave hzin).trans ?_
  rw [hleave, hworker]
  exact congrArg Region.mk ((Bytes.put_put ..).trans (Bytes.put_self ..))

end Ready
end Exchange
end LineExchange
