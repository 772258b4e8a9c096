import LineExchange.Proofs.Exchange.Payload
import LineExchange.Proofs.Link.Tracks

/-!
# LineExchange.Proofs.Link.Call

Calls of a host on a device that tracks the ports.

* `Nic.Serves`: what is known of the device inside a critical section of a core.
* `Nic.Served`: what a critical section leaves behind. `Nic.Tracks.leave`: then only the port of
  that core has to be looked at.
* `Exchange.Tracks.enter_stuck`: a call on a port that is not ready gives up.
* `Exchange.Tracks.section_ready`: a call on a port that is ready enters at once; its critical
  section is judged by what it does to the port.
-/

namespace LineExchange

open ControlByte (isReady isBusy setBusy)
open Memory (controlByte stored)

namespace Nic

variable {c : Config} {d d' : Nic Region} {a : Ports} {core : Nat} {port : Port}

theorem controlByte_eq (offset : Nat) (d : Nic Region) :
    controlByte offset d = d.memory.bytes.byteAt offset :=
  Region.controlByte_eq offset d.memory

theorem stored_eq {offset : Nat} (byte : UInt8) (h : offset < d.memory.size) :
    stored offset byte d = { d with memory := ⟨d.memory.bytes.put offset byte⟩ } :=
  congrArg Prod.snd (ends_onMemory (Region.ends_storeControl byte h))

/-- Inside a critical section of a core, the device behaves as a port. -/
structure Serves (c : Config) (d : Nic Region) (core : Nat) (port : Port) : Prop where
  layout : d.layout = c.layout
  format : d.format = c.format
  fits : ∀ p : Part, c.layout.partAt core p + p.len c.layout ≤ d.memory.size
  idle : ∀ parity, d.holdsTx c core parity = false
  stocks : d.Stocks c core port

/-- A critical section of a core made another port of it, and kept off the control bytes. -/
structure Served (c : Config) (core : Nat) (d d' : Nic Region) (port : Port) : Prop where
  changed : ∃ g, Changed core g d d'
  same : c.layout.SameBut core (· ≠ .worker) d.memory.bytes d'.memory.bytes
  idle : ∀ parity, d'.holdsTx c core parity = false
  stocks : d'.Stocks c core port

theorem Serves.trans {port' : Port} (h : Serves c d core port) (h' : Served c core d d' port') :
    Serves c d' core port' := by
  obtain ⟨⟨g, hchanged⟩, hsame, hidle, hstocks⟩ := h'
  exact ⟨hchanged.layout.trans h.layout, hchanged.format.trans h.format,
    fun p => Nat.le_trans (h.fits p) (Nat.le_of_eq hsame.size.symm), hidle, hstocks⟩

theorem Serves.lt_size (h : Serves c d core port) : core < d.cores.size := by
  obtain ⟨raws, hs, -⟩ := h.stocks
  exact lt_of_stockOf hs

theorem Tracks.serves (h : Tracks c d a) (hl : c.layout.Ordered) (hcore : core < c.numCores)
    (byte : UInt8) : Serves c (d.withByte c core byte) core (a core) where
  layout := h.layout
  format := h.format
  fits p := Nat.le_trans (h.fits core hcore p) (Nat.le_of_eq (Bytes.size_put ..).symm)
  idle parity := (holdsTx_withByte hl byte parity).trans (h.idle core hcore parity)
  stocks := h.stocks core hcore

theorem Tracks.leave (h : Tracks c d a) (hl : c.layout.Ordered) (hcore : core < c.numCores)
    (hserved : Served c core (d.withByte c core (setBusy (d.workerByte c core) true)) d' port)
    (hready : port.ready = (a core).ready) :
    Tracks c (d'.withByte c core (setBusy (d'.workerByte c core) false)) (a.set core port) := by
  obtain ⟨⟨g, hchanged⟩, hsame, hidle, hstocks⟩ := hserved
  have hin := h.worker_lt hcore
  have hsize : d'.memory.bytes.size = d.memory.bytes.size := hsame.size.trans (Bytes.size_put ..)
  -- the section kept off the control byte, so it is still what the host stored to enter
  have hinside : d'.workerByte c core = setBusy (d.workerByte c core) true := by
    rw [workerByte, hsame.byteAt_worker (.inr (by simp))]
    exact Layout.byteAt_put_worker _ hin
  have hbyte : (d'.withByte c core (setBusy (d'.workerByte c core) false)).workerByte c core =
      setBusy (d'.workerByte c core) false := Layout.byteAt_put_worker _ (hsize ▸ hin)
  refine h.update (g := g) ⟨hchanged.layout, hchanged.format, hchanged.size, hchanged.stock⟩
    ?_ ?_ ?_ (fun parity => ?_) hstocks
  · have enter := c.layout.sameBut_put hl d.memory.bytes core (setBusy (d.workerByte c core) true)
    have exit := c.layout.sameBut_put hl d'.memory.bytes core (setBusy (d'.workerByte c core) false)
    exact ((enter.mono (by simp)).trans (hsame.mono (by simp))).trans (exit.mono (by simp))
  · rw [hbyte, ControlByte.isReady_setBusy, hinside, ControlByte.isReady_setBusy, hready]
    exact h.ready core hcore
  · rw [hbyte, ControlByte.isBusy_setBusy]
  · rw [holdsTx_withByte hl]
    exact hidle parity

end Nic

theorem Ports.set_self (a : Ports) (core : Nat) : a.set core (a core) = a := by
  funext k
  unfold Ports.set
  split
  · next hk => rw [hk]
  · rfl

namespace Exchange

variable {c : Config} {a : Ports} {port : Port} {x y : Exchange (Nic Region)}

/-- Between calls, the device behaves as the ports, and the owner's buffer has its size. -/
structure Tracks (c : Config) (x : Exchange (Nic Region)) (a : Ports) : Prop where
  config : x.host.config = c
  core : x.owner.core < c.numCores
  buffer : x.owner.rxBuffer.size = c.rxBufferSize
  device : Nic.Tracks c x.host.memory a

/-- Inside a critical section, the device behaves as the port of the owner's core. -/
structure Serves (c : Config) (x : Exchange (Nic Region)) (port : Port) : Prop where
  config : x.host.config = c
  buffer : x.owner.rxBuffer.size = c.rxBufferSize
  device : Nic.Serves c x.host.memory x.owner.core port

/-- A critical section made another port of the owner's core. -/
structure Served (c : Config) (x y : Exchange (Nic Region)) (port : Port) : Prop where
  config : y.host.config = x.host.config
  core : y.owner.core = x.owner.core
  buffer : y.owner.rxBuffer.size = x.owner.rxBuffer.size
  device : Nic.Served c x.owner.core x.host.memory y.host.memory port

theorem gateOf_byte (hconfig : x.host.config = c) (core : Nat) :
    (x.host.gateOf core).byte = x.host.memory.workerByte c core := by
  subst hconfig
  exact Nic.controlByte_eq _ _

theorem memory_withGate (hconfig : x.host.config = c) {core : Nat}
    (hin : c.layout.workerAt core < x.host.memory.memory.size) (g : Gate) :
    (x.host.withGate core g).memory = x.host.memory.withByte c core g.byte := by
  subst hconfig
  exact Nic.stored_eq g.byte hin

namespace Tracks

variable (h : Tracks c x a)
include h

theorem ordered : c.layout.Ordered := h.config ▸ x.host.ordered

theorem worker_lt : x.host.workerAt x.owner.core < Memory.size x.host.memory := by
  obtain ⟨rfl, hcore, -, hdevice⟩ := h
  exact hdevice.worker_lt hcore

theorem coreError?_eq : x.host.coreError? x.owner.core = none := by
  rw [Host.coreError?, h.config, if_pos h.core]

theorem with_owner {o : Owner} (hcore : o.core = x.owner.core)
    (hbuffer : o.rxBuffer.size = x.owner.rxBuffer.size) : Tracks c ⟨x.host, o⟩ a :=
  ⟨h.config, Nat.lt_of_le_of_lt (Nat.le_of_eq hcore) h.core, hbuffer.trans h.buffer, h.device⟩

theorem isOpen_gateOf : (x.host.gateOf x.owner.core).isOpen = (a x.owner.core).ready := by
  rw [Gate.isOpen, gateOf_byte h.config, h.device.ready _ h.core, h.device.free _ h.core]
  simp

theorem memory_withGate (g : Gate) :
    (x.host.withGate x.owner.core g).memory = x.host.memory.withByte c x.owner.core g.byte :=
  Exchange.memory_withGate h.config (h.device.worker_lt h.core) g

end Tracks

theorem withByte_workerByte (d : Nic Region) (core : Nat) :
    d.withByte c core (d.workerByte c core) = d := by
  rw [Nic.withByte, Nic.workerByte, Bytes.put_self]

/-- A call with a limited number of attempts on a port that is not ready gives up. -/
theorem Tracks.enter_stuck (h : Tracks c x a) (hready : (a x.owner.core).ready = false)
    (max : Nat) :
    ∃ y, x.enter (SpinLimit.attempts max).policy () =
        (.error (.refused (.handshakeStuck x.owner.core (max + 1))), (), y) ∧
      y.owner = x.owner ∧ Tracks c y a := by
  have hclosed := h.isOpen_gateOf.trans hready
  rw [enter_eq h.worker_lt, Gate.enter_attempts hclosed]
  have hmem : (x.host.withGate x.owner.core
      ((x.host.gateOf x.owner.core).addSpins (max + 1))).memory = x.host.memory := by
    rw [h.memory_withGate, Gate.addSpins, gateOf_byte h.config, withByte_workerByte]
  refine ⟨_, rfl, rfl, ?_⟩
  exact ⟨h.config, h.core, h.buffer, hmem.symm ▸ h.device⟩

/-- A call on a port that is ready enters. Once its critical section has made another port of it,
the device behaves as the ports again. -/
theorem Tracks.section_ready (h : Tracks c x a) (hready : (a x.owner.core).ready = true)
    (port : Port) (hport : port.ready = true) {α σ : Type} {body : Step (Nic Region) α}
    {r : Except Stop α}
    (hbody : ∀ y : Exchange (Nic Region), y.owner = x.owner → Serves c y (a x.owner.core) →
      ∃ z, Ends body y r z ∧ Served c y z port) (p : SpinPolicy σ) (t : σ) :
    ∃ y z, x.enter p t = (.ok (), t, y) ∧ Ends (guarded body) y r z ∧
      z.owner.core = x.owner.core ∧ Tracks c z (a.set x.owner.core port) := by
  have hopen := h.isOpen_gateOf.trans hready
  have henter : x.enter p t = (.ok (), t, x.admitted) := enter_open h.worker_lt hopen
  have hy : x.admitted.host.memory = x.host.memory.withByte c x.owner.core
      (setBusy (x.host.memory.workerByte c x.owner.core) true) := by
    rw [admitted, h.memory_withGate, Gate.entered, ← gateOf_byte h.config]
  have hserves : Serves c x.admitted (a x.owner.core) :=
    ⟨h.config, h.buffer, hy.symm ▸ h.device.serves h.ordered h.core _⟩
  obtain ⟨z, hend, hserved⟩ := hbody x.admitted rfl hserves
  have hz : z.host.config = c := hserved.config.trans h.config
  have hcore : z.owner.core = x.owner.core := hserved.core
  have hdevice := hserved.device
  rw [hy] at hdevice
  have hleft := h.device.leave h.ordered h.core hdevice (hport.trans hready.symm)
  have hin : c.layout.workerAt x.owner.core < z.host.memory.memory.size := by
    refine Nat.lt_of_lt_of_le (h.device.worker_lt h.core) (Nat.le_of_eq ?_)
    exact ((Bytes.size_put ..).symm.trans hdevice.same.size.symm)
  have hexit := ends_guarded hend (by rw [hcore, Host.workerAt, hz]; exact hin)
  rw [hcore] at hexit
  refine ⟨x.admitted, _, henter, hexit, hcore, hz, hcore ▸ h.core,
    hserved.buffer.trans h.buffer, ?_⟩
  rw [Exchange.memory_withGate hz hin, Gate.leave, gateOf_byte hz]
  exact hleft

end Exchange
end LineExchange
