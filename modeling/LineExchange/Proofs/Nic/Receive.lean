import LineExchange.Proofs.Exchange.Drain
import LineExchange.Proofs.Link.Call
import LineExchange.Proofs.Nic.History
import LineExchange.Proofs.Region.Call

/-!
# LineExchange.Proofs.Nic.Receive

One receive in front of a device, with a log of the accesses, on a core whose gate lets in. It
takes the head of what the device has queued, whichever line comes next on either side. What it
answers depends on the head alone: nothing is there, it fits, or it is too long.

* `Exchange.Fronts`: the device holds a stock of whole transactions for the owner's core;
  `Exchange.Faces`: and the gate of the core lets in.
* `Exchange.Moved`: how far an owner went on, and what it counted meanwhile.
* `Exchange.Faces.receive_none`, `receive_fits`, `receive_over`: the three answers.
-/

namespace LineExchange

open ControlByte (LetsIn isBusy setBusy)

namespace Traced

variable {M : Type} [Memory M]

theorem ends_read {offset len : Nat} {t : Traced M} {r : Except Fault Bytes} {m : M}
    (h : Ends (Memory.read offset len) t.inner r m) :
    Ends (Memory.read offset len) t r ⟨m, t.log.push (.read offset len)⟩ :=
  .bind (.modify _ t) (ends_onInner (t := { t with log := t.log.push (.read offset len) }) h)

end Traced

namespace Exchange

variable {α : Type} {s : Stock} {raw : RawTransaction} {rest : List RawTransaction}
  {x y z : Exchange (Traced (Nic Region))} {m : Traced (Nic Region)}

/-- The device behind the log. -/
def device (x : Exchange (Traced (Nic Region))) : Nic Region := x.host.memory.inner

/-- The device holds a stock of whole transactions for the owner's core, whose window lies in the
region. -/
structure Fronts (s : Stock) (x : Exchange (Traced (Nic Region))) : Prop where
  layout : x.device.layout = x.host.config.layout
  format : x.device.format = x.host.config.format
  fits : ∀ p : Part, x.host.config.layout.partAt x.owner.core p + p.len x.host.config.layout ≤
    x.device.memory.size
  stock : x.device.stockOf x.owner.core = some s
  whole : ∀ raw ∈ s.queue, raw.Whole x.host.config

/-- The device did what it does when it is read, and kept off the control bytes. -/
structure Popped (x : Exchange (Traced (Nic Region))) (m : Traced (Nic Region)) : Prop where
  changed : Nic.Changed x.owner.core Stock.pop x.device m.inner
  same : x.host.config.layout.SameBut x.owner.core (· ≠ .worker) x.device.memory.bytes
    m.inner.memory.bytes

/-! ## The critical section -/

namespace Fronts

variable (h : Fronts s x)
include h

theorem size_headOverflow_le :
    (Nic.headOverflow s.queue).size ≤ x.host.config.layout.overflowSize := by
  have hwhole := h.whole
  cases hq : s.queue with
  | nil => exact Nat.zero_le _
  | cons raw rest => exact (hwhole raw (hq ▸ .head _)).size_overflow_le x.host.ordered

theorem core_lt : x.owner.core < x.device.cores.size := Nic.lt_of_stockOf h.stock

/-- The line that comes next is read: the device puts the head of the queue there. -/
theorem readLine : ∃ m,
    Ends (Exchange.readLine (x.host.config.layout.controlAt x.owner.core .rx x.owner.next.rx)) x
      (.ok (Nic.headLine s.queue)) ⟨{ x.host with memory := m }, x.owner⟩ ∧ Popped x m ∧
    m.inner.memory.bytes.slice (x.host.config.layout.overflowAt x.owner.core .rx)
      (Nic.headOverflow s.queue).size = Nic.headOverflow s.queue := by
  have hover := h.size_headOverflow_le
  obtain ⟨d, hread, hchanged, hmem⟩ := Nic.ends_read_control (h.layout.symm ▸ x.host.ordered)
    x.owner.next.rx h.stock (h.layout.symm ▸ h.fits) (h.layout.symm ▸ hover)
  rw [h.layout] at hread hmem
  have hline := (ends_onMemory (x := x) (Traced.ends_read hread)).map (g := Line.ofBytes)
  rw [Line.ofBytes_bytes] at hline
  have hsame := x.host.config.layout.sameBut_withLine x.host.ordered h.fits .rx x.owner.next.rx
    (Nic.headLine s.queue) hover
  rw [← hmem] at hsame
  exact ⟨_, hline, ⟨hchanged, hsame.mono (by simp)⟩,
    hmem ▸ x.host.config.layout.slice_withLine x.host.ordered h.fits hover⟩

theorem poll_none (hq : s.queue = []) : ∃ m, Ends poll x (.ok none)
    ⟨{ x.host with memory := m }, { x.owner with
      next := x.owner.next.toggle .rx
      stats := { x.owner.stats with emptyPolls := x.owner.stats.emptyPolls + 1 } }⟩ ∧
    Popped x m := by
  obtain ⟨m, hline, hpopped, -⟩ := h.readLine
  rw [hq] at hline
  -- the device has put a line of zeros there
  exact ⟨m, ends_poll_none hline (Format.isValid_zero _), hpopped⟩

theorem poll_over (hq : s.queue = raw :: rest) (hover : x.rxLimit < raw.announced x.host.config) :
    ∃ m, Ends poll x
      (.error (.refused (.overflowExceeded (raw.announced x.host.config) x.rxLimit)))
      ⟨{ x.host with memory := m }, { x.owner with next := x.owner.next.toggle .rx }⟩ ∧
    Popped x m := by
  obtain ⟨m, hline, hpopped, -⟩ := h.readLine
  have hwhole := h.whole raw (hq ▸ .head _)
  rw [hq] at hline
  exact ⟨m, ends_poll_refused hline hwhole.valid hover, hpopped⟩

theorem poll_fits (hq : s.queue = raw :: rest) (hfits : raw.announced x.host.config ≤ x.rxLimit) :
    ∃ m buffer, Ends poll x (.ok (some ⟨(raw.packet x.host.config).transaction,
        (raw.packet x.host.config).payload⟩))
      ⟨{ x.host with memory := m }, { x.owner with
        next := x.owner.next.toggle .rx
        rxBuffer := buffer }⟩ ∧
    buffer.size = x.owner.rxBuffer.size ∧ Popped x m := by
  obtain ⟨m, hline, hpopped, hslice⟩ := h.readLine
  have hwhole := h.whole raw (hq ▸ .head _)
  have hcarries := hwhole.carries (Nat.le_trans hfits (Nat.min_le_right ..))
  have hsize := hwhole.size_packet (Nat.le_trans hfits (Nat.min_le_right ..))
  rw [hq] at hline hslice
  -- the overflow bytes lie where the device put them with the line
  have hin : m.inner.layout.overflowAt x.owner.core .rx + raw.overflow.size ≤
      m.inner.memory.size := by
    rw [hpopped.changed.layout, h.layout]
    refine Nat.le_trans (Nat.add_le_add_left (hcarries.size_overflow_le x.host.ordered) _) ?_
    exact (h.fits (.overflow .rx)).trans_eq hpopped.same.size.symm
  have hrest := Nic.ends_read_overflow (by
      rw [hpopped.changed.layout, h.layout]
      exact x.host.ordered) (hpopped.changed.size ▸ h.core_lt) hin
  rw [hpopped.changed.layout, h.layout] at hrest
  have hread := Traced.ends_read (t := m) hrest
  rw [show m.inner.memory.bytes.slice _ raw.overflow.size = raw.overflow from hslice,
    hcarries.overflow] at hread
  by_cases hmore : inlineSize < (raw.packet x.host.config).payload.size
  · exact ⟨_, _, ends_poll_received hline hcarries (fun _ => hread)
      (fun hless => absurd hmore hless) (hsize.trans_le hfits),
      (Bytes.size_patch ..).trans (Bytes.size_patch ..), ⟨hpopped.changed, hpopped.same⟩⟩
  · exact ⟨m, _, ends_poll_received hline hcarries (fun h => absurd h hmore) (fun _ => rfl)
      (hsize.trans_le hfits), (Bytes.size_patch ..).trans (Bytes.size_patch ..), hpopped⟩

end Fronts

/-! ## The whole call -/

/-- An owner of a mapped core whose gate lets in, in front of a device that holds a stock for the
core. -/
structure Faces (s : Stock) (x : Exchange (Traced (Nic Region))) : Prop extends Fronts s x where
  core : x.owner.core < x.host.config.numCores
  letsIn : LetsIn (x.device.memory.bytes.byteAt (x.host.workerAt x.owner.core))

/-- The owner went on by `n` lines and counted `received` transactions and `empty` empty polls. -/
structure Moved (n received empty : Nat) (x y : Exchange (Traced (Nic Region))) : Prop where
  config : y.host.config = x.host.config
  core : y.owner.core = x.owner.core
  capacity : y.owner.rxCapacity = x.owner.rxCapacity
  next : y.owner.next = (Parity.toggle · .rx)^[n] x.owner.next
  received : y.owner.stats.received = x.owner.stats.received + received
  emptyPolls : y.owner.stats.emptyPolls = x.owner.stats.emptyPolls + empty

namespace Moved

variable {n n' received received' empty empty' : Nat}

theorem refl (x : Exchange (Traced (Nic Region))) : Moved 0 0 0 x x :=
  ⟨rfl, rfl, rfl, rfl, rfl, rfl⟩

theorem trans (h : Moved n received empty x y) (h' : Moved n' received' empty' y z) :
    Moved (n + n') (received + received') (empty + empty') x z where
  config := h'.config.trans h.config
  core := h'.core.trans h.core
  capacity := h'.capacity.trans h.capacity
  next := by rw [h'.next, h.next, ← Function.iterate_add_apply, Nat.add_comm]
  received := by rw [h'.received, h.received, Nat.add_assoc]
  emptyPolls := by rw [h'.emptyPolls, h.emptyPolls, Nat.add_assoc]

theorem rxLimit (h : Moved n received empty x y) : y.rxLimit = x.rxLimit := by
  rw [Exchange.rxLimit, h.capacity, h.config, Exchange.rxLimit]

end Moved

theorem byte_gateOf_device (x : Exchange (Traced (Nic Region))) :
    (x.host.gateOf x.owner.core).byte =
      x.device.memory.bytes.byteAt (x.host.workerAt x.owner.core) :=
  Nic.controlByte_eq _ x.device

theorem device_withGate (h : x.host.workerAt x.owner.core < x.device.memory.size) (g : Gate) :
    (x.host.withGate x.owner.core g).memory.inner = { x.device with
      memory := ⟨x.device.memory.bytes.put (x.host.workerAt x.owner.core) g.byte⟩ } :=
  Nic.stored_eq g.byte h

namespace Faces

variable (h : Faces s x)
include h

/-- Only what the owner looks at matters. -/
theorem congr (hconfig : y.host.config = x.host.config) (hcore : y.owner.core = x.owner.core)
    (hdevice : y.device = x.device) : Faces s y := by
  obtain ⟨⟨hlayout, hformat, hfits, hstock, hwhole⟩, hlt, hletsIn⟩ := h
  refine ⟨⟨?_, ?_, ?_, ?_, ?_⟩, ?_, ?_⟩
  · rw [hdevice, hconfig, hlayout]
  · rw [hdevice, hconfig, hformat]
  · rw [hdevice, hconfig, hcore]
    exact hfits
  · rw [hdevice, hcore, hstock]
  · rw [hconfig]
    exact hwhole
  · rw [hcore, hconfig]
    exact hlt
  · rw [Host.workerAt, hconfig, hcore, hdevice]
    exact hletsIn

theorem worker_lt : x.host.workerAt x.owner.core < x.device.memory.size :=
  Layout.lt_of_line_le (h.fits .worker)

theorem coreError?_eq : x.host.coreError? x.owner.core = none := if_pos h.core

theorem enter {σ : Type} (p : SpinPolicy σ) (t : σ) : x.enter p t = (.ok (), t, x.admitted) :=
  enter_open h.worker_lt (Gate.isOpen_iff.2 ((byte_gateOf_device x).symm ▸ h.letsIn))

theorem device_admitted : x.admitted.device = { x.device with
    memory := ⟨x.device.memory.bytes.put (x.host.workerAt x.owner.core)
      (setBusy (x.device.memory.bytes.byteAt (x.host.workerAt x.owner.core)) true)⟩ } := by
  rw [← byte_gateOf_device]
  exact device_withGate h.worker_lt _

theorem fronts_admitted : Fronts s x.admitted := by
  have hdevice := h.device_admitted
  constructor
  · rw [hdevice]
    exact h.layout
  · rw [hdevice]
    exact h.format
  · intro q
    rw [hdevice]
    exact (h.fits q).trans_eq (Bytes.size_put ..).symm
  · rw [hdevice]
    exact h.stock
  · exact h.whole

/-- Once it is left, the gate lets in as before, and the head of the queue is gone. -/
theorem leave {body : Step (Traced (Nic Region)) α} {r : Except Stop α} {o : Owner}
    (hbody : Ends body x.admitted r ⟨{ x.admitted.host with memory := m }, o⟩)
    (hpopped : Popped x.admitted m) (hcore : o.core = x.owner.core) :
    ∃ host, Ends (guarded body) x.admitted r ⟨host, o⟩ ∧ host.config = x.host.config ∧
      ∀ o' : Owner, o'.core = x.owner.core → Faces s.pop ⟨host, o'⟩ := by
  let worker := x.host.workerAt x.owner.core
  let z : Exchange (Traced (Nic Region)) := ⟨{ x.admitted.host with memory := m }, o⟩
  have hz : z.host.workerAt z.owner.core = worker := congrArg x.host.workerAt hcore
  have hsize : m.inner.memory.bytes.size = x.device.memory.bytes.size := by
    rw [hpopped.same.size, h.device_admitted]
    exact Bytes.size_put ..
  have hin : worker < m.inner.memory.bytes.size := hsize.symm ▸ h.worker_lt
  have hzin : z.host.workerAt z.owner.core < z.device.memory.size := hz.symm ▸ hin
  -- the section kept off the control byte, so leaving restores it
  have hbyte : m.inner.memory.bytes.byteAt worker =
      setBusy (x.device.memory.bytes.byteAt worker) true := by
    have hsame : m.inner.memory.bytes.byteAt worker =
        x.admitted.device.memory.bytes.byteAt worker := hpopped.same.byteAt_worker (.inr (by simp))
    rw [hsame, h.device_admitted]
    exact Layout.byteAt_put_worker _ h.worker_lt
  have hleave : (z.host.gateOf z.owner.core).leave.byte = x.device.memory.bytes.byteAt worker := by
    rw [Gate.leave, byte_gateOf_device, hz]
    show setBusy (m.inner.memory.bytes.byteAt worker) false = _
    rw [hbyte, ControlByte.setBusy_false_true h.letsIn.2]
  have hdevice := device_withGate hzin (z.host.gateOf z.owner.core).leave
  rw [hleave, hz] at hdevice
  have hpop := hpopped.changed
  rw [h.device_admitted] at hpop
  generalize hleft : z.host.withGate z.owner.core (z.host.gateOf z.owner.core).leave = host
    at hdevice
  have hconfig : host.config = x.host.config := hleft ▸ rfl
  refine ⟨host, hleft ▸ ends_guarded hbody hzin, hconfig, fun o' ho' => ?_⟩
  have hinner : device ⟨host, o'⟩ = { m.inner with
      memory := ⟨m.inner.memory.bytes.put worker (x.device.memory.bytes.byteAt worker)⟩ } := hdevice
  constructor
  · constructor
    · rw [hinner, hconfig]
      exact hpop.layout.trans h.layout
    · rw [hinner, hconfig]
      exact hpop.format.trans h.format
    · intro q
      rw [hinner, hconfig, ho']
      exact (h.fits q).trans_eq ((Bytes.size_put ..).trans hsize).symm
    · rw [hinner, ho']
      exact hpop.stock_core h.stock
    · rw [hconfig]
      exact fun raw hraw => h.whole raw (List.mem_of_mem_tail hraw)
  · rw [hconfig, ho']
    exact h.core
  · have hat : host.workerAt o'.core = worker := by
      rw [Host.workerAt, hconfig, ho']
      rfl
    rw [hat, hinner]
    show LetsIn ((m.inner.memory.bytes.put worker _).byteAt worker)
    rw [Bytes.byteAt_put, if_pos ⟨rfl, hin⟩]
    exact h.letsIn

theorem receive {r : Except Stop (Option Received)} (hcall : Ends receiveEntered x.admitted r y)
    (p : SpinPolicy Unit) : Ends (Exchange.receive p) x r y := by
  have hentering : x.receiveWith p () = (r, (), y) := by
    unfold receiveWith
    rw [h.coreError?_eq]
    exact entering_eq (h.enter p ()) hcall
  exact congrArg (fun q : Except Stop (Option Received) × Unit × Exchange (Traced (Nic Region)) =>
    (q.1, q.2.2)) hentering

/-- Nothing is queued, so nothing is received. -/
theorem receive_none (hq : s.queue = []) (p : SpinPolicy Unit) :
    ∃ y, Ends (Exchange.receive p) x (.ok none) y ∧ Faces s.pop y ∧ Moved 1 0 1 x y := by
  obtain ⟨m, hpoll, hpopped⟩ := h.fronts_admitted.poll_none hq
  obtain ⟨host, hleft, hconfig, hfaces⟩ := h.leave hpoll hpopped rfl
  exact ⟨_, h.receive (hleft.bind (.pure _ _)) p, hfaces _ rfl, hconfig, rfl, rfl, rfl, rfl, rfl⟩

theorem receive_over (hq : s.queue = raw :: rest)
    (hover : x.rxLimit < raw.announced x.host.config) (p : SpinPolicy Unit) :
    ∃ y, Ends (Exchange.receive p) x
      (.error (.refused (.overflowExceeded (raw.announced x.host.config) x.rxLimit))) y ∧
      Faces s.pop y ∧ Moved 1 0 0 x y := by
  obtain ⟨m, hpoll, hpopped⟩ := h.fronts_admitted.poll_over hq hover
  obtain ⟨host, hleft, hconfig, hfaces⟩ := h.leave hpoll hpopped rfl
  exact ⟨_, h.receive hleft.bind_error p, hfaces _ rfl, hconfig, rfl, rfl, rfl, rfl, rfl⟩

theorem receive_fits (hq : s.queue = raw :: rest)
    (hfits : raw.announced x.host.config ≤ x.rxLimit) (p : SpinPolicy Unit) :
    ∃ received y, Ends (Exchange.receive p) x (.ok (some received)) y ∧ Faces s.pop y ∧
      Moved 1 1 0 x y := by
  obtain ⟨m, buffer, hpoll, hbuffer, hpopped⟩ := h.fronts_admitted.poll_fits hq hfits
  obtain ⟨host, hleft, hconfig, hfaces⟩ := h.leave hpoll hpopped rfl
  exact ⟨_, _, h.receive (hleft.bind (.bind (.modify _ _) (.pure _ _))) p, hfaces _ rfl, hconfig,
    rfl, hbuffer, rfl, rfl, rfl⟩

end Faces

end Exchange
end LineExchange
