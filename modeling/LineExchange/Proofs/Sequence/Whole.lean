import LineExchange.Proofs.Exchange.Accepts

/-!
# LineExchange.Proofs.Sequence.Whole

Memories on which no transmit breaks off (`Backing.Serves`): a plain region with room for all
windows, and a device that is sound for the settings. A memory that a host is opened on is one
(`Host.serves_of_open?`), and it stays one in every call (`Call.serves_make`).
-/

namespace LineExchange

variable {σ : Type} {c : Config}

namespace Backing

/-- A memory that serves the cores of the settings: a plain region has room for all windows, and a
device is sound. -/
def Serves (c : Config) : Backing → Prop
  | plain r => c.layout.Fits c.numCores r.size
  | device d => d.Sound c

theorem Serves.tidy {b : Backing} (h : b.Serves c) : b.Tidy c.layout := by
  cases b with
  | plain r => exact trivial
  | device d => exact Nic.Sound.tidy h

end Backing

/-- A new device in front of a region, or the region itself, serves the cores of a host that was
opened on it. -/
theorem Host.serves_of_open? {b : Backing} {host : Host (Traced Backing)}
    (hopen : open? { inner := b } c = .ok host) (hword : Memory.size b < wordMax)
    (hnew : ∀ d, b = .device d → ∃ r, Nic.start r c = .ok (.ok d)) :
    host.memory.inner.Serves host.config := by
  obtain ⟨hmemory, rfl, -, -, hsize⟩ := of_open? hopen
  have hl := host.ordered
  rw [hmemory]
  cases b with
  | plain r => exact host.config.layout.fits_of_requiredSize hl hsize hword
  | device d =>
    obtain ⟨r, hstart⟩ := hnew d rfl
    exact (Nic.counts_start hl hstart).1

/-- A memory that serves the cores does so after any operation. -/
theorem Station.serves_step (hl : c.layout.Ordered) {s : Station} (hs : s.Tidy c)
    (h : s.host.memory.Serves c) (op : Op) : (s.step op).2.host.memory.Serves c := by
  cases hmem : s.host.memory with
  | plain r =>
    rw [hmem] at h
    obtain ⟨-, r', hmem', hsize⟩ := plain_after hl [op] hs hmem
    have hstep : (s.step op).2.host.memory = .plain r' := hmem'
    rw [hstep]
    have hfits : c.layout.Fits c.numCores r.size := h
    rw [← hsize] at hfits
    exact hfits
  | device d =>
    rw [hmem] at h
    have hsound : Sound c s := ⟨hs, hs.host.config, d, hmem, h⟩
    obtain ⟨d', hmem', hd'⟩ := (hsound.step hl op).device.device
    rw [hmem']
    exact hd'

/-- A memory that serves the cores does so after a call. -/
theorem Call.serves_make {x : Exchange Backing} (h : x.host.memory.Serves x.host.config)
    (call : Call) : (call.make x).2.host.memory.Serves x.host.config :=
  Station.serves_step (s := { host := x.host }) x.host.ordered ⟨⟨rfl, h.tidy⟩, nofun⟩ h
    (.visit x.owner call)

namespace Exchange

theorem transmitWith_whole_plain {x : Exchange Backing} {r : Region}
    (hmem : x.host.memory = .plain r) (hcore : x.host.coreError? x.owner.core = none)
    (hparts : ∀ p : Part, x.host.config.layout.partAt x.owner.core p +
      p.len x.host.config.layout ≤ r.size)
    (p : SpinPolicy σ) (s : σ) (d : Descriptor) (f : Fault) :
    (x.transmitWith p s d).1 ≠ .error (.fault f) := by
  have hlt : x.host.workerAt x.owner.core < r.size := Layout.lt_of_line_le (hparts .worker)
  have hin : x.host.workerAt x.owner.core < Memory.size x.host.memory := by
    rw [hmem]
    exact hlt
  -- the gate only stores a control byte
  have sent (g : Gate) (hfits : d.payload.size ≤ x.host.config.layout.payloadCapacity) :
      (Step.run (transmitEntered d)
        { x with host := x.host.withGate x.owner.core g }).1 ≠ .error (.fault f) := by
    have hstore : Ends (Memory.storeControl (x.host.workerAt x.owner.core) g.byte)
        (Backing.plain r) (.ok ()) _ :=
      Backing.ends_access_plain (Region.ends_storeControl _ hlt)
    rw [← hmem] at hstore
    obtain ⟨v, y, hsend⟩ := ends_send_plain (d := d)
      (x := { x with host := x.host.withGate x.owner.core g }) (congrArg Prod.snd hstore)
      (fun q => (hparts q).trans_eq (Bytes.size_put ..).symm) hfits
    have hrun : Step.run (send d) { x with host := x.host.withGate x.owner.core g } = (.ok v, y) :=
      hsend
    rw [fst_transmitEntered, hrun]
    cases v <;> nofun
  rw [fst_transmitWith]
  unfold transmitStaged
  rw [hcore]
  dsimp only
  split
  · nofun
  · next hfits =>
    unfold entering
    rw [enter_eq hin]
    obtain ⟨r, t, g⟩ := (x.host.gateOf x.owner.core).enter p s
    cases r with
    | entered => exact sent g (Nat.not_lt.1 hfits)
    | stuck attempts => nofun
    | endless => nofun

/-- On a memory that serves the cores, no transmit breaks off. -/
theorem transmitWith_whole {x : Exchange Backing} (h : x.host.memory.Serves x.host.config)
    (p : SpinPolicy σ) (s : σ) (d : Descriptor) (f : Fault) :
    (x.transmitWith p s d).1 ≠ .error (.fault f) := by
  cases hcore : x.host.coreError? x.owner.core with
  | some e =>
    rw [fst_transmitWith]
    unfold transmitStaged
    rw [hcore]
    nofun
  | none =>
    have hlt := Host.lt_of_coreError? hcore
    cases hmem : x.host.memory with
    | plain r =>
      rw [hmem] at h
      exact transmitWith_whole_plain hmem hcore (h x.owner.core hlt) p s d f
    | device dev =>
      rw [hmem] at h
      obtain ⟨tally, hcounts⟩ := Nic.Sound.exists_tally h hlt
      have hpaced : Paced x.host.config x.owner.core ⟨x.owner.next, tally⟩ x :=
        ⟨⟨rfl, dev, hmem, hcounts⟩, rfl, rfl⟩
      exact (hpaced.transmitWith p s d).whole f

end Exchange
end LineExchange
