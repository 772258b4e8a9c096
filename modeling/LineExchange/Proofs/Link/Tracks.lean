import LineExchange.Proofs.Exchange.Section
import LineExchange.Proofs.Link.Ideal
import LineExchange.Proofs.Nic.Carries
import LineExchange.Proofs.Nic.React
import Mathlib.Data.List.Forall2

/-!
# LineExchange.Proofs.Link.Tracks

The invariant between a device and the ports of the ideal machine (`Nic.Tracks`): between calls,
no gate is busy, no TX control line holds a transaction, and what is queued carries the packets of
the queue. `Nic.Tracks.update` says what has to be shown after something was done on one core;
the rest of the region is none of its business.

The calls of the device keep it: `Nic.tracks_setReady`, `Nic.tracks_setLoopback`,
`Nic.tracks_inject`, `Nic.tracks_takeSent`.
-/

namespace LineExchange

open ControlByte (isReady isBusy)

namespace Nic

variable {c : Config} {d d' : Nic Region} {a : Ports} {core : Nat} {port : Port}

/-- What the device holds for a core carries the packets of a port. -/
def Stocks (c : Config) (d : Nic Region) (core : Nat) (port : Port) : Prop :=
  ∃ raws, d.stockOf core = some ⟨raws, port.sent, port.loopback⟩ ∧
    List.Forall₂ (Carries c.format c.layout.payloadCapacity) raws port.queue

/-- The control byte of a core. -/
def workerByte (c : Config) (d : Nic Region) (core : Nat) : UInt8 :=
  d.memory.bytes.byteAt (c.layout.workerAt core)

/-- Whether a TX control line of a core holds a transaction. -/
def holdsTx (c : Config) (d : Nic Region) (core : Nat) (parity : Bool) : Bool :=
  c.format.isValid (.ofBytes (c.layout.view d.memory.bytes core (.control .tx parity)))

/-- Between calls, the device behaves as the ports. -/
structure Tracks (c : Config) (d : Nic Region) (a : Ports) : Prop where
  layout : d.layout = c.layout
  format : d.format = c.format
  fits : c.layout.Fits c.numCores d.memory.size
  ready : ∀ core, core < c.numCores → isReady (d.workerByte c core) = (a core).ready
  free : ∀ core, core < c.numCores → isBusy (d.workerByte c core) = false
  idle : ∀ core, core < c.numCores → ∀ parity, d.holdsTx c core parity = false
  stocks : ∀ core, core < c.numCores → d.Stocks c core (a core)

namespace Tracks

/-- After something was done on one core, only that core has to be looked at. -/
theorem update (h : Tracks c d a) {g : Stock → Stock} (hchanged : Changed core g d d')
    (hsame : c.layout.SameBut core (fun _ => True) d.memory.bytes d'.memory.bytes)
    (hready : isReady (d'.workerByte c core) = port.ready)
    (hfree : isBusy (d'.workerByte c core) = false)
    (hidle : ∀ parity, d'.holdsTx c core parity = false) (hstocks : d'.Stocks c core port) :
    Tracks c d' (a.set core port) := by
  have worker {k : Nat} (hk : k ≠ core) : d'.workerByte c k = d.workerByte c k :=
    hsame.byteAt_worker (.inl hk)
  have port_eq {k : Nat} (hk : k ≠ core) : a.set core port k = a k := if_neg hk
  have port_core : a.set core port core = port := if_pos rfl
  refine ⟨hchanged.layout.trans h.layout, hchanged.format.trans h.format, ?_, ?_, ?_, ?_, ?_⟩
  · intro k hk p
    exact Nat.le_trans (h.fits k hk p) (Nat.le_of_eq hsame.size.symm)
  · intro k hk
    by_cases hkc : k = core
    · rw [hkc, port_core]
      exact hready
    · rw [worker hkc, port_eq hkc]
      exact h.ready k hk
  · intro k hk
    by_cases hkc : k = core
    · rw [hkc]
      exact hfree
    · rw [worker hkc]
      exact h.free k hk
  · intro k hk parity
    by_cases hkc : k = core
    · rw [hkc]
      exact hidle parity
    · rw [holdsTx, hsame.view k _ (.inl hkc)]
      exact h.idle k hk parity
  · intro k hk
    by_cases hkc : k = core
    · rw [hkc, port_core]
      exact hstocks
    · obtain ⟨raws, hraws, hcarries⟩ := h.stocks k hk
      rw [Stocks, hchanged.stock, if_neg hkc, port_eq hkc]
      exact ⟨raws, hraws, hcarries⟩

theorem restock (h : Tracks c d a) (hcore : core < c.numCores) {g : Stock → Stock}
    (hchanged : Changed core g d d') (hmem : d'.memory = d.memory)
    (hready : port.ready = (a core).ready) (hstocks : d'.Stocks c core port) :
    Tracks c d' (a.set core port) := by
  have worker : d'.workerByte c core = d.workerByte c core := by rw [workerByte, hmem, workerByte]
  refine h.update hchanged (hmem ▸ .refl _) ?_ ?_ (fun parity => ?_) hstocks
  · rw [worker, hready]
    exact h.ready core hcore
  · rw [worker]
    exact h.free core hcore
  · rw [holdsTx, hmem]
    exact h.idle core hcore parity

theorem worker_lt (h : Tracks c d a) (hcore : core < c.numCores) :
    c.layout.workerAt core < d.memory.size :=
  Layout.lt_of_line_le (h.fits core hcore .worker)

end Tracks

/-! ## Calls of the device -/

/-- The device with another control byte for a core. -/
def withByte (c : Config) (core : Nat) (byte : UInt8) (d : Nic Region) : Nic Region :=
  { d with memory := ⟨d.memory.bytes.put (c.layout.workerAt core) byte⟩ }

theorem holdsTx_withByte (hl : c.layout.Ordered) (byte : UInt8) (parity : Bool) :
    (d.withByte c core byte).holdsTx c core parity = d.holdsTx c core parity := by
  have hsame := c.layout.sameBut_put hl d.memory.bytes core byte
  rw [holdsTx, holdsTx, withByte, hsame.view core _ (.inr (by simp))]

theorem tracks_setReady (h : Tracks c d a) (hl : c.layout.Ordered) (hcore : core < c.numCores)
    (v : Bool) :
    ∃ d', Ends (setReady core v) d (.ok ()) d' ∧
      Tracks c d' (a.set core { a core with ready := v }) := by
  have hin := h.worker_lt hcore
  have hbyte (byte : UInt8) : (d.withByte c core byte).workerByte c core = byte :=
    Layout.byteAt_put_worker byte hin
  refine ⟨d.withByte c core (ControlByte.setReady (d.workerByte c core) v), ?_, ?_⟩
  · refine .bind (.get d) ?_
    rw [h.layout]
    exact .bind (ends_onMemory (Region.ends_loadControl hin))
      (ends_onMemory (Region.ends_storeControl _ hin))
  · refine h.update (g := id) (.of_cores_eq rfl rfl rfl)
      ((c.layout.sameBut_put hl _ _ _).mono (by simp)) ?_ ?_ (fun parity => ?_)
      (h.stocks core hcore)
    · rw [hbyte, ControlByte.isReady_setReady]
    · rw [hbyte, ControlByte.isBusy_setReady]
      exact h.free core hcore
    · rw [holdsTx_withByte hl]
      exact h.idle core hcore parity

theorem tracks_setLoopback (h : Tracks c d a) (hcore : core < c.numCores) (v : Bool) :
    ∃ d', Ends (setLoopback core v) d (.ok ()) d' ∧
      Tracks c d' (a.set core { a core with loopback := v }) := by
  obtain ⟨raws, hs, hcarries⟩ := h.stocks core hcore
  obtain ⟨n, hget, -⟩ := exists_core hs
  have hchanged : Changed core (fun s => { s with loopback := v }) d _ :=
    .of_modify (f := fun n => { n with loopback := v }) (fun _ => rfl) d.memory
  exact ⟨_, .bind (ends_coreState hget) (ends_modifyCore core _ d),
    h.restock hcore hchanged rfl rfl ⟨raws, hchanged.stock_core hs, hcarries⟩⟩

theorem tracks_takeSent (h : Tracks c d a) (hcore : core < c.numCores) :
    ∃ d', Ends (takeSent core) d (.ok (a core).sent) d' ∧
      Tracks c d' (a.set core { a core with sent := [] }) := by
  obtain ⟨raws, hs, hcarries⟩ := h.stocks core hcore
  obtain ⟨n, hget, hn⟩ := exists_core hs
  have hchanged : Changed core (fun s => { s with sent := [] }) d _ :=
    .of_modify (f := fun n => { n with sent := [] }) (fun _ => rfl) d.memory
  have hsent : (a core).sent = n.sent := congrArg Stock.sent hn.symm
  refine ⟨_, hsent ▸ .bind (ends_coreState hget) (.bind (ends_modifyCore core _ d) (.pure _ _)),
    h.restock hcore hchanged rfl rfl ⟨raws, hchanged.stock_core hs, hcarries⟩⟩

theorem tracks_pending (h : Tracks c d a) (hcore : core < c.numCores) :
    ∃ n, Ends (coreState core) d (.ok n) d ∧ n.queue.length = (a core).queue.length := by
  obtain ⟨raws, hs, hcarries⟩ := h.stocks core hcore
  obtain ⟨n, hget, hn⟩ := exists_core hs
  have hqueue : n.queue = raws := congrArg Stock.queue hn
  exact ⟨n, ends_coreState hget, hqueue ▸ hcarries.length_eq⟩

theorem tracks_inject (h : Tracks c d a) (ha : c.format.Accepted) (hcore : core < c.numCores)
    (t : Transaction) (payload : Bytes) :
    ∃ r d' a', Ends (inject core t payload) d (.ok r) d' ∧
      a.step c (.inject core t payload) = (.injected r, a') ∧ Tracks c d' a' := by
  obtain ⟨raws, hs, hcarries⟩ := h.stocks core hcore
  obtain ⟨n, hget, -⟩ := exists_core hs
  unfold Ports.step inject
  dsimp only
  by_cases hfits : c.layout.payloadCapacity < payload.size
  · have hraw : rawOf d.layout d.format t payload = .error
        (.tooLarge "injected payload" payload.size c.layout.payloadCapacity) := by
      rw [rawOf, h.layout, if_pos hfits]
    refine ⟨_, d, a, .bind (.get d) ?_, if_pos hfits, h⟩
    rw [hraw]
    exact .pure _ d
  · rw [if_neg hfits]
    cases henc : c.format.encode t payload.size (payload.slice 0 inlineSize) with
    | error e =>
      have hraw : rawOf d.layout d.format t payload = .error e := by
        rw [rawOf, h.layout, h.format, if_neg hfits, henc]
      refine ⟨_, d, a, .bind (.get d) ?_, rfl, h⟩
      rw [hraw]
      exact .pure _ d
    | ok line =>
      let raw : RawTransaction := ⟨line, payload.slice inlineSize (payload.size - inlineSize)⟩
      have hraw : rawOf d.layout d.format t payload = .ok raw := by
        rw [rawOf, h.layout, h.format, if_neg hfits, henc]
      have hchanged : Changed core (fun s => { s with queue := s.queue ++ [raw] }) d _ :=
        .of_modify (f := fun n => { n with queue := n.queue ++ [raw] }) (fun _ => rfl) d.memory
      refine ⟨_, _, _, .bind (.get d) ?_, rfl, h.restock hcore hchanged rfl rfl
        ⟨raws ++ [raw], hchanged.stock_core hs, ?_⟩⟩
      · rw [hraw]
        exact .bind (.bind (ends_coreState hget) (ends_modifyCore core _ d)) (.pure _ _)
      · exact List.rel_append hcarries (.cons (.of_encode ha (Nat.not_lt.1 hfits) henc) .nil)

end Nic
end LineExchange
