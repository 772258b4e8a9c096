import LineExchange.Proofs.Link.Receive

/-!
# LineExchange.Proofs.Link.Transmit

A transmit over a device appends to what the port has sent.

* `Nic.ends_doorbell`: a doorbell takes the packet in the other line.
* `Nic.Serves.ring_staged`, `Nic.Serves.ring_idle`: so the port has sent what was staged; and after
  no line was written, nothing.
* `Exchange.ends_send`: the critical section.
* `Exchange.tracks_transmit`: the whole call answers as the port does.
-/

namespace LineExchange

/-- The port after the host has sent a packet. -/
def Port.take (port : Port) (p : Packet) : Port :=
  { port with
    queue := if port.loopback then port.queue ++ [p] else port.queue
    sent := port.sent ++ [p] }

theorem Port.take_carries {f : Format} {capacity : Nat} {raws : List RawTransaction}
    {raw : RawTransaction} {p : Packet} {sent : List Packet} (port : Port)
    (h : List.Forall₂ (Carries f capacity) raws port.queue) (hp : Carries f capacity raw p) :
    List.Forall₂ (Carries f capacity) (Stock.take raw p ⟨raws, sent, port.loopback⟩).queue
      (port.take p).queue := by
  unfold Stock.take Port.take
  cases port.loopback with
  | true => exact List.rel_append h (.cons hp .nil)
  | false => exact h

namespace Nic

variable {c : Config} {d d' : Nic Region} {core : Nat} {port : Port}

/-- The device after the host wrote a payload's overflow bytes and its control line. -/
def staged (c : Config) (core : Nat) (parity : Bool) (payload : Bytes) (line : Line)
    (d : Nic Region) : Nic Region :=
  { d with
    memory := ⟨c.layout.withLine core .tx parity line
      (payload.slice inlineSize (payload.size - inlineSize)) d.memory.bytes⟩ }

/-- A doorbell takes the packet that the other line and the overflow array carry. -/
theorem ends_doorbell {s : Stock} {raw : RawTransaction} {p : Packet} {parity : Bool}
    (hl : c.layout.Ordered) (hlayout : d.layout = c.layout) (hformat : d.format = c.format)
    (hparts : ∀ p : Part, c.layout.partAt core p + p.len c.layout ≤ d.memory.size)
    (hs : d.stockOf core = some s) (hp : Carries c.format c.layout.payloadCapacity raw p)
    (hline : c.layout.view d.memory.bytes core (.control .tx parity) = raw.control.bytes)
    (hrest : d.memory.bytes.slice (c.layout.overflowAt core .tx) (p.payload.size - inlineSize) =
      raw.overflow) :
    ∃ d', Ends (Memory.touch (c.layout.controlAt core .tx !parity)) d (.ok ()) d' ∧
      Changed core (.take raw p) d d' ∧
      d'.memory.bytes =
        d.memory.bytes.patch (c.layout.controlAt core .tx parity) Line.zero.bytes := by
  have hrung : d.rungLine core (!parity) = raw.control := by
    rw [rungLine, hlayout, Bool.not_not]
    exact (congrArg Line.ofBytes hline).trans raw.control.ofBytes_bytes
  have hheader : d.format.decode raw.control = ⟨true, p.payload.size, p.transaction⟩ :=
    hformat ▸ hp.header
  have hlen : min (d.format.decode raw.control).length d.layout.payloadCapacity =
      p.payload.size := by
    rw [hheader, hlayout]
    exact Nat.min_eq_left hp.fits
  obtain ⟨d', hring, hchanged, hmem⟩ := ends_consumeTx_valid (hlayout.symm ▸ hparts)
    (hlayout.symm ▸ hl) hrung (by rw [hheader]) hlen (hlayout.symm ▸ hrest)
  rw [hheader, hp.payload] at hchanged
  rw [hlayout, Bool.not_not] at hmem
  have hin : d.layout.controlAt core .tx (!parity) < d.memory.size := by
    rw [hlayout]
    exact Layout.lt_of_line_le (hparts (.control .tx !parity))
  have hsize : d'.memory.size = d.memory.size :=
    (congrArg ByteArray.size hmem).trans (Bytes.size_patch ..)
  have htouch := ends_touch (hlayout.symm ▸ hl) (lt_of_stockOf hs) hin hring hsize
  rw [hlayout] at htouch
  exact ⟨d', htouch, hchanged, hmem⟩

/-- The doorbell after a line was written: the device takes the transaction. -/
theorem Serves.ring_staged (h : Serves c d core port) (hl : c.layout.Ordered)
    (ha : c.format.Accepted) {t : Transaction} {payload : Bytes} {line : Line} (parity : Bool)
    (hfits : payload.size ≤ c.layout.payloadCapacity)
    (henc : c.format.encode t payload.size (payload.slice 0 inlineSize) = .ok line) :
    ∃ d', Ends (Memory.touch (c.layout.controlAt core .tx !parity))
        (d.staged c core parity payload line) (.ok ()) d' ∧
      Served c core d d' (port.take ⟨c.format.wireForm t, payload⟩) := by
  have hcarries := Carries.of_encode ha hfits henc
  have hrest := Layout.size_rest_le hl hfits
  obtain ⟨hlayout, hformat, hparts, hidle, raws, hs, hraws⟩ := h
  let d₁ := d.staged c core parity payload line
  have hsame : c.layout.SameBut core (fun q => q = .overflow .tx ∨ q = .control .tx parity)
      d.memory.bytes d₁.memory.bytes := c.layout.sameBut_withLine hl hparts .tx parity line hrest
  have hslice : d₁.memory.bytes.slice (c.layout.overflowAt core .tx)
      (payload.slice inlineSize (payload.size - inlineSize)).size =
        payload.slice inlineSize (payload.size - inlineSize) :=
    c.layout.slice_withLine hl hparts hrest
  rw [Bytes.size_slice, Nat.min_self] at hslice
  have hparts₁ (p : Part) : c.layout.partAt core p + p.len c.layout ≤ d₁.memory.size :=
    Nat.le_trans (hparts p) (Nat.le_of_eq hsame.size.symm)
  obtain ⟨d', htouch, hchanged, hmem⟩ := ends_doorbell (d := d₁) hl hlayout hformat hparts₁ hs
    hcarries (c.layout.view_withLine hparts) hslice
  have hin := hparts₁ (.control .tx parity)
  have hclear : c.layout.SameBut core (· = .control .tx parity) d₁.memory.bytes d'.memory.bytes :=
    hmem ▸ c.layout.sameBut_patch hl (Nat.le_of_eq Line.zero.size_bytes) hin
  have hzero : c.layout.view d'.memory.bytes core (.control .tx parity) = Line.zero.bytes :=
    hmem ▸ c.layout.view_patch (p := .control .tx parity) Line.zero.size_bytes hin
  have hboth : Changed core _ d d' :=
    (Changed.of_cores_eq rfl rfl rfl : Changed core id d d₁).trans hchanged
  refine ⟨d', htouch, ⟨⟨_, hboth⟩, ?_, fun parity' => ?_, _, hboth.stock_core hs, ?_⟩⟩
  · exact (hsame.mono (by simp)).trans (hclear.mono (by simp))
  · by_cases hp : parity' = parity
    · rw [hp, holdsTx, hzero, Line.ofBytes_bytes, Format.isValid_zero]
    · -- the other line was not touched, and held no transaction before
      rw [holdsTx, hclear.view core _ (.inr (by simp [hp])),
        hsame.view core _ (.inr (by simp [hp]))]
      exact hidle parity'
  · exact port.take_carries hraws hcarries

theorem Serves.ring_idle (h : Serves c d core port) (hl : c.layout.Ordered) (doorbell : Bool) :
    ∃ d', Ends (Memory.touch (c.layout.controlAt core .tx doorbell)) d (.ok ()) d' ∧
      Served c core d d' port := by
  have hsize := h.lt_size
  obtain ⟨hlayout, hformat, hparts, hidle, raws, hs, hraws⟩ := h
  have hin : c.layout.controlAt core .tx doorbell < d.memory.size :=
    Layout.lt_of_line_le (hparts (.control .tx doorbell))
  have hnone : d.format.isValid (d.rungLine core doorbell) = false := by
    rw [hformat, rungLine, hlayout]
    exact hidle (!doorbell)
  obtain ⟨d', hring, hchanged, hmem⟩ := ends_consumeTx_idle (hlayout.symm ▸ hparts) hnone
  have htouch := ends_touch (hlayout.symm ▸ hl) hsize (hlayout.symm ▸ hin) hring (hmem ▸ rfl)
  rw [hlayout] at htouch
  refine ⟨d', htouch, ⟨⟨_, hchanged⟩, hmem ▸ .refl _, fun parity => ?_,
    raws, hchanged.stock_core hs, hraws⟩⟩
  rw [holdsTx, hmem]
  exact hidle parity

end Nic

namespace Exchange

variable {c : Config} {a : Ports} {x y : Exchange (Nic Region)} {port : Port}

theorem ends_send (h : Serves c x port) (ha : c.format.Accepted) {d : Descriptor} {line : Line}
    (hfits : d.payload.size ≤ c.layout.payloadCapacity)
    (henc : encodeStaged c.format d = .ok line) :
    ∃ z, Ends (send d) x (.ok (.ok ())) z ∧
      Served c x z (port.take ⟨c.format.wireForm d.transaction, d.payload⟩) := by
  obtain ⟨rfl, -, hdevice⟩ := h
  have write := ends_writeStaged (fun b => { x.host.memory with memory := ⟨b⟩ }) rfl
    (fun _ _ _ h => Nic.ends_write h) hdevice.fits line hfits
  obtain ⟨d', htouch, hserved⟩ := hdevice.ring_staged x.host.ordered ha x.owner.next.tx hfits
    (encodeStaged_eq_ok.1 henc).2
  refine ⟨⟨{ x.host with memory := d' }, { x.owner with next := x.owner.next.toggle .tx }⟩,
    .bind (.get x) ?_, rfl, rfl, rfl, hserved⟩
  rw [henc]
  exact write.bind (.bind (ends_ringDoorbell htouch) (.pure _ _))

theorem ends_send_refused (h : Serves c x port) {d : Descriptor} {e : EncodeError}
    (henc : encodeStaged c.format d = .error e) :
    ∃ z, Ends (send d) x (.ok (.error e)) z ∧ Served c x z port := by
  obtain ⟨rfl, -, hdevice⟩ := h
  obtain ⟨d', htouch, hserved⟩ := hdevice.ring_idle x.host.ordered !x.owner.next.tx
  refine ⟨⟨{ x.host with memory := d' }, { x.owner with next := x.owner.next.toggle .tx }⟩,
    .bind (.get x) ?_, rfl, rfl, rfl, hserved⟩
  rw [henc]
  exact .bind (ends_ringDoorbell htouch) (.pure _ _)

theorem tracks_transmitStaged (h : Tracks c x a) (ha : c.format.Accepted) (attempts : Nat)
    (d : Descriptor) :
    ∃ (r : Except ExchangeError Unit) (y : Exchange (Nic Region)) (a' : Ports),
      x.transmitStaged (SpinLimit.attempts attempts).policy () d = (r.mapError .refused, (), y) ∧
      a.step c (.transmit x.owner.core attempts d) = (.transmitted r, a') ∧
      y.owner.core = x.owner.core ∧ Tracks c y a' := by
  unfold transmitStaged Ports.step
  rw [h.coreError?_eq, h.config]
  dsimp only
  by_cases hfits : c.layout.payloadCapacity < d.payload.size
  · rw [if_pos hfits, if_pos hfits]
    exact ⟨.error _, _, a, rfl, rfl, rfl, h.with_owner rfl rfl⟩
  rw [if_neg hfits, if_neg hfits]
  by_cases hready : (a x.owner.core).ready = true
  · rw [if_pos hready]
    cases henc : encodeStaged c.format d with
    | ok line =>
      obtain ⟨y, z, henter, hsend, hcore, hz⟩ := h.section_ready hready
        ((a x.owner.core).take ⟨c.format.wireForm d.transaction, d.payload⟩) hready
        (fun y howner hserves => ends_send hserves ha (Nat.not_lt.1 hfits) henc)
        (SpinLimit.attempts attempts).policy ()
      have htransmit : Ends (transmitEntered d) y (.ok ()) _ := hsend.bind (.modify _ _)
      exact ⟨.ok (), _, _, entering_eq henter htransmit, rfl, hcore, hz.with_owner rfl rfl⟩
    | error e =>
      obtain ⟨y, z, henter, hsend, hcore, hz⟩ := h.section_ready hready _ hready
        (fun y howner hserves => ends_send_refused hserves henc)
        (SpinLimit.attempts attempts).policy ()
      rw [a.set_self] at hz
      have htransmit : Ends (transmitEntered d) y (.error (.refused (.unsupportedTransmit e))) _ :=
        hsend.bind (.bind (.modify _ _) (.throw _ _))
      exact ⟨.error _, _, _, entering_eq henter htransmit, rfl, hcore, hz.with_owner rfl rfl⟩
  · obtain ⟨y, henter, howner, hy⟩ := h.enter_stuck (Bool.not_eq_true _ ▸ hready) attempts
    rw [if_neg hready]
    refine ⟨.error _, y, a, ?_, rfl, congrArg Owner.core howner, hy⟩
    rw [entering, henter]
    rfl

theorem tracks_transmit (h : Tracks c x a) (ha : c.format.Accepted) (attempts : Nat)
    (d : Descriptor) :
    ∃ r y a', x.transmitWith (SpinLimit.attempts attempts).policy () d = (r, (), y) ∧
      a.step c (.transmit x.owner.core attempts d) = (Link.answerOf .transmitted r, a') ∧
      y.owner.core = x.owner.core ∧ Tracks c y a' := by
  obtain ⟨r, y, a', hstaged, hstep, hcore, hy⟩ := tracks_transmitStaged h ha attempts d
  refine ⟨_, _, a', transmitWith_of_staged hstaged, ?_, hcore, hy.with_owner rfl rfl⟩
  rw [hstep]
  cases r <;> rfl

end Exchange
end LineExchange
