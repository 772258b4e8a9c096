import LineExchange.Proofs.Link.Call

/-!
# LineExchange.Proofs.Link.Receive

A receive over a device takes the head of the port's queue, or finds nothing.

* `Nic.Serves.read_head`: a read of an RX control line serves the head of the queue.
* `Exchange.ends_poll`: the critical section comes to what the port says (`Port.polled`).
* `Exchange.tracks_receive`: the whole call answers as the port does.
-/

namespace LineExchange

namespace Nic

variable {c : Config} {d : Nic Region} {core : Nat} {port : Port}

theorem size_headOverflow_le {f : Format} {l : Layout} (hl : l.Ordered)
    {raws : List RawTransaction} {queue : List Packet}
    (h : List.Forall₂ (Carries f l.payloadCapacity) raws queue) :
    (headOverflow raws).size ≤ l.overflowSize := by
  cases h with
  | nil => exact Nat.zero_le _
  | cons hp _ => exact hp.size_overflow_le hl

/-- A read of an RX control line finds the head of the queue, and its overflow bytes lie in the
overflow array. -/
theorem Serves.read_head (h : Serves c d core port) (hl : c.layout.Ordered) (parity : Bool) :
    ∃ raws d', List.Forall₂ (Carries c.format c.layout.payloadCapacity) raws port.queue ∧
      Ends (Memory.read (c.layout.controlAt core .rx parity) lineSize) d
        (.ok (headLine raws).bytes) d' ∧
      Served c core d d' { port with queue := port.queue.tail } ∧
      d'.memory.bytes.slice (c.layout.overflowAt core .rx) (headOverflow raws).size =
        headOverflow raws := by
  obtain ⟨hlayout, -, hfits, hidle, raws, hs, hcarries⟩ := h
  have hover := size_headOverflow_le hl hcarries
  obtain ⟨d', hread, hchanged, hmem⟩ := ends_read_control (hlayout.symm ▸ hl) parity hs
    (hlayout.symm ▸ hfits) (hlayout.symm ▸ hover)
  rw [hlayout] at hread hmem
  have hsame := c.layout.sameBut_withLine hl hfits .rx parity (headLine raws) hover
  have hrest : d'.memory.bytes.slice (c.layout.overflowAt core .rx) (headOverflow raws).size =
      headOverflow raws := hmem ▸ c.layout.slice_withLine hl hfits hover
  rw [← hmem] at hsame
  refine ⟨raws, d', hcarries, hread, ⟨⟨_, hchanged⟩, hsame.mono (by simp), fun parity' => ?_,
    ⟨_, hchanged.stock_core hs, ?_⟩⟩, hrest⟩
  · rw [holdsTx, hsame.view core _ (.inr (by simp))]
    exact hidle parity'
  · have htails := List.forall₂_drop 1 hcarries
    rw [List.drop_one, List.drop_one] at htails
    exact htails

theorem Serves.read_overflow (h : Serves c d core port) (hl : c.layout.Ordered) {len : Nat}
    (hlen : len ≤ c.layout.overflowSize) :
    Ends (Memory.read (c.layout.overflowAt core .rx) len) d
      (.ok (d.memory.bytes.slice (c.layout.overflowAt core .rx) len)) d := by
  have hin : d.layout.overflowAt core .rx + len ≤ d.memory.size := by
    rw [h.layout]
    exact Nat.le_trans (Nat.add_le_add_left hlen _) (h.fits (.overflow .rx))
  have hread := ends_read_overflow (h.layout.symm ▸ hl) h.lt_size hin
  rw [h.layout] at hread
  exact hread

end Nic

/-- What a receive on a port that is ready comes to. -/
def Port.polled (c : Config) (port : Port) : Except Stop (Option Received) :=
  let limit := min c.rxBufferSize c.layout.payloadCapacity
  match port.queue with
  | [] => .ok none
  | p :: _ =>
    if limit < p.payload.size then .error (.refused (.overflowExceeded p.payload.size limit))
    else .ok (some ⟨p.transaction, p.payload⟩)

namespace Exchange

variable {c : Config} {a : Ports} {x y : Exchange (Nic Region)} {port : Port}

theorem ends_poll (h : Serves c x port) :
    ∃ z, Ends poll x (port.polled c) z ∧ Served c x z { port with queue := port.queue.tail } := by
  obtain ⟨rfl, hbuffer, hdevice⟩ := h
  obtain ⟨raws, d', hcarries, hread, hserved, hover⟩ :=
    hdevice.read_head x.host.ordered x.owner.next.rx
  have hserves := hdevice.trans hserved
  have hline := (ends_onMemory hread).map (g := Line.ofBytes)
  rw [Line.ofBytes_bytes] at hline
  unfold Port.polled
  cases hq : port.queue with
  | nil =>
    rw [hq] at hcarries hserved
    cases hcarries
    -- the device served the line of zeros, which holds no transaction
    exact ⟨_, ends_poll_none hline (Format.isValid_zero _), rfl, rfl, rfl, hserved⟩
  | cons p queue =>
    rw [hq] at hcarries hserved
    cases hcarries with | @cons raw _ raws _ hp _ =>
    let limit := min x.host.config.rxBufferSize x.host.config.layout.payloadCapacity
    have hlimit : x.rxLimit = limit := by rw [rxLimit, Owner.rxCapacity, hbuffer]
    have hsize : (x.host.config.format.decode raw.control).length = p.payload.size :=
      congrArg Header.length hp.header
    dsimp only
    by_cases hmore : limit < p.payload.size
    · have hpoll := ends_poll_refused hline (congrArg Header.valid hp.header)
        (by rw [Nic.headLine, hlimit, hsize]; exact hmore)
      rw [Nic.headLine, hsize, hlimit] at hpoll
      rw [if_pos hmore]
      exact ⟨_, hpoll, rfl, rfl, rfl, hserved⟩
    · -- the overflow array still holds what the device put there with the line
      have hover : d'.memory.bytes.slice (x.host.config.layout.overflowAt x.owner.core .rx)
          raw.overflow.size = raw.overflow := hover
      have hrest := hserves.read_overflow x.host.ordered (hp.size_overflow_le x.host.ordered)
      rw [hover, hp.overflow] at hrest
      rw [if_neg hmore]
      refine ⟨_, ends_poll_received hline hp (fun _ => hrest) (fun _ => rfl)
        (hlimit ▸ Nat.not_lt.1 hmore), rfl, rfl, ?_, hserved⟩
      exact (Bytes.size_patch ..).trans (Bytes.size_patch ..)

theorem tracks_receive (h : Tracks c x a) (attempts : Nat) :
    ∃ r y a', x.receiveWith (SpinLimit.attempts attempts).policy () = (r, (), y) ∧
      a.step c (.receive x.owner.core attempts) = (Link.answerOf .received r, a') ∧
      y.owner.core = x.owner.core ∧ Tracks c y a' := by
  unfold receiveWith Ports.step
  rw [h.coreError?_eq]
  dsimp only
  by_cases hready : (a x.owner.core).ready = true
  · obtain ⟨y, z, henter, hpoll, hcore, hz⟩ := h.section_ready hready
      { a x.owner.core with queue := (a x.owner.core).queue.tail } hready
      (fun y howner hserves => ends_poll hserves) (SpinLimit.attempts attempts).policy ()
    rw [if_pos hready]
    cases hq : (a x.owner.core).queue with
    | nil =>
      have hsame : a.set x.owner.core { a x.owner.core with queue := [] } = a := by
        rw [← hq]
        exact a.set_self x.owner.core
      rw [hq, List.tail_nil, hsame] at hz
      rw [Port.polled, hq] at hpoll
      have hreceive : Ends receiveEntered y (.ok none) z := hpoll.bind (.pure _ _)
      exact ⟨.ok none, z, a, entering_eq henter hreceive, rfl, hcore, hz⟩
    | cons p queue =>
      rw [hq, List.tail_cons] at hz
      rw [Port.polled, hq] at hpoll
      dsimp only at hpoll ⊢
      by_cases hmore : min c.rxBufferSize c.layout.payloadCapacity < p.payload.size
      · rw [if_pos hmore] at hpoll ⊢
        have hreceive : Ends receiveEntered y _ z := hpoll.bind_error
        exact ⟨.error (.refused _), z, _, entering_eq henter hreceive, rfl, hcore, hz⟩
      · rw [if_neg hmore] at hpoll ⊢
        have hreceive : Ends receiveEntered y _ _ := hpoll.bind (.bind (.modify _ _) (.pure _ _))
        exact ⟨.ok (some _), _, _, entering_eq henter hreceive, rfl, hcore, hz.with_owner rfl rfl⟩
  · obtain ⟨y, henter, howner, hy⟩ := h.enter_stuck (Bool.not_eq_true _ ▸ hready) attempts
    rw [if_neg hready]
    refine ⟨.error (.refused _), y, a, ?_, rfl, congrArg Owner.core howner, hy⟩
    rw [entering, henter]

end Exchange
end LineExchange
