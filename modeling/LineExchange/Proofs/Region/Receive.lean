import LineExchange.Proofs.Region.Call

/-!
# LineExchange.Proofs.Region.Receive

A receive over a plain region. Any bytes may lie in the region; what the call answers is a
function of them (`Exchange.found`), and the region stays as it is.

* `Exchange.rxLine`, `Exchange.rxHeader`, `Exchange.rxPayload`: what lies where the receive looks.
* `Exchange.ends_poll_found`: the critical section comes to what lies there.
* `Exchange.receive_exact`: so does the whole call, on a core whose gate lets in.
-/

namespace LineExchange

open ControlByte (LetsIn)

namespace Exchange

variable {σ : Type} (x : Exchange Region)

/-- The control line that the next receive looks at. -/
def rxLine : Line :=
  .ofBytes (x.host.config.layout.view x.host.memory.bytes x.owner.core
    (.control .rx x.owner.next.rx))

def rxHeader : Header := x.host.config.format.decode x.rxLine

/-- What the line and the overflow array carry, as much of it as the header announces. -/
def rxPayload : Bytes :=
  (x.host.config.layout.carried x.host.memory.bytes x.owner.core .rx x.owner.next.rx).slice 0
    x.rxHeader.length

/-- What the next receive comes to. -/
def found : Except Stop (Option Received) :=
  if x.rxHeader.valid then
    if x.rxLimit < x.rxHeader.length then
      .error (.refused (.overflowExceeded x.rxHeader.length x.rxLimit))
    else .ok (some ⟨x.rxHeader.transaction, x.rxPayload⟩)
  else .ok none

variable {x}

theorem found_eq_none : x.found = .ok none ↔ x.rxHeader.valid = false := by
  unfold found
  cases x.rxHeader.valid with
  | false => simp
  | true => by_cases hmore : x.rxLimit < x.rxHeader.length <;> simp [hmore]

theorem found_eq_overflow {len capacity : Nat} :
    x.found = .error (.refused (.overflowExceeded len capacity)) ↔
      x.rxHeader.valid = true ∧ x.rxLimit < x.rxHeader.length ∧
        len = x.rxHeader.length ∧ capacity = x.rxLimit := by
  unfold found
  cases x.rxHeader.valid with
  | false => simp
  | true => by_cases hmore : x.rxLimit < x.rxHeader.length <;> simp [hmore, eq_comm]

theorem found_of_fits (hvalid : x.rxHeader.valid = true)
    (hfits : x.rxHeader.length ≤ x.rxLimit) :
    x.found = .ok (some ⟨x.rxHeader.transaction, x.rxPayload⟩) := by
  rw [found, if_pos hvalid, if_neg (Nat.not_lt.2 hfits)]

/-- What is found does not depend on the buffer that it is received into, apart from its size. -/
theorem found_congr {y : Exchange Region} (hconfig : y.host.config = x.host.config)
    (hcore : y.owner.core = x.owner.core) (hnext : y.owner.next.rx = x.owner.next.rx)
    (hcapacity : y.owner.rxCapacity = x.owner.rxCapacity)
    (hview : ∀ q : Part, q ≠ .worker →
      x.host.config.layout.view y.host.memory.bytes x.owner.core q =
        x.host.config.layout.view x.host.memory.bytes x.owner.core q) : y.found = x.found := by
  have hline : y.rxLine = x.rxLine := by
    rw [rxLine, hconfig, hcore, hnext, hview _ (by simp), rxLine]
  have hheader : y.rxHeader = x.rxHeader := by rw [rxHeader, hconfig, hline, rxHeader]
  have hpayload : y.rxPayload = x.rxPayload := by
    rw [rxPayload, Layout.carried, hconfig, hcore, hnext, hview _ (by simp), hview _ (by simp),
      hheader]
    rfl
  have hlimit : y.rxLimit = x.rxLimit := by rw [rxLimit, hcapacity, hconfig, rxLimit]
  rw [found, hheader, hpayload, hlimit, found]

section Poll

variable (hfits : ∀ p : Part, x.host.config.layout.partAt x.owner.core p +
  p.len x.host.config.layout ≤ x.host.memory.size)
include hfits

theorem ends_readLine_rx :
    Ends (readLine (x.host.config.layout.controlAt x.owner.core .rx x.owner.next.rx)) x
      (.ok x.rxLine) x :=
  (ends_onMemory (Region.ends_read (hfits (.control .rx x.owner.next.rx)))).map

/-- What lies where the receive looks carries a packet, if it is valid and fits the window. -/
theorem carries_rx (hvalid : x.rxHeader.valid = true)
    (hcap : x.rxHeader.length ≤ x.host.config.layout.payloadCapacity) :
    Carries x.host.config.format x.host.config.layout.payloadCapacity
      ⟨x.rxLine, x.host.memory.bytes.slice (x.host.config.layout.overflowAt x.owner.core .rx)
        (x.rxHeader.length - inlineSize)⟩
      ⟨x.rxHeader.transaction, x.rxPayload⟩ :=
  Carries.of_bytes x.host.ordered hfits rfl hvalid hcap

theorem size_rxPayload (hvalid : x.rxHeader.valid = true)
    (hcap : x.rxHeader.length ≤ x.host.config.layout.payloadCapacity) :
    x.rxPayload.size = x.rxHeader.length :=
  (congrArg Header.length (carries_rx hfits hvalid hcap).header).symm

/-- Each byte of the payload lies where the layout has it, in the line or in the overflow array. -/
theorem byteAt_rxPayload (hcap : x.rxHeader.length ≤ x.host.config.layout.payloadCapacity)
    {i : Nat} (hi : i < x.rxHeader.length) :
    x.rxPayload.byteAt i = x.host.memory.bytes.byteAt
      (x.host.config.layout.payloadAt x.owner.core .rx x.owner.next.rx i) := by
  have hroom : i < inlineSize + x.host.config.layout.overflowSize := by
    rw [← x.host.config.layout.payloadCapacity_eq x.host.ordered]
    exact Nat.lt_of_lt_of_le hi hcap
  rw [rxPayload, Bytes.byteAt_slice, if_pos hi, Nat.zero_add]
  exact x.host.config.layout.byteAt_carried .rx x.owner.next.rx hfits hroom

/-- The critical section of a receive. The buffer is written only if something is received. -/
theorem ends_poll_found : ∃ o, Ends poll x x.found ⟨x.host, o⟩ ∧ o.core = x.owner.core ∧
    ((∀ received, x.found ≠ .ok (some received)) → o.rxBuffer = x.owner.rxBuffer) := by
  have hline := ends_readLine_rx hfits
  by_cases hvalid : x.rxHeader.valid = true
  · by_cases hmore : x.rxLimit < x.rxHeader.length
    · rw [found_eq_overflow.2 ⟨hvalid, hmore, rfl, rfl⟩]
      exact ⟨_, ends_poll_refused hline hvalid hmore, rfl, fun _ => rfl⟩
    · have hlimit := Nat.not_lt.1 hmore
      have hcap := Nat.le_trans hlimit (Nat.min_le_right ..)
      have hcarries := carries_rx hfits hvalid hcap
      have hsize := size_rxPayload hfits hvalid hcap
      have hrest := hcarries.size_overflow_le x.host.ordered
      rw [hcarries.overflow] at hrest
      have hread := Region.ends_read
        (Nat.le_trans (Nat.add_le_add_left hrest _) (hfits (.overflow .rx)))
      rw [found_of_fits hvalid hlimit]
      exact ⟨_, ends_poll_received hline hcarries (fun _ => hsize ▸ hread) (fun _ => rfl)
        (hsize.trans_le hlimit), rfl, fun hnone => absurd rfl (hnone _)⟩
  · have hinvalid := Bool.not_eq_true _ ▸ hvalid
    rw [found_eq_none.2 hinvalid]
    exact ⟨_, ends_poll_none hline hinvalid, rfl, fun _ => rfl⟩

end Poll

namespace Ready

variable (h : x.Ready)
include h

theorem found_admitted : x.admitted.found = x.found := by
  refine found_congr rfl rfl rfl rfl fun q hq => ?_
  rw [h.memory_admitted]
  exact (sameBut_inside _).view _ q (.inr hq)

/-- A receive answers what lies there and leaves the region as it is. -/
theorem receiveWith (p : SpinPolicy σ) (s : σ) :
    ∃ host o, x.receiveWith p s = (x.found, s, ⟨host, o⟩) ∧ host.memory = x.host.memory ∧
      ((∀ received, x.found ≠ .ok (some received)) → o.rxBuffer = x.owner.rxBuffer) := by
  obtain ⟨o, hpoll, hcore, hbuffer⟩ := ends_poll_found h.fits_admitted
  rw [h.found_admitted] at hpoll hbuffer
  have hsection : Ends poll x.admitted x.found
      ⟨{ x.admitted.host with memory := ⟨x.inside x.host.memory.bytes⟩ }, o⟩ := by
    rw [← h.memory_admitted]
    exact hpoll
  obtain ⟨host, hleft, -, hmemory⟩ := h.leave hcore (.refl _) hsection
  unfold Exchange.receiveWith
  rw [h.coreError?_eq]
  cases hfound : x.found with
  | error e =>
    rw [hfound] at hleft hbuffer
    have hcall : Ends receiveEntered x.admitted (.error e) ⟨host, o⟩ := hleft.bind_error
    exact ⟨host, o, entering_eq (h.enter p s) hcall, hmemory, hbuffer⟩
  | ok found =>
    rw [hfound] at hleft hbuffer
    cases found with
    | none =>
      have hcall : Ends receiveEntered x.admitted (.ok none) ⟨host, o⟩ := hleft.bind (.pure _ _)
      exact ⟨host, o, entering_eq (h.enter p s) hcall, hmemory, hbuffer⟩
    | some received =>
      have hcall : Ends receiveEntered x.admitted (.ok (some received)) _ :=
        hleft.bind (.bind (.modify _ _) (.pure _ _))
      exact ⟨_, _, entering_eq (h.enter p s) hcall, hmemory, fun hnone => absurd rfl (hnone _)⟩

end Ready

/-- **Receiving over any bytes.** On a core whose gate lets in, a receive answers that nothing is
there if the line is not valid, refuses a length that the buffer or the layout has no room for,
and else receives what the header says and as many bytes of the line and the overflow array. A
code that is not known is received as an error transaction. The region stays as it is, the buffer
too unless something is received, and what the buffer held does not matter. -/
theorem receive_exact (x : Exchange Region) (p : SpinPolicy σ) (s : σ)
    (hsize : x.host.config.regionSize ≤ x.host.memory.size) (hword : x.host.memory.size < wordMax)
    (hcore : x.owner.core < x.host.config.numCores)
    (hidle : LetsIn (x.host.memory.bytes.byteAt (x.host.workerAt x.owner.core))) :
    ∃ r host o, x.receiveWith p s = (r, s, ⟨host, o⟩) ∧
      (r = .ok none ↔ x.rxHeader.valid = false) ∧
      (∀ len capacity, r = .error (.refused (.overflowExceeded len capacity)) ↔
        x.rxHeader.valid = true ∧ x.rxLimit < x.rxHeader.length ∧
          len = x.rxHeader.length ∧ capacity = x.rxLimit) ∧
      (x.rxHeader.valid = true → x.rxHeader.length ≤ x.rxLimit →
        r = .ok (some ⟨x.rxHeader.transaction, x.rxPayload⟩) ∧
          x.rxPayload.size = x.rxHeader.length) ∧
      (x.host.config.format.ty.get x.rxLine.bytes ∉
          [x.host.config.format.tags.bypass, x.host.config.format.tags.call,
            x.host.config.format.tags.reply].map UInt64.toNat →
        ∃ tag, tag.toNat = x.host.config.format.ty.get x.rxLine.bytes ∧
          x.rxHeader.transaction = .error tag) ∧
      host.memory = x.host.memory ∧
      ((∀ received, r ≠ .ok (some received)) → o.rxBuffer = x.owner.rxBuffer) ∧
      ∀ other : Owner, other.core = x.owner.core → other.next.rx = x.owner.next.rx →
        other.rxCapacity = x.owner.rxCapacity →
        ((⟨x.host, other⟩ : Exchange Region).receiveWith p s).1 = r := by
  have hready := ready_of_size hsize hword hcore hidle
  obtain ⟨host, o, hcall, hmemory, hbuffer⟩ := hready.receiveWith p s
  refine ⟨x.found, host, o, hcall, found_eq_none, fun len capacity => found_eq_overflow,
    fun hvalid hlimit => ⟨found_of_fits hvalid hlimit, ?_⟩,
    Format.transactionOf_unknown (Config.accepted_of_check x.host.config_ok), hmemory, hbuffer,
    fun other hcore' hnext hcapacity => ?_⟩
  · exact size_rxPayload hready.fits hvalid (Nat.le_trans hlimit (Nat.min_le_right ..))
  · have hother : Ready ⟨x.host, other⟩ :=
      ready_of_size hsize hword (hcore'.trans_lt hcore) (hcore'.symm ▸ hidle)
    obtain ⟨host', o', hcall', -, -⟩ := hother.receiveWith p s
    rw [hcall']
    exact found_congr rfl hcore' hnext hcapacity fun _ _ => rfl

/-- The waiting call, with a mark on either side of the end of its line. -/
def markedCall : Host Region :=
  .fresh ⟨(Region.waitingCall.bytes.put 127 0xaa).put 0x100 0xbb⟩ narrow check_narrow

/-- The call is received with its 100 bytes, of which 64 lie in the line and the others in the
overflow array. An owner whose buffer is shorter is told so. What the buffers held is not seen. -/
theorem receive_exact_across :
    let p := (SpinLimit.attempts 3).policy
    let o : Owner := { Owner.synced 0 narrow {} with rxBuffer := .replicate 128 0xff }
    let short : Owner := { o with rxBuffer := .replicate 16 0xff }
    (∃ payload host o', receiveWith p () ⟨markedCall, o⟩ =
        (.ok (some ⟨.empty narrow.format .call, payload⟩), (), ⟨host, o'⟩) ∧
      payload.size = 100 ∧ payload.byteAt 62 = 0 ∧ payload.byteAt 63 = 0xaa ∧
      payload.byteAt 64 = 0xbb ∧ payload.byteAt 65 = 0 ∧ host.memory = markedCall.memory) ∧
    ∃ host o', receiveWith p () ⟨markedCall, short⟩ =
        (.error (.refused (.overflowExceeded 100 16)), (), ⟨host, o'⟩) ∧
      host.memory = markedCall.memory ∧ o'.rxBuffer = short.rxBuffer := by
  intro p o short
  let x : Exchange Region := ⟨markedCall, o⟩
  let y : Exchange Region := ⟨markedCall, short⟩
  have hsize : narrow.regionSize ≤ markedCall.memory.size := by decide +kernel
  have hword : markedCall.memory.size < wordMax := by decide +kernel
  have hidle : LetsIn (markedCall.memory.bytes.byteAt (markedCall.workerAt 0)) :=
    ⟨by decide +kernel, by decide +kernel⟩
  have hready : x.Ready := ready_of_size hsize hword (show 0 < 1 by decide) hidle
  have hheader : x.rxHeader.valid = true ∧ x.rxHeader.length = 100 ∧
      x.rxHeader.transaction = .empty narrow.format .call := by decide +kernel
  obtain ⟨hvalid, hlength, htransaction⟩ := hheader
  have hlimit : x.rxLimit = 128 ∧ y.rxLimit = 16 := by decide +kernel
  constructor
  · obtain ⟨r, host, o', hcall, -, -, hreceived, -, hmemory, -⟩ :=
      receive_exact x p () hsize hword (show 0 < 1 by decide) hidle
    obtain ⟨rfl, hpayload⟩ := hreceived hvalid (by rw [hlength, hlimit.1]; decide)
    have byteAt {i : Nat} (hi : i < 100) : x.rxPayload.byteAt i =
        markedCall.memory.bytes.byteAt (narrow.layout.payloadAt 0 .rx false i) :=
      byteAt_rxPayload hready.fits (hlength.trans_le (by decide)) (hlength.symm ▸ hi)
    rw [htransaction] at hcall
    exact ⟨x.rxPayload, host, o', hcall, hpayload.trans hlength,
      (byteAt (by decide)).trans (by decide +kernel), (byteAt (by decide)).trans (by decide +kernel),
      (byteAt (by decide)).trans (by decide +kernel), (byteAt (by decide)).trans (by decide +kernel),
      hmemory⟩
  · obtain ⟨r, host, o', hcall, -, hoverflow, -, -, hmemory, hbuffer, -⟩ :=
      receive_exact y p () hsize hword (show 0 < 1 by decide) hidle
    obtain rfl := (hoverflow 100 16).2
      ⟨hvalid, by rw [hlimit.2]; exact hlength.symm ▸ by decide, hlength.symm, hlimit.2.symm⟩
    exact ⟨host, o', hcall, hmemory, hbuffer nofun⟩

end Exchange
end LineExchange
