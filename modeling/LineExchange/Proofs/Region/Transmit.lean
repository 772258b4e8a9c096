import LineExchange.Proofs.Region.Call

/-!
# LineExchange.Proofs.Region.Transmit

A transmit over a plain region. It writes the next control line and as much of the overflow array
as the payload needs, or nothing at all.

* `Exchange.written`: the region after a descriptor was written.
* `Exchange.Sent`: what is found there, and that all else is as before.
* `Exchange.ends_send_written`, `Exchange.ends_send_unwritten`: the critical section.
* `Exchange.transmit_exact`: the whole call, on a core whose gate lets in.
-/

namespace LineExchange

open ControlByte (LetsIn)

namespace Exchange

variable {σ : Type} (x : Exchange Region) (d : Descriptor)

/-- The bytes of the region after a descriptor and its control line were written. -/
def written (line : Line) : Bytes :=
  x.host.config.layout.withLine x.owner.core .tx x.owner.next.tx line
    (d.payload.slice inlineSize (d.payload.size - inlineSize)) x.host.memory.bytes

/-- The control line that the next transmit uses, as it lies in a region. -/
def txLine (b : Bytes) : Line :=
  .ofBytes (x.host.config.layout.view b x.owner.core (.control .tx x.owner.next.tx))

/-- What lies in the region after a descriptor was sent. -/
structure Sent (b : Bytes) : Prop where
  size : b.size = x.host.memory.size
  /-- The control line is valid and says how long the payload is. -/
  header : x.host.config.format.decode (x.txLine b) =
    ⟨true, d.payload.size, x.host.config.format.wireForm d.transaction⟩
  /-- Behind the header the first bytes of the payload lie in the line. -/
  inline : (x.txLine b).inline =
    d.payload.slice 0 inlineSize ++ .zeros (inlineSize - d.payload.size)
  /-- The other bytes lie in the overflow array. -/
  overflow : b.slice (x.host.config.layout.overflowAt x.owner.core .tx)
      (d.payload.size - inlineSize) =
    d.payload.slice inlineSize (d.payload.size - inlineSize)
  /-- They are put together again with the length in the header. -/
  payload : (x.host.config.layout.carried b x.owner.core .tx x.owner.next.tx).slice 0
      (x.host.config.format.decode (x.txLine b)).length = d.payload
  /-- No other byte is written. -/
  frame : ∀ i, (i < x.host.config.layout.controlAt x.owner.core .tx x.owner.next.tx ∨
      x.host.config.layout.controlAt x.owner.core .tx x.owner.next.tx + lineSize ≤ i) →
    (i < x.host.config.layout.overflowAt x.owner.core .tx ∨
      x.host.config.layout.overflowAt x.owner.core .tx + (d.payload.size - inlineSize) ≤ i) →
    b.byteAt i = x.host.memory.bytes.byteAt i

variable {x d} {line : Line}

theorem size_rest (d : Descriptor) :
    (d.payload.slice inlineSize (d.payload.size - inlineSize)).size =
      d.payload.size - inlineSize := by
  rw [Bytes.size_slice, Nat.min_self]

theorem size_written (line : Line) : (x.written d line).size = x.host.memory.size :=
  (Bytes.size_patch ..).trans (Bytes.size_patch ..)

section Send

variable (hparts : ∀ p : Part, x.host.config.layout.partAt x.owner.core p +
    p.len x.host.config.layout ≤ x.host.memory.size)
  (hfits : d.payload.size ≤ x.host.config.layout.payloadCapacity)
include hparts

theorem txLine_written (line : Line) : x.txLine (x.written d line) = line := by
  rw [txLine, written, Layout.view_withLine hparts, Line.ofBytes_bytes]

include hfits in
theorem overflow_written (line : Line) :
    (x.written d line).slice (x.host.config.layout.overflowAt x.owner.core .tx)
        (d.payload.size - inlineSize) =
      d.payload.slice inlineSize (d.payload.size - inlineSize) := by
  have hslice : (x.written d line).slice (x.host.config.layout.overflowAt x.owner.core .tx)
      (d.payload.slice inlineSize (d.payload.size - inlineSize)).size =
        d.payload.slice inlineSize (d.payload.size - inlineSize) :=
    x.host.config.layout.slice_withLine x.host.ordered hparts
      (Layout.size_rest_le x.host.ordered hfits)
  rw [size_rest] at hslice
  exact hslice

include hfits in
/-- What is read back of a line that was encoded, and of the overflow array, is one packet only:
the payload that was staged. -/
theorem carried_written (henc : encodeStaged x.host.config.format d = .ok line) :
    (x.host.config.layout.carried (x.written d line) x.owner.core .tx x.owner.next.tx).slice 0
      d.payload.size = d.payload := by
  have ha := Config.accepted_of_check x.host.config_ok
  have hline := (encodeStaged_eq_ok.1 henc).2
  have hheader := Format.decode_encode ha hline
  have hfound := Carries.of_bytes (f := x.host.config.format) x.host.ordered
    (fun p => (hparts p).trans_eq (size_written (d := d) line).symm)
    (txLine_written (d := d) hparts line).symm (congrArg Header.valid hheader)
    ((congrArg Header.length hheader).trans_le hfits)
  rw [hheader] at hfound
  dsimp only at hfound
  rw [overflow_written hparts hfits] at hfound
  exact congrArg Packet.payload (hfound.unique (Carries.of_encode ha hfits hline))

include hfits in
theorem sent_written (henc : encodeStaged x.host.config.format d = .ok line) :
    x.Sent d (x.written d line) := by
  have ha := Config.accepted_of_check x.host.config_ok
  have hline := (encodeStaged_eq_ok.1 henc).2
  have htx := txLine_written (d := d) hparts line
  have hheader := Format.decode_encode ha hline
  have hzeros : inlineSize - (d.payload.slice 0 inlineSize).size =
      inlineSize - d.payload.size := by
    rw [Bytes.size_slice]
    omega
  refine ⟨size_written line, htx.symm ▸ hheader, ?_, overflow_written hparts hfits line, ?_,
    fun i hcontrol hrange => ?_⟩
  · rw [htx, Format.inline_encode ha hline, hzeros]
  · rw [htx, hheader]
    exact carried_written hparts hfits henc
  · exact x.host.config.layout.byteAt_withLine_of_outside hparts .tx x.owner.next.tx line
      (Layout.size_rest_le x.host.ordered hfits) hcontrol ((size_rest d).symm ▸ hrange)

theorem ends_ringDoorbell_region : Ends ringDoorbell x (.ok ())
    ⟨x.host, { x.owner with next := x.owner.next.toggle .tx }⟩ :=
  ends_ringDoorbell (Region.ends_touch (Layout.lt_of_line_le
    (hparts (.control .tx !x.owner.next.tx))))

include hfits in
theorem ends_send_written (henc : encodeStaged x.host.config.format d = .ok line) :
    Ends (send d) x (.ok (.ok ())) ⟨{ x.host with memory := ⟨x.written d line⟩ },
      { x.owner with next := x.owner.next.toggle .tx }⟩ := by
  have write := ends_writeStaged Region.mk rfl (fun _ _ _ h => Region.ends_write h) hparts line
    hfits
  refine .bind (.get x) ?_
  rw [henc]
  refine write.bind (.bind (ends_ringDoorbell_region fun p => ?_) (.pure _ _))
  exact (hparts p).trans_eq (size_written line).symm

theorem ends_send_unwritten {e : EncodeError}
    (henc : encodeStaged x.host.config.format d = .error e) :
    Ends (send d) x (.ok (.error e)) ⟨x.host,
      { x.owner with next := x.owner.next.toggle .tx }⟩ := by
  refine .bind (.get x) ?_
  rw [henc]
  exact .bind (ends_ringDoorbell_region hparts) (.pure _ _)

end Send

/-- What can be sent besides what fits: a transaction that a host may send and that has a control
line. The settings were checked, so the length field describes every payload that fits. -/
theorem exists_encodeStaged (hfits : d.payload.size ≤ x.host.config.layout.payloadCapacity) :
    (∃ line, encodeStaged x.host.config.format d = .ok line) ↔
      sendable d.transaction = .ok () ∧ x.host.config.format.Encodable d.transaction := by
  have hmax := Nat.le_trans hfits (Config.payloadCapacity_le_of_check x.host.config_ok)
  have hinline : (d.payload.slice 0 inlineSize).size ≤ inlineSize := by
    rw [Bytes.size_slice]
    omega
  simp only [encodeStaged_eq_ok, exists_and_left, Format.encode_isOk, hinline, hmax, true_and]

namespace Ready

variable (h : x.Ready)
include h

theorem written_admitted (hfits : d.payload.size ≤ x.host.config.layout.payloadCapacity)
    (line : Line) : x.admitted.written d line = x.inside (x.written d line) := by
  rw [written, h.memory_admitted]
  exact x.host.config.layout.withLine_put x.host.ordered .tx _ line
    (Layout.size_rest_le x.host.ordered hfits) _

variable (p : SpinPolicy σ) (s : σ)

theorem transmitStaged (hfits : d.payload.size ≤ x.host.config.layout.payloadCapacity)
    (henc : encodeStaged x.host.config.format d = .ok line) :
    ∃ host o, x.transmitStaged p s d = (.ok (), s, ⟨host, o⟩) ∧
      host.memory = ⟨x.written d line⟩ := by
  have hsend := ends_send_written (x := x.admitted) h.fits_admitted hfits henc
  rw [h.written_admitted hfits] at hsend
  have hsame := x.host.config.layout.sameBut_withLine x.host.ordered h.fits .tx x.owner.next.tx line
    (Layout.size_rest_le x.host.ordered hfits)
  obtain ⟨host, hleft, -, hmemory⟩ := h.leave (b := x.written d line)
    (o := { x.owner with next := x.owner.next.toggle .tx }) rfl (hsame.mono (by simp)) hsend
  have hcall : Ends (transmitEntered d) x.admitted (.ok ()) _ := hleft.bind (.modify _ _)
  unfold Exchange.transmitStaged
  rw [h.coreError?_eq]
  dsimp only
  rw [if_neg (Nat.not_lt.2 hfits)]
  exact ⟨host, _, entering_eq (h.enter p s) hcall, hmemory⟩

theorem transmitStaged_refused (hfits : d.payload.size ≤ x.host.config.layout.payloadCapacity)
    {e : EncodeError} (henc : encodeStaged x.host.config.format d = .error e) :
    ∃ host o, x.transmitStaged p s d =
        (.error (.refused (.unsupportedTransmit e)), s, ⟨host, o⟩) ∧
      host.memory = x.host.memory := by
  have hsend := ends_send_unwritten (x := x.admitted) h.fits_admitted henc
  have hsection : Ends (send d) x.admitted (.ok (.error e))
      ⟨{ x.admitted.host with memory := ⟨x.inside x.host.memory.bytes⟩ },
        { x.owner with next := x.owner.next.toggle .tx }⟩ := by
    rw [← h.memory_admitted]
    exact hsend
  obtain ⟨host, hleft, -, hmemory⟩ := h.leave
    (o := { x.owner with next := x.owner.next.toggle .tx }) rfl (.refl _) hsection
  have hcall : Ends (transmitEntered d) x.admitted (.error (.refused (.unsupportedTransmit e))) _ :=
    hleft.bind (.bind (.modify _ _) (.throw _ _))
  unfold Exchange.transmitStaged
  rw [h.coreError?_eq]
  dsimp only
  rw [if_neg (Nat.not_lt.2 hfits)]
  exact ⟨host, _, entering_eq (h.enter p s) hcall, hmemory⟩

theorem transmitStaged_tooLarge (hmore : x.host.config.layout.payloadCapacity < d.payload.size) :
    ∃ o, x.transmitStaged p s d = (.error (.refused (.payloadTooLarge d.payload.size
      x.host.config.layout.payloadCapacity)), s, ⟨x.host, o⟩) := by
  unfold Exchange.transmitStaged
  rw [h.coreError?_eq]
  dsimp only
  rw [if_pos hmore]
  exact ⟨_, rfl⟩

end Ready

/-- **Sending over any bytes.** On a core whose gate lets in, a descriptor is sent exactly if its
payload fits the window and its transaction may be sent and has a control line. Then line and
overflow array carry it, and every other byte of the region is as before (`Sent`). Otherwise the
call is refused and all bytes are as before. -/
theorem transmit_exact (x : Exchange Region) (p : SpinPolicy σ) (s : σ) (d : Descriptor)
    (hsize : x.host.config.regionSize ≤ x.host.memory.size) (hword : x.host.memory.size < wordMax)
    (hcore : x.owner.core < x.host.config.numCores)
    (hidle : LetsIn (x.host.memory.bytes.byteAt (x.host.workerAt x.owner.core))) :
    ∃ r host o, x.transmitWith p s d = (r, s, ⟨host, o⟩) ∧
      (r = .ok () ↔ d.payload.size ≤ x.host.config.layout.payloadCapacity ∧
        sendable d.transaction = .ok () ∧ x.host.config.format.Encodable d.transaction) ∧
      (r = .ok () → x.Sent d host.memory.bytes) ∧
      ∀ e, r = .error e →
        (e = .refused (.payloadTooLarge d.payload.size x.host.config.layout.payloadCapacity) ∨
          ∃ cause, e = .refused (.unsupportedTransmit cause)) ∧
        host.memory = x.host.memory := by
  have hready := ready_of_size hsize hword hcore hidle
  by_cases hfits : d.payload.size ≤ x.host.config.layout.payloadCapacity
  · have hsent := exists_encodeStaged (x := x) hfits
    cases henc : encodeStaged x.host.config.format d with
    | ok line =>
      obtain ⟨host, o, hstaged, hmemory⟩ := hready.transmitStaged p s hfits henc
      refine ⟨.ok (), host, _, transmitWith_of_staged (r := .ok ()) hstaged,
        iff_of_true rfl ⟨hfits, hsent.1 ⟨line, henc⟩⟩, fun _ => ?_, nofun⟩
      rw [hmemory]
      exact sent_written hready.fits hfits henc
    | error e =>
      obtain ⟨host, o, hstaged, hmemory⟩ := hready.transmitStaged_refused p s hfits henc
      have hnot : ¬∃ line, encodeStaged x.host.config.format d = .ok line := by simp [henc]
      refine ⟨_, host, _, transmitWith_of_staged (r := .error (.unsupportedTransmit e)) hstaged,
        iff_of_false nofun fun hok => hnot (hsent.2 hok.2), nofun, ?_⟩
      rintro _ ⟨⟩
      exact ⟨.inr ⟨e, rfl⟩, hmemory⟩
  · obtain ⟨o, hstaged⟩ := hready.transmitStaged_tooLarge p s (Nat.not_le.1 hfits)
    have hcall := transmitWith_of_staged (r := .error (.payloadTooLarge _ _)) hstaged
    refine ⟨_, x.host, _, hcall, iff_of_false nofun fun hok => hfits hok.1, nofun, ?_⟩
    rintro _ ⟨⟩
    exact ⟨.inl rfl, rfl⟩

/-- A call with a payload that takes a part of the overflow array. -/
theorem transmit_exact_call : ∃ (x : Exchange Region) (host : Host Region) (o : Owner),
    let d : Descriptor := ⟨.call ⟨0x1234, 7, .take (.replicate 8 0xab)⟩, .replicate 100 0xcd⟩
    x.host.config = {} ∧ x.host.memory.bytes = (Bytes.zeros 0x10000).put 0xff80 1 ∧
      x.owner = .synced 0 {} {} ∧
      x.transmitWith (SpinLimit.attempts 3).policy () d = (.ok (), (), ⟨host, o⟩) ∧
      x.Sent d host.memory.bytes := by
  obtain ⟨b, hb⟩ : ∃ b, b = (Bytes.zeros 0x10000).put 0xff80 1 := ⟨_, rfl⟩
  obtain ⟨hsize, hword, hidle⟩ := idle_default hb
  let x : Exchange Region := ⟨⟨⟨b⟩, {}, rfl, #[{}], #[true]⟩, .synced 0 {} {}⟩
  let d : Descriptor := ⟨.call ⟨0x1234, 7, .take (.replicate 8 0xab)⟩, .replicate 100 0xcd⟩
  obtain ⟨r, host, o, hcall, hok, hsent, -⟩ := transmit_exact x (SpinLimit.attempts 3).policy () d
    hsize hword (show 0 < 1 by decide) hidle
  have hfits : d.payload.size ≤ ({} : Layout).payloadCapacity := by decide
  obtain rfl := hok.2 ⟨hfits, rfl, (by decide : ({} : Format).Encodable d.transaction)⟩
  exact ⟨x, host, o, rfl, hb, rfl, hcall, hsent rfl⟩

end Exchange
end LineExchange
