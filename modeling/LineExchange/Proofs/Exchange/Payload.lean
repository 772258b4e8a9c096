import LineExchange.Proofs.Exchange.Section
import LineExchange.Proofs.Layout.Lines
import LineExchange.Proofs.Nic.Carries

/-!
# LineExchange.Proofs.Exchange.Payload

How a payload is split between a control line and the overflow array, and put together again.

* `Exchange.ends_fill`: a receive puts the two parts together in the buffer, whatever was in it.
* `Exchange.ends_poll_none`, `ends_poll_refused`, `ends_poll_received`: what a receive comes to that
  has read its line.
* `Exchange.ends_writeStaged`: a transmit writes the rest of the payload and then the line, into
  any memory that can be written as bytes can.
* `Carries.of_bytes`: a valid line of a region and its overflow array carry a packet.
-/

namespace LineExchange
namespace Bytes

theorem slice_patch_patch (buf : Bytes) {a b : Bytes} (h : a.size + b.size ≤ buf.size) :
    ((buf.patch 0 a).patch a.size b).slice 0 (a.size + b.size) = a ++ b := by
  have ha : 0 + a.size ≤ buf.size := by omega
  have hb : a.size + b.size ≤ (buf.patch 0 a).size := by rw [size_patch]; exact h
  refine ext_byteAt ?_ fun i hi => ?_
  · rw [size_slice, size_patch, size_patch, ByteArray.size_append]
    omega
  · rw [size_slice, size_patch, size_patch] at hi
    rw [byteAt_slice, if_pos (by omega), Nat.zero_add, byteAt_patch hb, byteAt_patch ha,
      byteAt_append]
    by_cases hlt : i < a.size
    · rw [if_neg (by omega), if_pos (by omega), if_pos hlt, Nat.sub_zero]
    · rw [if_pos (by omega), if_neg hlt]

/-- The first bytes of two strings one after the other. -/
theorem slice_append (a b : Bytes) (n : Nat) :
    (a ++ b).slice 0 n = a.slice 0 n ++ b.slice 0 (n - a.size) := by
  refine ext_byteAt ?_ fun i hi => ?_
  · simp only [size_slice, ByteArray.size_append]
    omega
  · simp only [size_slice, ByteArray.size_append] at hi
    rw [byteAt_slice, if_pos (by omega), Nat.zero_add, byteAt_append, byteAt_append, size_slice,
      byteAt_slice, byteAt_slice, Nat.zero_add]
    by_cases hlt : i < a.size
    · rw [if_pos hlt, if_pos (by omega), if_pos (by omega)]
    · rw [if_neg hlt, if_neg (by omega), if_pos (by omega), Nat.zero_add]
      congr 1
      omega

end Bytes

theorem Line.ofBytes_bytes (l : Line) : Line.ofBytes l.bytes = l := by
  have h := Line.bytes_ofBytes_of_size l.size_bytes
  cases hl : Line.ofBytes l.bytes with | mk b hb =>
  rw [hl] at h
  cases l
  cases h
  rfl

theorem Layout.size_rest_le {l : Layout} (hl : l.Ordered) {payload : Bytes}
    (hfits : payload.size ≤ l.payloadCapacity) :
    (payload.slice inlineSize (payload.size - inlineSize)).size ≤ l.overflowSize := by
  have hcap := l.payloadCapacity_eq hl
  rw [Bytes.size_slice]
  omega

namespace Carries

variable {f : Format} {capacity : Nat} {raw : RawTransaction} {p : Packet}

theorem size_overflow_le {l : Layout} (hl : l.Ordered)
    (h : Carries f l.payloadCapacity raw p) : raw.overflow.size ≤ l.overflowSize := by
  have hcap := l.payloadCapacity_eq hl
  have hsize := h.overflow
  have hfits := h.fits
  omega

/-- The payload is found in a buffer after its two parts were written there. -/
theorem fill (h : Carries f capacity raw p) {buf : Bytes} (hbuf : p.payload.size ≤ buf.size) :
    ((buf.patch 0 (raw.control.inline.slice 0 p.payload.size)).patch inlineSize
      raw.overflow).slice 0 p.payload.size = p.payload := by
  have hsize :
      (raw.control.inline.slice 0 p.payload.size).size = min p.payload.size inlineSize := by
    rw [Bytes.size_slice, raw.control.size_inline, Nat.sub_zero]
  have hover := h.overflow
  have hpayload := h.payload
  by_cases hmore : inlineSize < p.payload.size
  · have hfront : (raw.control.inline.slice 0 p.payload.size).size = inlineSize := by omega
    have hboth := Bytes.slice_patch_patch buf
      (a := raw.control.inline.slice 0 p.payload.size) (b := raw.overflow) (by omega)
    rw [hpayload, hfront, hover, Nat.add_sub_cancel' (Nat.le_of_lt hmore)] at hboth
    exact hboth
  · have hnone : raw.overflow = ByteArray.empty := ByteArray.size_eq_zero_iff.1 (by omega)
    rw [hnone, ByteArray.append_empty] at hpayload
    rw [hnone, Bytes.patch_empty, hpayload]
    exact Bytes.slice_patch_same (by omega)

/-- A valid line of a region and the bytes in the overflow array carry a packet. -/
theorem of_bytes {l : Layout} (hl : l.Ordered) {b : Bytes} {core : Nat} {d : Direction}
    {parity : Bool} (hb : ∀ p : Part, l.partAt core p + p.len l ≤ b.size)
    {line : Line} (hline : line = .ofBytes (l.view b core (.control d parity)))
    (hvalid : (f.decode line).valid = true)
    (hfits : (f.decode line).length ≤ l.payloadCapacity) :
    Carries f l.payloadCapacity
      ⟨line, b.slice (l.overflowAt core d) ((f.decode line).length - inlineSize)⟩
      ⟨(f.decode line).transaction,
        (l.carried b core d parity).slice 0 (f.decode line).length⟩ := by
  have hcap := l.payloadCapacity_eq hl
  have hroom : l.overflowAt core d + l.overflowSize ≤ b.size := hb (.overflow d)
  have hover : (l.view b core (.overflow d)).size = l.overflowSize := by
    have hat : l.partAt core (.overflow d) = l.overflowAt core d := rfl
    have hlen : (Part.overflow d).len l = l.overflowSize := rfl
    rw [Layout.view, Bytes.size_slice, hat, hlen]
    omega
  have hsize : ((l.carried b core d parity).slice 0 (f.decode line).length).size =
      (f.decode line).length := by
    rw [Bytes.size_slice, Layout.carried, ByteArray.size_append, Line.size_inline, hover]
    omega
  constructor
  · dsimp only
    rw [hsize, ← hvalid]
  · exact hsize.trans_le hfits
  · dsimp only
    rw [hsize, Bytes.size_slice]
    omega
  · dsimp only
    rw [hsize, Layout.carried, ← hline, Bytes.slice_append, Line.size_inline, Layout.view,
      Bytes.slice_slice_start]
    · rfl
    · show _ ≤ l.overflowSize
      omega

end Carries

namespace Exchange

variable {M : Type} [Memory M] {x : Exchange M}

/-- The end of a receive: the payload is put together in the buffer. -/
theorem ends_fill {t : Transaction} {front rest payload : Bytes} {offset : Nat} {m : M}
    (hread : inlineSize < payload.size → Ends (Memory.read offset (payload.size - inlineSize))
      x.host.memory (.ok rest) m)
    (hnone : ¬inlineSize < payload.size → rest = ByteArray.empty ∧ m = x.host.memory)
    (hfill : ((x.owner.rxBuffer.patch 0 front).patch inlineSize rest).slice 0 payload.size =
      payload) :
    Ends (do
      fillBuffer 0 front
      if inlineSize < payload.size then
        fillBuffer inlineSize (← onMemory (Memory.read offset (payload.size - inlineSize)))
      return some ⟨t, (← get).owner.rxBuffer.slice 0 payload.size⟩ :
        Step M (Option Received)) x (.ok (some ⟨t, payload⟩))
      ⟨{ x.host with memory := m }, { x.owner with
        rxBuffer := (x.owner.rxBuffer.patch 0 front).patch inlineSize rest }⟩ := by
  let filled (m : M) (b : Bytes) : Exchange M :=
    ⟨{ x.host with memory := m }, { x.owner with rxBuffer := b }⟩
  have taken (m : M) (b : Bytes) (hb : b.slice 0 payload.size = payload) :
      Ends (get >>= fun y => pure (some ⟨t, y.owner.rxBuffer.slice 0 payload.size⟩) :
        Step M (Option Received)) (filled m b) (.ok (some ⟨t, payload⟩)) (filled m b) := by
    refine .bind (.get (filled m b)) ?_
    rw [hb]
    exact .pure _ _
  have last := taken m _ hfill
  have first : Ends (fillBuffer 0 front) x (.ok ())
      (filled x.host.memory (x.owner.rxBuffer.patch 0 front)) := .modify _ x
  refine first.bind ?_
  by_cases hmore : inlineSize < payload.size
  · rw [if_pos hmore]
    have read := ends_onMemory (x := filled x.host.memory (x.owner.rxBuffer.patch 0 front))
      (hread hmore)
    exact read.bind (.bind (.modify _ _) last)
  · obtain ⟨hrest, rfl⟩ := hnone hmore
    rw [hrest, Bytes.patch_empty] at last ⊢
    rw [if_neg hmore]
    exact last

section Poll

variable {line : Line} {m : M}
  (hline : Ends (readLine (x.host.config.layout.controlAt x.owner.core .rx x.owner.next.rx)) x
    (.ok line) ⟨{ x.host with memory := m }, x.owner⟩)
include hline

theorem ends_poll_none (hinvalid : (x.host.config.format.decode line).valid = false) :
    Ends poll x (.ok none) ⟨{ x.host with memory := m },
      { x.owner with
        next := x.owner.next.toggle .rx
        stats := { x.owner.stats with emptyPolls := x.owner.stats.emptyPolls + 1 } }⟩ := by
  refine .bind (.get x) (.bind hline (.bind (.modify _ _) ?_))
  dsimp only
  rw [if_neg (ne_true_of_eq_false hinvalid)]
  exact .bind (.modify _ _) (.pure _ _)

theorem ends_poll_refused (hvalid : (x.host.config.format.decode line).valid = true)
    (hmore : x.rxLimit < (x.host.config.format.decode line).length) :
    Ends poll x (.error (.refused
        (.overflowExceeded (x.host.config.format.decode line).length x.rxLimit)))
      ⟨{ x.host with memory := m }, { x.owner with next := x.owner.next.toggle .rx }⟩ := by
  refine .bind (.get x) (.bind hline (.bind (.modify _ _) ?_))
  dsimp only
  rw [if_pos hvalid, if_pos hmore]
  exact .throw _ _

/-- A packet that fits is received, if the overflow array still holds its other bytes. -/
theorem ends_poll_received {capacity : Nat} {rest : Bytes} {p : Packet} {m' : M}
    (hp : Carries x.host.config.format capacity ⟨line, rest⟩ p)
    (hrest : inlineSize < p.payload.size →
      Ends (Memory.read (x.host.config.layout.overflowAt x.owner.core .rx)
        (p.payload.size - inlineSize)) m (.ok rest) m')
    (hsame : ¬inlineSize < p.payload.size → m' = m)
    (hlimit : p.payload.size ≤ x.rxLimit) :
    Ends poll x (.ok (some ⟨p.transaction, p.payload⟩)) ⟨{ x.host with memory := m' },
      { x.owner with
        next := x.owner.next.toggle .rx
        rxBuffer := (x.owner.rxBuffer.patch 0 (line.inline.slice 0 p.payload.size)).patch
          inlineSize rest }⟩ := by
  have hnone (h : ¬inlineSize < p.payload.size) : rest = ByteArray.empty := by
    refine ByteArray.size_eq_zero_iff.1 ?_
    rw [hp.overflow]
    omega
  have hfill := ends_fill
    (x := ⟨{ x.host with memory := m }, { x.owner with next := x.owner.next.toggle .rx }⟩)
    (t := p.transaction) hrest (fun h => ⟨hnone h, hsame h⟩)
    (hp.fill (Nat.le_trans hlimit (Nat.min_le_left ..)))
  have hheader := hp.header
  refine .bind (.get x) (.bind hline (.bind (.modify _ _) ?_))
  dsimp only at hheader ⊢
  rw [hheader, if_pos rfl, if_neg (Nat.not_lt.2 hlimit)]
  exact hfill

end Poll

theorem encodeStaged_eq_ok {f : Format} {d : Descriptor} {line : Line} :
    encodeStaged f d = .ok line ↔ sendable d.transaction = .ok () ∧
      f.encode d.transaction d.payload.size (d.payload.slice 0 inlineSize) = .ok line := by
  unfold encodeStaged
  cases sendable d.transaction with
  | error e => simp
  | ok => simp

/-- What a call that did not break off comes to does not depend on the transmit buffer. -/
theorem transmitWith_of_staged {σ : Type} {p : SpinPolicy σ} {s t : σ} {d : Descriptor}
    {r : Except ExchangeError Unit} {y : Exchange M}
    (h : x.transmitStaged p s d = (r.mapError .refused, t, y)) :
    x.transmitWith p s d = (r.mapError .refused, t,
      { y with owner := { y.owner with txBuffer := some ByteArray.empty } }) := by
  unfold transmitWith
  rw [h]
  cases r <;> rfl

/-- A transmit writes the overflow bytes and then the line. `ofBytes` is the memory as its bytes
change; it is written as they are. -/
theorem ends_writeStaged (ofBytes : Bytes → M) {b : Bytes} (hmem : x.host.memory = ofBytes b)
    (hwrite : ∀ (b : Bytes) (offset : Nat) (data : Bytes), offset + data.size ≤ b.size →
      Ends (Memory.write offset data) (ofBytes b) (.ok ()) (ofBytes (b.patch offset data)))
    (hparts : ∀ p : Part, x.host.config.layout.partAt x.owner.core p +
      p.len x.host.config.layout ≤ b.size)
    {d : Descriptor} (line : Line) (hfits : d.payload.size ≤ x.host.config.layout.payloadCapacity) :
    Ends (writeStaged d line) x (.ok ())
      ⟨{ x.host with
          memory := ofBytes (x.host.config.layout.withLine x.owner.core .tx x.owner.next.tx line
            (d.payload.slice inlineSize (d.payload.size - inlineSize)) b) },
        x.owner⟩ := by
  have hrest := Layout.size_rest_le x.host.ordered hfits
  let after (b : Bytes) : Exchange M := ⟨{ x.host with memory := ofBytes b }, x.owner⟩
  have hx : x = after b := by
    show x = ⟨{ x.host with memory := ofBytes b }, x.owner⟩
    rw [← hmem]
  have control (b' : Bytes) (hb' : b'.size = b.size) :
      Ends (onMemory (Memory.write
          (x.host.config.layout.controlAt x.owner.core .tx x.owner.next.tx) line.bytes))
        (after b') (.ok ())
        (after (b'.patch (x.host.config.layout.controlAt x.owner.core .tx x.owner.next.tx)
          line.bytes)) := by
    refine ends_onMemory (x := after b') (hwrite b' _ _ ?_)
    rw [hb', line.size_bytes]
    exact hparts (.control .tx x.owner.next.tx)
  refine .bind (.get x) ?_
  dsimp only
  by_cases hmore : inlineSize < d.payload.size
  · have first := ends_onMemory (x := after b) (hwrite b
      (x.host.config.layout.overflowAt x.owner.core .tx)
      (d.payload.slice inlineSize (d.payload.size - inlineSize))
      (Nat.le_trans (Nat.add_le_add_left hrest _) (hparts (.overflow .tx))))
    rw [← hx] at first
    rw [if_pos hmore]
    exact first.bind (control _ (Bytes.size_patch b _ _))
  · have hnone : d.payload.slice inlineSize (d.payload.size - inlineSize) = ByteArray.empty := by
      refine ByteArray.size_eq_zero_iff.1 ?_
      rw [Bytes.size_slice]
      omega
    rw [if_neg hmore, Layout.withLine, hnone, Bytes.patch_empty]
    have last := control b rfl
    rw [← hx] at last
    exact last

theorem ends_ringDoorbell {m : M}
    (h : Ends (Memory.touch (x.host.config.layout.controlAt x.owner.core .tx !x.owner.next.tx))
      x.host.memory (.ok ()) m) :
    Ends ringDoorbell x (.ok ())
      ⟨{ x.host with memory := m }, { x.owner with next := x.owner.next.toggle .tx }⟩ :=
  .bind (.modify _ x) (.bind (.get _)
    (ends_onMemory (x := ⟨x.host, { x.owner with next := x.owner.next.toggle .tx }⟩) h))

theorem entering_eq {α σ : Type} {p : SpinPolicy σ} {s t : σ} {rest : Step M α}
    {r : Except Stop α} {y z : Exchange M} (henter : x.enter p s = (.ok (), t, y))
    (hrest : Ends rest y r z) : x.entering p s rest = (r, t, z) := by
  rw [entering, henter]
  exact congrArg (fun q : Except Stop α × Exchange M => (q.1, t, q.2)) hrest

end Exchange
end LineExchange
