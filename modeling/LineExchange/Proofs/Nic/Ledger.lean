import LineExchange.Proofs.Exchange.Served
import LineExchange.Proofs.Nic.History
import LineExchange.Proofs.Exchange.Payload

/-!
# LineExchange.Proofs.Nic.Ledger

Where the packets go that a device has queued. A device holds a stock for a core (`Nic.Holds`), and
a call by the owner of the core changes it as the results of its receives tell (`Dealt`): what they
took is gone from the front of the queue, what the call sent in loopback stands behind.

* `Nic.Holds.read_control`, `Nic.Holds.touch`: what the accesses do to the stock that meet the
  device. `Nic.Holds.inject`: what is injected stands behind.
* `Exchange.Fronted.receiveWith`, `transmitWith`: a receive deals out at most the head of the queue,
  a transmit nothing.
* `Call.left`: so for every call, also a bring-up, by induction on its receives.
-/

namespace LineExchange

variable {c : Config} {core : Nat} {raw : RawTransaction}

/-- A slice ends with the bytes. -/
theorem Bytes.slice_min {b : Bytes} {cap : Nat} (h : b.size ≤ cap) (n : Nat) :
    b.slice 0 (min n cap) = b.slice 0 n := by
  refine Bytes.ext_byteAt ?_ fun i hi => ?_
  · simp only [Bytes.size_slice]
    omega
  · rw [Bytes.size_slice] at hi
    rw [Bytes.byteAt_slice, Bytes.byteAt_slice, if_pos (by omega), if_pos (by omega)]

namespace Stock

/-- The packets that are queued. -/
def packets (c : Config) (s : Stock) : List Packet := s.queue.map (·.packet c)

end Stock

/-- A receive has told of a packet: it was received, or it was too large. -/
def Exchange.told (r : Except Stop (Option Received)) : Bool := gotSome r || gotTooMuch r

/-- What a receive tells of a packet that it took. -/
inductive Reported (c : Config) (p : Packet) : Except Stop (Option Received) → Prop where
  | received : Reported c p (.ok (some ⟨p.transaction, p.payload⟩))
  | tooLarge {len limit : Nat} : limit < len →
    p.payload.size = min len c.layout.payloadCapacity →
    Reported c p (.error (.refused (.overflowExceeded len limit)))

/-- Receives that come to `rs` have told of packets in the order in which these stood in `q` and,
behind it, in `put`. Those that they have not told of are in `q'`. -/
def Settles (c : Config) (rs : List (Except Stop (Option Received))) (q put q' : List Packet) :
    Prop :=
  ∃ gone, q ++ put = gone ++ q' ∧ List.Forall₂ (Reported c) gone (rs.filter Exchange.told)

section Settles

variable {rs rs' : List (Except Stop (Option Received))} {q q' q'' put put' : List Packet}

theorem Settles.refl (q : List Packet) (h : rs.filter Exchange.told = []) :
    Settles c rs q [] q :=
  ⟨[], List.append_nil q, h ▸ .nil⟩

theorem Settles.trans (h : Settles c rs q put q') (h' : Settles c rs' q' put' q'') :
    Settles c (rs ++ rs') q (put ++ put') q'' := by
  obtain ⟨gone, hq, htold⟩ := h
  obtain ⟨gone', hq', htold'⟩ := h'
  refine ⟨gone ++ gone', ?_, ?_⟩
  · rw [← List.append_assoc, hq, List.append_assoc, hq', List.append_assoc]
  · rw [List.filter_append]
    exact List.rel_append htold htold'

/-- No packet is lost and none is told of twice. -/
theorem Settles.length_eq (h : Settles c rs q put q') :
    q.length + put.length = rs.countP Exchange.told + q'.length := by
  obtain ⟨gone, hq, htold⟩ := h
  rw [List.countP_eq_length_filter, ← htold.length_eq, ← List.length_append, hq, List.length_append]

/-- What was received was the first packet. -/
theorem Settles.of_received {r : Received} (h : Settles c [.ok (some r)] q put q') :
    q ++ put = ⟨r.transaction, r.payload⟩ :: q' := by
  obtain ⟨gone, hq, htold⟩ := h
  obtain ⟨p, rest, hp, hrest, rfl⟩ := List.forall₂_cons_right_iff.1 htold
  cases hrest
  cases hp
  exact hq

end Settles

/-- What becomes of a stock when receives come to `rs`: the queue settles as they tell, and packets
were sent, which in loopback were put behind. -/
structure Dealt (c : Config) (rs : List (Except Stop (Option Received))) (s s' : Stock) : Prop where
  loopback : s'.loopback = s.loopback
  settles : ∃ sent : List Packet, s'.sent = s.sent ++ sent ∧
    Settles c rs (s.packets c) (if s.loopback then sent else []) (s'.packets c)

namespace Dealt

variable {s s' s'' : Stock} {rs rs' : List (Except Stop (Option Received))}

/-- Nothing was told, nothing was sent. -/
theorem refl (s : Stock) (h : rs.filter Exchange.told = []) : Dealt c rs s s := by
  refine ⟨rfl, [], (List.append_nil _).symm, ?_⟩
  rw [ite_self]
  exact .refl _ h

theorem trans (h : Dealt c rs s s') (h' : Dealt c rs' s' s'') : Dealt c (rs ++ rs') s s'' := by
  obtain ⟨hloop, sent, hsent, hsettles⟩ := h
  obtain ⟨hloop', sent', hsent', hsettles'⟩ := h'
  refine ⟨hloop'.trans hloop, sent ++ sent', ?_, ?_⟩
  · rw [hsent', hsent, List.append_assoc]
  · rw [hloop] at hsettles'
    have hput : (if s.loopback then sent ++ sent' else []) =
        (if s.loopback then sent else []) ++ if s.loopback then sent' else [] := by
      split <;> rfl
    rw [hput]
    exact hsettles.trans hsettles'

/-- The head of the queue is gone, and a receive told of it. -/
theorem pop {rest : List RawTransaction} {r : Except Stop (Option Received)}
    (hq : s.queue = raw :: rest) (hr : Reported c (raw.packet c) r) : Dealt c [r] s s.pop := by
  have htold : Exchange.told r = true := by cases hr <;> rfl
  refine ⟨rfl, [], (List.append_nil _).symm, [raw.packet c], ?_, ?_⟩
  · rw [ite_self, List.append_nil, Stock.packets, Stock.packets, Stock.pop, hq]
    rfl
  · rw [List.filter_cons_of_pos htold]
    exact .cons hr .nil

/-- Nothing was queued, and a receive found nothing. -/
theorem none (hq : s.queue = []) : Dealt c [.ok .none] s s.pop := by
  have hpop : s.pop = s := by
    obtain ⟨queue, sent, loopback⟩ := s
    cases hq
    rfl
  rw [hpop]
  exact .refl s rfl

/-- The host has sent what a raw transaction carries. -/
theorem take (raw : RawTransaction) (s : Stock) : Dealt c [] s (s.take raw (raw.packet c)) := by
  refine ⟨rfl, [raw.packet c], rfl, [], ?_, .nil⟩
  rw [Stock.packets, Stock.packets, Stock.take]
  cases s.loopback with
  | false => exact List.append_nil _
  | true =>
    simp only [if_true, List.map_append]
    rfl

end Dealt

/-! ## The device -/

namespace RawTransaction

/-- A whole transaction that is too large has as much payload as the layout has room for. -/
theorem Whole.size_packet_min (h : raw.Whole c) (hl : c.layout.Ordered) :
    (raw.packet c).payload.size = min (raw.announced c) c.layout.payloadCapacity := by
  have hover := h.overflow
  have hinline := raw.control.size_inline
  have hcap := c.layout.payloadCapacity_eq hl
  rw [packet, ByteArray.size_append, Bytes.size_slice]
  unfold announced
  omega

/-- What is injected carries the transaction in wire form. -/
theorem packet_of_rawOf (ha : c.format.Accepted) {t : Transaction} {payload : Bytes}
    (h : Nic.rawOf c.layout c.format t payload = .ok raw) :
    raw.packet c = ⟨c.format.wireForm t, payload⟩ := by
  have hwhole := whole_of_rawOf ha h
  unfold Nic.rawOf at h
  split at h
  · cases h
  · next hfits =>
    split at h
    · cases h
    · next line hline =>
      cases h
      have hcarries := Carries.of_encode ha (Nat.not_lt.1 hfits) hline
      refine (hwhole.carries ?_).unique hcarries
      exact (congrArg Header.length hcarries.header).trans_le hcarries.fits

end RawTransaction

namespace Nic

/-- A device for the settings, with room for the window of a core, that holds a stock of whole
transactions for it. -/
structure Holds (c : Config) (core : Nat) (s : Stock) (d : Nic Region) : Prop where
  layout : d.layout = c.layout
  format : d.format = c.format
  fits : ∀ p : Part, c.layout.partAt core p + p.len c.layout ≤ d.memory.size
  stock : d.stockOf core = some s
  whole : ∀ raw ∈ s.queue, raw.Whole c

namespace Holds

variable {s : Stock} {d : Nic Region} {doorbell : Bool}

theorem lt_size (h : Holds c core s d) : core < d.cores.size := lt_of_stockOf h.stock

theorem worker_lt (h : Holds c core s d) : c.layout.workerAt core < d.memory.size :=
  Layout.lt_of_line_le (h.fits .worker)

theorem fits_device (h : Holds c core s d) (p : Part) :
    d.layout.partAt core p + p.len d.layout ≤ d.memory.size := by
  rw [h.layout]
  exact h.fits p

/-- Of the memory only its size matters. -/
theorem withMemory (h : Holds c core s d) {r : Region} (hr : r.size = d.memory.size) :
    Holds c core s { d with memory := r } :=
  ⟨h.layout, h.format, hr.symm ▸ h.fits, h.stock, h.whole⟩

theorem put (h : Holds c core s d) (byte : UInt8) :
    Holds c core s { d with memory := ⟨d.memory.bytes.put (c.layout.workerAt core) byte⟩ } :=
  h.withMemory (Bytes.size_put ..)

theorem changed (h : Holds c core s d) {g : Stock → Stock} {d' : Nic Region}
    (hchanged : Changed core g d d') (hsize : d'.memory.size = d.memory.size)
    (hwhole : ∀ raw ∈ (g s).queue, raw.Whole c) : Holds c core (g s) d' :=
  ⟨hchanged.layout.trans h.layout, hchanged.format.trans h.format, hsize.symm ▸ h.fits,
    hchanged.stock_core h.stock, hwhole⟩

/-- Devices that look the same from the core hold the same for it. -/
theorem alike (h : Holds c core s d) {d' : Nic Region} (ha : d.Alike c.layout core d') :
    Holds c core s d' := by
  refine ⟨ha.layout ▸ h.layout, ha.format ▸ h.format, ?_, ?_, h.whole⟩
  · exact fun p => (h.fits p).trans_eq ha.memory.size
  · rw [stockOf, ← ha.state]
    exact h.stock

variable (hl : c.layout.Ordered)
include hl

/-- A read of an RX control line takes the head of the queue, whose overflow bytes then lie in the
overflow array. -/
theorem read_control (h : Holds c core s d) (parity : Bool) : ∃ d',
    Ends (Memory.read (c.layout.controlAt core .rx parity) lineSize) d
      (.ok (headLine s.queue).bytes) d' ∧
    Holds c core s.pop d' ∧
    d'.memory.bytes.slice (c.layout.overflowAt core .rx) (headOverflow s.queue).size =
      headOverflow s.queue := by
  have hover : (headOverflow s.queue).size ≤ c.layout.overflowSize := by
    have hwhole := h.whole
    cases hq : s.queue with
    | nil => exact Nat.zero_le _
    | cons raw rest => exact (hwhole raw (hq ▸ .head _)).size_overflow_le hl
  obtain ⟨d', hread, hchanged, hmem⟩ := ends_read_control (h.layout.symm ▸ hl) parity h.stock
    h.fits_device (h.layout.symm ▸ hover)
  rw [h.layout] at hread hmem
  have hsame := c.layout.sameBut_withLine hl h.fits .rx parity (headLine s.queue) hover
  rw [← hmem] at hsame
  refine ⟨d', hread, h.changed hchanged hsame.size ?_, ?_⟩
  · exact fun raw hraw => h.whole raw (List.mem_of_mem_tail hraw)
  · exact hmem ▸ c.layout.slice_withLine hl h.fits hover

theorem read_overflow (h : Holds c core s d) {len : Nat} (hlen : len ≤ c.layout.overflowSize) :
    Ends (Memory.read (c.layout.overflowAt core .rx) len) d
      (.ok (d.memory.bytes.slice (c.layout.overflowAt core .rx) len)) d := by
  have hin : d.layout.overflowAt core .rx + len ≤ d.memory.size := by
    rw [h.layout]
    exact (Nat.add_le_add_left hlen _).trans (h.fits (.overflow .rx))
  have hread := ends_read_overflow (h.layout.symm ▸ hl) h.lt_size hin
  rw [h.layout] at hread
  exact hread

/-- A touch of a TX control line takes the transaction in the other one, if there is one. -/
theorem touch (h : Holds c core s d) (doorbell : Bool) : ∃ d' s',
    Ends (Memory.touch (c.layout.controlAt core .tx doorbell)) d (.ok ()) d' ∧
      Holds c core s' d' ∧ Dealt c [] s s' := by
  have hin : d.layout.controlAt core .tx doorbell < d.memory.size :=
    Layout.lt_of_line_le (h.fits_device (.control .tx doorbell))
  have ring {d' : Nic Region} (htx : Ends (consumeTx core doorbell) d (.ok ()) d')
      (hsize : d'.memory.size = d.memory.size) :
      Ends (Memory.touch (c.layout.controlAt core .tx doorbell)) d (.ok ()) d' := by
    have htouch := ends_touch (h.layout.symm ▸ hl) h.lt_size hin htx hsize
    rwa [h.layout] at htouch
  cases hvalid : d.format.isValid (d.rungLine core doorbell) with
  | false =>
    obtain ⟨d', htx, hchanged, hmem⟩ := ends_consumeTx_idle h.fits_device hvalid
    have hsize : d'.memory.size = d.memory.size := congrArg Region.size hmem
    exact ⟨d', s, ring htx hsize, h.changed hchanged hsize h.whole, .refl s rfl⟩
  | true =>
    obtain ⟨d', htx, hchanged, hmem⟩ := ends_consumeTx_valid h.fits_device (h.layout.symm ▸ hl) rfl
      hvalid rfl rfl
    rw [h.format, h.layout] at hchanged
    rw [h.format] at hvalid
    generalize d.rungLine core doorbell = line at hchanged hvalid
    have hsize : d'.memory.size = d.memory.size :=
      (congrArg ByteArray.size hmem).trans (Bytes.size_patch ..)
    generalize hrest : d.memory.bytes.slice _ _ = overflow at hchanged
    have hwhole : RawTransaction.Whole c ⟨line, overflow⟩ := by
      refine ⟨hvalid, ?_⟩
      have hfit := h.fits (.overflow .tx)
      have hcap := c.layout.payloadCapacity_eq hl
      have hbytes : d.memory.bytes.size = d.memory.size := rfl
      rw [c.layout.partAt_overflow, Part.len] at hfit
      rw [← hrest, Bytes.size_slice]
      dsimp only
      omega
    -- the line has no more bytes than the layout has room for
    have hpacket : (⟨(c.format.decode line).transaction, line.inline.slice 0
        (min (c.format.decode line).length c.layout.payloadCapacity) ++ overflow⟩ : Packet) =
        RawTransaction.packet c ⟨line, overflow⟩ := by
      have hinline : line.inline.size ≤ c.layout.payloadCapacity := by
        rw [line.size_inline, c.layout.payloadCapacity_eq hl]
        omega
      rw [Bytes.slice_min hinline]
      rfl
    rw [hpacket] at hchanged
    refine ⟨d', _, ring htx hsize, h.changed hchanged hsize ?_, .take _ s⟩
    intro raw hraw
    dsimp only [Stock.take] at hraw
    split at hraw
    · rcases List.mem_append.1 hraw with hraw | hraw
      · exact h.whole raw hraw
      · exact List.mem_singleton.1 hraw ▸ hwhole
    · exact h.whole raw hraw

end Holds

/-! ## What the device is asked for -/

section Asked

variable {s : Stock}

theorem Holds.restock {f : NicCore → NicCore} (g : Stock → Stock)
    (hf : ∀ k, (f k).stock = g k.stock)
    (hg : (∀ raw ∈ s.queue, raw.Whole c) → ∀ raw ∈ (g s).queue, raw.Whole c) :
    Meets (Holds c core s) (modifyCore core f) (fun _ => Holds c core (g s)) Never :=
  .modify fun d h => h.changed (.of_modify hf d.memory) rfl (hg h.whole)

theorem Holds.coreState :
    Meets (Holds c core s) (coreState core) (fun _ => Holds c core s) Never := by
  refine .of_ends fun d h => ?_
  obtain ⟨k, hk, -⟩ := exists_core h.stock
  exact ⟨_, d, ends_coreState hk, h⟩

theorem Holds.setReady (v : Bool) :
    Meets (Holds c core s) (setReady core v) (fun _ => Holds c core s) Never := by
  refine .of_ends fun d h => ?_
  have hin : d.layout.workerAt core < d.memory.size := by
    rw [h.layout]
    exact h.worker_lt
  exact ⟨_, _, .bind (.get d) (.bind (ends_onMemory (Region.ends_loadControl hin))
    (ends_onMemory (Region.ends_storeControl _ hin))), h.withMemory (Bytes.size_put ..)⟩

/-- What was injected stands behind the others. -/
theorem Holds.inject (ha : c.format.Accepted) (t : Transaction) (payload : Bytes) :
    Meets (Holds c core s) (inject core t payload)
      (fun r d => ∃ s', Holds c core s' d ∧ s'.packets c = s.packets c ++
        if r.isOk then [⟨c.format.wireForm t, payload⟩] else []) Never := by
  refine .get_bind fun d h => ?_
  rw [h.layout, h.format]
  cases hraw : rawOf c.layout c.format t payload with
  | error e => exact .pure fun d h => ⟨s, h, (List.append_nil _).symm⟩
  | ok raw =>
    have hwhole := RawTransaction.whole_of_rawOf ha hraw
    have push : Meets (Holds c core s) (injectRaw core raw)
        (fun _ => Holds c core { s with queue := s.queue ++ [raw] }) Never :=
      Holds.coreState.bind fun _ => Holds.restock (fun s => { s with queue := s.queue ++ [raw] })
        (fun _ => rfl) fun hs raw' hraw' => (List.mem_append.1 hraw').elim (hs raw') fun hnew =>
          List.mem_singleton.1 hnew ▸ hwhole
    refine push.bind fun _ => .pure fun d h => ⟨_, h, ?_⟩
    rw [Stock.packets, List.map_append, ← RawTransaction.packet_of_rawOf ha hraw]
    rfl

theorem Holds.setLoopback (v : Bool) : Meets (Holds c core s) (setLoopback core v)
    (fun _ d => ∃ s', Holds c core s' d ∧ s'.packets c = s.packets c) Never :=
  Holds.coreState.bind fun _ => (Holds.restock (fun s => { s with loopback := v }) (fun _ => rfl)
    fun hs => hs).conseq (fun _ h => h) (fun _ _ h => ⟨_, h, rfl⟩) fun _ _ h => h

theorem Holds.takeSent : Meets (Holds c core s) (takeSent core)
    (fun _ d => ∃ s', Holds c core s' d ∧ s'.packets c = s.packets c) Never :=
  Holds.coreState.bind fun _ => (Holds.restock (f := fun k => { k with sent := [] })
    (fun s => { s with sent := [] }) (fun _ => rfl) fun hs => hs).bind fun _ =>
      .pure fun _ h => ⟨_, h, rfl⟩

end Asked
end Nic

/-! ## The owner of the core -/

namespace Host

variable {s : Stock} {h : Host Backing}

theorem On.holds_worker_lt (hh : h.On c (Nic.Holds c core s)) :
    h.workerAt core < Memory.size h.memory := by
  obtain ⟨d, hmem, hd⟩ := hh.device
  rw [workerAt, hh.config, hmem]
  exact hd.worker_lt

/-- Storing a control byte changes nothing of the stock. -/
theorem On.holds_withGate (hh : h.On c (Nic.Holds c core s)) (g : Gate) :
    (h.withGate core g).On c (Nic.Holds c core s) := by
  obtain ⟨d, hmem, hd⟩ := hh.device
  have hstore : Ends (Memory.storeControl (c.layout.workerAt core) g.byte) (Backing.device d)
      (.ok ()) _ :=
    Backing.ends_access_device (Nic.ends_onMemory (Region.ends_storeControl g.byte hd.worker_lt))
  rw [← hmem] at hstore
  refine ⟨hh.config, _, ?_, hd.put g.byte⟩
  show Memory.stored (h.workerAt core) g.byte h.memory = _
  rw [workerAt, hh.config]
  exact congrArg Prod.snd hstore

theorem holds_onGate {α : Type} {E : Fault → Host Backing → Prop} (f : Gate → α × Gate) :
    Meets (On c (Nic.Holds c core s)) (onGate core f) (fun _ => On c (Nic.Holds c core s)) E :=
  .of_ends fun _ hh => ⟨_, _, ends_onGate f hh.holds_worker_lt, hh.holds_withGate _⟩

end Host

namespace Exchange

variable {s : Stock} {σ : Type}

/-- The owner of a core in front of a device that holds a stock for it. -/
structure Fronted (c : Config) (core : Nat) (s : Stock) (x : Exchange Backing) : Prop where
  host : x.host.On c (Nic.Holds c core s)
  core : x.owner.core = core

/-- An owner in front of what a stock has become. -/
def Left (c : Config) (core : Nat) (s : Stock) (rs : List (Except Stop (Option Received)))
    (x : Exchange Backing) : Prop := ∃ s', Fronted c core s' x ∧ Dealt c rs s s'

theorem Fronted.left {x : Exchange Backing} (h : Fronted c core s x)
    {rs : List (Except Stop (Option Received))} (hrs : rs.filter told = []) :
    Left c core s rs x := ⟨s, h, .refl s hrs⟩

theorem gated_fronted : Gated (Fronted c core s) := by
  constructor
  · intro x hx
    rw [hx.core]
    exact hx.host.holds_worker_lt
  · intro x hx g
    refine ⟨?_, hx.core⟩
    rw [hx.core]
    exact hx.host.holds_withGate g

theorem gated_left {rs : List (Except Stop (Option Received))} : Gated (Left c core s rs) := by
  constructor
  · rintro x ⟨s', hx, -⟩
    exact gated_fronted.inside hx
  · rintro x ⟨s', hx, hdealt⟩ g
    exact ⟨s', gated_fronted.store hx g, hdealt⟩

/-! ## Receives -/

namespace Fronted

/-- A poll deals out the head of the queue. -/
theorem poll {x : Exchange Backing} (h : Fronted c core s x) : ∃ r y, Ends Exchange.poll x r y ∧
    Dealt c [r] s s.pop ∧ Fronted c core s.pop y := by
  obtain ⟨⟨rfl, d, hmem, hd⟩, rfl⟩ := h
  obtain ⟨d', hread, hd', hslice⟩ := hd.read_control x.host.ordered x.owner.next.rx
  have hread' : Ends (Memory.read (x.host.config.layout.controlAt x.owner.core .rx x.owner.next.rx)
      lineSize) (Backing.device d) (.ok (Nic.headLine s.queue).bytes) (.device d') :=
    Backing.ends_access_device hread
  rw [← hmem] at hread'
  have hline := (ends_onMemory hread').map (g := Line.ofBytes)
  rw [Line.ofBytes_bytes] at hline
  have front (o : Owner) (ho : o.core = x.owner.core) : Fronted x.host.config x.owner.core s.pop
      ⟨{ x.host with memory := .device d' }, o⟩ := ⟨⟨rfl, d', rfl, hd'⟩, ho⟩
  cases hq : s.queue with
  | nil =>
    rw [hq] at hline
    -- the device has put a line of zeros there
    exact ⟨_, _, ends_poll_none hline (Format.isValid_zero _), .none hq, front _ rfl⟩
  | cons raw rest =>
    rw [hq] at hline hslice
    have hwhole := hd.whole raw (hq ▸ .head _)
    rcases Nat.lt_or_ge x.rxLimit (raw.announced x.host.config) with hmore | hle
    · exact ⟨_, _, ends_poll_refused hline hwhole.valid hmore,
        .pop hq (.tooLarge hmore (hwhole.size_packet_min x.host.ordered)), front _ rfl⟩
    · have hfits := hle.trans (Nat.min_le_right ..)
      have hcarries := hwhole.carries hfits
      -- the overflow bytes lie where the device put them with the line
      have hslice : d'.memory.bytes.slice (x.host.config.layout.overflowAt x.owner.core .rx)
          raw.overflow.size = raw.overflow := hslice
      have hrest := hd'.read_overflow x.host.ordered (hcarries.size_overflow_le x.host.ordered)
      rw [hslice, hcarries.overflow] at hrest
      exact ⟨_, _, ends_poll_received hline hcarries
        (fun _ => Backing.ends_access_device hrest) (fun _ => rfl)
        ((hwhole.size_packet hfits).trans_le hle), .pop hq .received, front _ rfl⟩

theorem modify {x y : Exchange Backing} (h : Fronted c core s x) (hhost : y.host = x.host)
    (hcore : y.owner.core = x.owner.core) : Fronted c core s y :=
  ⟨hhost ▸ h.host, hcore.trans h.core⟩

end Fronted

theorem Left.modify {rs : List (Except Stop (Option Received))} {x y : Exchange Backing}
    (h : Left c core s rs x) (hhost : y.host = x.host) (hcore : y.owner.core = x.owner.core) :
    Left c core s rs y := by
  obtain ⟨s', hx, hdealt⟩ := h
  exact ⟨s', hx.modify hhost hcore, hdealt⟩

theorem brings_receiveEntered : Brings (fun r => Dealt c [r] s s.pop) (Fronted c core s)
    (Fronted c core s.pop) (receiveEntered : Step Backing (Option Received)) := by
  have hpoll : Brings (fun r => Dealt c [r] s s.pop) (Fronted c core s) (Fronted c core s.pop)
      (poll : Step Backing (Option Received)) := .of_ends fun _ hx => hx.poll
  refine Meets.bind (gated_fronted.guarded hpoll) fun r => ?_
  cases r with
  | none => exact .pure fun _ h => h
  | some r =>
    exact .bind (.modify fun _ h => ⟨h.1, h.2.modify rfl rfl⟩) fun _ => .pure fun _ h => h

theorem told_outside {e : Stop} (h : e.Outside) : [.error e].filter told = [] := by
  cases h <;> rfl

/-- A receive deals out at most the head of the queue. -/
theorem Fronted.receiveWith {x : Exchange Backing} (h : Fronted c core s x) (p : SpinPolicy σ)
    (t : σ) :
    let y := x.receiveWith p t
    Left c core s [y.1] y.2.2 := by
  unfold Exchange.receiveWith
  split
  · next e he => exact h.left (told_outside (.of_coreError? he))
  · rcases gated_fronted.entering brings_receiveEntered h p t with
      ⟨e, hr, hout, hy⟩ | ⟨hdealt, hy⟩
    · dsimp only
      rw [hr]
      exact hy.left (told_outside hout)
    · exact ⟨_, hy, hdealt⟩

/-! ## Transmits -/

section Transmit

variable {E : Stop → Exchange Backing → Prop} (hl : c.layout.Ordered)

theorem meets_fronted_write (p : Part) {data : Bytes} (hdata : data.size ≤ p.len c.layout) :
    Meets (Fronted c core s)
      (onMemory (Memory.write (c.layout.partAt core p) data) : Step Backing Unit)
      (fun _ => Fronted c core s) E := by
  refine .of_ends fun x hx => ?_
  obtain ⟨d, hmem, hd⟩ := hx.host.device
  have hin : c.layout.partAt core p + data.size ≤ d.memory.size :=
    (Nat.add_le_add_left hdata _).trans (hd.fits p)
  have hwrite : Ends (Memory.write (c.layout.partAt core p) data) (Backing.device d) (.ok ()) _ :=
    Backing.ends_access_device (Nic.ends_write hin)
  rw [← hmem] at hwrite
  exact ⟨_, _, ends_onMemory hwrite, ⟨hx.host.config, _, rfl, hd.withMemory (Bytes.size_patch ..)⟩,
    hx.core⟩

include hl

theorem meets_fronted_writeStaged {d : Descriptor} (line : Line)
    (hd : d.payload.size ≤ c.layout.payloadCapacity) :
    Meets (Fronted c core s) (writeStaged d line : Step Backing Unit) (fun _ => Fronted c core s)
      E := by
  refine .get_bind fun x hx => ?_
  rw [hx.host.config, hx.core]
  have control : Meets (Fronted c core s) (onMemory (Memory.write
      (c.layout.controlAt core .tx x.owner.next.tx) line.bytes) : Step Backing Unit)
      (fun _ => Fronted c core s) E :=
    meets_fronted_write (.control .tx _) line.size_bytes.le
  have hsize : (d.payload.slice inlineSize (d.payload.size - inlineSize)).size ≤
      c.layout.overflowSize := by
    rw [c.layout.payloadCapacity_eq hl] at hd
    rw [Bytes.size_slice]
    omega
  dsimp only
  split
  · exact (meets_fronted_write (.overflow .tx) hsize).bind fun _ => control
  · exact control

theorem meets_fronted_ringDoorbell : Meets (Fronted c core s) (ringDoorbell : Step Backing Unit)
    (fun _ => Left c core s []) E := by
  refine .bind (Q := fun _ => Fronted c core s) (.modify fun _ h => h.modify rfl rfl) fun _ => ?_
  refine .get_bind fun x hx => .of_ends fun y hy => ?_
  rw [hx.host.config, hx.core]
  obtain ⟨d, hmem, hd⟩ := hy.host.device
  obtain ⟨d', s', htouch, hd', hdealt⟩ := hd.touch hl x.owner.next.tx
  have htouch' : Ends (Memory.touch (c.layout.controlAt core .tx x.owner.next.tx))
      (Backing.device d) (.ok ()) (.device d') := Backing.ends_access_device htouch
  rw [← hmem] at htouch'
  exact ⟨_, _, ends_onMemory htouch', s', ⟨⟨hy.host.config, d', rfl, hd'⟩, hy.core⟩, hdealt⟩

theorem brings_transmitEntered {d : Descriptor}
    (hd : d.payload.size ≤ c.layout.payloadCapacity) :
    Brings (fun _ => True) (Fronted c core s) (Left c core s [])
      (transmitEntered d : Step Backing Unit) := by
  have ring {r : Except EncodeError Unit} : Brings (fun _ => True) (Fronted c core s)
      (Left c core s [])
      (ringDoorbell >>= fun _ => pure r : Step Backing (Except EncodeError Unit)) :=
    (meets_fronted_ringDoorbell hl).bind fun _ => .pure fun _ h => ⟨trivial, h⟩
  have send : Brings (fun _ => True) (Fronted c core s) (Left c core s [])
      (send d : Step Backing (Except EncodeError Unit)) := by
    refine .get_bind fun x _ => ?_
    split
    · exact .bind (meets_fronted_writeStaged hl _ hd) fun _ => ring
    · exact ring
  refine Meets.bind (gated_left.guarded send) fun r => ?_
  cases r with
  | ok v => exact .modify fun _ h => ⟨trivial, h.2.modify rfl rfl⟩
  | error e =>
    exact .bind (Q := fun _ => Left c core s []) (.modify fun _ h => h.2.modify rfl rfl) fun _ =>
      .throw fun _ h => ⟨trivial, h⟩

end Transmit

theorem Fronted.transmitStaged {x : Exchange Backing} (h : Fronted c core s x) (p : SpinPolicy σ)
    (t : σ) (d : Descriptor) : Left c core s [] (x.transmitStaged p t d).2.2 := by
  unfold Exchange.transmitStaged
  split
  · exact h.left rfl
  · dsimp only
    split
    · exact (h.left rfl).modify rfl rfl
    · next hfits =>
      rw [h.host.config] at hfits
      have hl : c.layout.Ordered := h.host.config ▸ x.host.ordered
      rcases gated_fronted.entering (brings_transmitEntered hl (Nat.not_lt.1 hfits)) h p t with
        ⟨-, -, -, hy⟩ | ⟨-, hy⟩
      · exact hy.left rfl
      · exact hy

/-- A transmit deals out nothing. -/
theorem Fronted.transmitWith {x : Exchange Backing} (h : Fronted c core s x) (p : SpinPolicy σ)
    (t : σ) (d : Descriptor) : Left c core s [] (x.transmitWith p t d).2.2 := by
  have staged := h.transmitStaged p t d
  unfold Exchange.transmitWith
  generalize x.transmitStaged p t d = q at staged ⊢
  obtain ⟨r, t', y⟩ := q
  rcases r with (_ | _ | _) | _
  · exact staged.modify rfl rfl
  · exact staged
  · exact staged.modify rfl rfl
  · exact staged.modify rfl rfl

/-! ## Bringing up -/

/-- A drain deals out the queue as its receives tell. -/
theorem Drains.left {p : SpinPolicy Unit} {fuel drained : Nat} {x y : Exchange Backing}
    {rs : List (Except Stop (Option Received))} {r : Except Stop Nat}
    (h : Drains p fuel drained x rs r y) (hx : Fronted c core s x) : Left c core s rs y := by
  have one {s : Stock} {x y : Exchange Backing} {r : Except Stop (Option Received)}
      (hx : Fronted c core s x) (h : Ends (receive p) x r y) : Left c core s [r] y := by
    obtain ⟨rfl, rfl⟩ := ends_receive h
    exact hx.receiveWith p ()
  induction h generalizing s with
  | out drained x => exact hx.left rfl
  | failed h => exact one hx h
  | empty h => exact one hx h
  | received h _ ih =>
    obtain ⟨s', hy, hdealt⟩ := one hx h
    obtain ⟨s'', hz, hdealt'⟩ := ih hy
    exact ⟨s'', hz, hdealt.trans hdealt'⟩

theorem BringsUp.left {p : SpinPolicy Unit} {fuel : Nat} {x y : Exchange Backing}
    {rs : List (Except Stop (Option Received))} {r : Except Stop Nat}
    (h : BringsUp p fuel x rs r y) (hx : Fronted c core s x) : Left c core s rs y := by
  cases h with
  | unmapped => exact hx.left rfl
  | failed h => cases (ends_invalidateLines_backing h).1
  | drained h hdrain =>
    obtain ⟨-, rfl⟩ := ends_invalidateLines_backing h
    exact hdrain.left hx

end Exchange

/-- **A call deals out what its receives tell of**, and what it sends in loopback is queued. -/
theorem Call.left {s : Stock} {x : Exchange Backing} (h : Exchange.Fronted c core s x)
    (call : Call) : Exchange.Left c core s (call.receives x) (call.make x).2 := by
  cases call with
  | receive p t => exact h.receiveWith p t
  | transmit p t d => exact h.transmitWith p t d
  | bringUp p fuel => exact (Exchange.bringsUp p fuel x).left h
  | prepare kind =>
    rw [make_prepare]
    exact (h.left rfl).modify rfl rfl
  | resync next =>
    rw [make_resync]
    obtain ⟨-, hrun⟩ | ⟨e, -, hrun⟩ := Exchange.run_resync next x
    · rw [hrun]
      exact (h.left rfl).modify rfl rfl
    · rw [hrun]
      exact h.left rfl

end LineExchange
