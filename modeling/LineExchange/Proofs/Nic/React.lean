import LineExchange.Proofs.Nic.Locate

/-!
# LineExchange.Proofs.Nic.React

What the device in front of a plain region does when the host reads an RX control line or touches
a TX control line.

* `Nic.Changed core g d d'`: the device did `g` to what it holds for one core (`Stock`); its own
  count of lines and the noted accesses may differ in any way.
* `Nic.ends_read_control`: a read takes the head of the queue and finds its line.
* `Nic.ends_touch`, `Nic.ends_consumeTx_idle`, `Nic.ends_consumeTx_valid`: a touch takes the
  transaction in the other line, if there is one.
-/

namespace LineExchange

/-- What the device holds for one core, apart from what it counts and notes. -/
structure Stock where
  queue : List RawTransaction := []
  sent : List Packet := []
  loopback : Bool := false

def NicCore.stock (c : NicCore) : Stock := ⟨c.queue, c.sent, c.loopback⟩

/-- The head of the queue is gone. -/
def Stock.pop (s : Stock) : Stock := { s with queue := s.queue.tail }

/-- The host has sent a packet; in loopback it is queued as it lay in memory. -/
def Stock.take (raw : RawTransaction) (packet : Packet) (s : Stock) : Stock :=
  { s with
    queue := if s.loopback then s.queue ++ [raw] else s.queue
    sent := s.sent ++ [packet] }

namespace Nic

variable {d d' d'' : Nic Region} {core : Nat}

/-- What the device holds for a core, if it is mapped. -/
def stockOf (d : Nic Region) (core : Nat) : Option Stock := d.cores[core]?.map (·.stock)

/-- The device did `g` to what it holds for one core. -/
structure Changed (core : Nat) (g : Stock → Stock) (d d' : Nic Region) : Prop where
  layout : d'.layout = d.layout
  format : d'.format = d.format
  size : d'.cores.size = d.cores.size
  stock : ∀ other, d'.stockOf other =
    if other = core then (d.stockOf core).map g else d.stockOf other

namespace Changed

variable {g k : Stock → Stock}

theorem trans (h : Changed core g d d') (h' : Changed core k d' d'') :
    Changed core (k ∘ g) d d'' where
  layout := h'.layout.trans h.layout
  format := h'.format.trans h.format
  size := h'.size.trans h.size
  stock other := by
    rw [h'.stock, h.stock, h.stock, if_pos rfl, Option.map_map]
    by_cases ho : other = core
    · rw [if_pos ho, if_pos ho]
    · rw [if_neg ho, if_neg ho, if_neg ho]

/-- Nothing was done to the cores. -/
theorem of_cores_eq (hl : d'.layout = d.layout) (hf : d'.format = d.format)
    (hc : d'.cores = d.cores) : Changed core id d d' where
  layout := hl
  format := hf
  size := by rw [hc]
  stock other := by
    rw [stockOf, hc]
    by_cases ho : other = core
    · rw [if_pos ho, ho, Option.map_id_fun, id, stockOf]
    · rw [if_neg ho, stockOf]

theorem of_modify {f : NicCore → NicCore} (hf : ∀ c, (f c).stock = g c.stock) (m : Region) :
    Changed core g d { d with memory := m, cores := d.cores.modify core f } where
  layout := rfl
  format := rfl
  size := Array.size_modify
  stock other := by
    simp only [stockOf, Array.getElem?_modify]
    by_cases ho : core = other
    · subst ho
      cases d.cores[core]? with
      | none => simp
      | some c => simp [hf]
    · simp [ho, Ne.symm ho]

end Changed

/-! ## What an access does -/

theorem ends_modifyCore (core : Nat) (f : NicCore → NicCore) (d : Nic Region) :
    Ends (modifyCore core f) d (.ok ()) { d with cores := d.cores.modify core f } := .modify _ d

theorem ends_coreState {c : NicCore} (h : d.cores[core]? = some c) :
    Ends (coreState core) d (.ok c) d := by
  refine .bind (.get d) ?_
  rw [h]
  exact .pure c d

theorem ends_noteAccess (dir : Direction) (parity : Bool)
    (hin : d.layout.workerAt core < d.memory.size) :
    ∃ d', Ends (noteAccess core dir parity) d (.ok ()) d' ∧ Changed core id d d' ∧
      d'.memory = d.memory :=
  ⟨_, .bind (.get d) (.bind (ends_onMemory (Region.ends_loadControl hin))
    (ends_modifyCore core _ _)), .of_modify (fun _ => rfl) _, rfl⟩

/-- The line that a read of an RX control line finds. -/
def headLine : List RawTransaction → Line
  | [] => .zero
  | raw :: _ => raw.control

/-- The overflow bytes that come with it. -/
def headOverflow : List RawTransaction → Bytes
  | [] => ByteArray.empty
  | raw :: _ => raw.overflow

theorem exists_core {s : Stock} (hs : d.stockOf core = some s) :
    ∃ c, d.cores[core]? = some c ∧ c.stock = s := Option.map_eq_some_iff.1 hs

theorem Changed.stock_core {g : Stock → Stock} {s : Stock} (h : Changed core g d d')
    (hs : d.stockOf core = some s) : d'.stockOf core = some (g s) := by
  rw [h.stock, if_pos rfl, hs, Option.map_some]

theorem ends_write {offset : Nat} {data : Bytes} (h : offset + data.size ≤ d.memory.size) :
    Ends (onMemory (Memory.write offset data)) d (.ok ())
      { d with memory := ⟨d.memory.bytes.patch offset data⟩ } :=
  ends_onMemory (Region.ends_write h)

section Read

variable {s : Stock}

theorem ends_serveRx (parity : Bool) (hs : d.stockOf core = some s)
    (hfits : ∀ p : Part, d.layout.partAt core p + p.len d.layout ≤ d.memory.size)
    (hover : (headOverflow s.queue).size ≤ d.layout.overflowSize) :
    ∃ d', Ends (serveRx core parity) d (.ok ()) d' ∧
      Changed core Stock.pop d d' ∧
      d'.memory.bytes = d.layout.withLine core .rx parity (headLine s.queue)
        (headOverflow s.queue) d.memory.bytes := by
  have hworker : d.layout.workerAt core < d.memory.size := Layout.lt_of_line_le (hfits .worker)
  obtain ⟨d₁, hnote, hchanged, hmem⟩ := ends_noteAccess .rx parity hworker
  obtain ⟨c, hget, rfl⟩ := exists_core (hchanged.stock_core hs)
  rw [← hchanged.layout, ← hmem] at hfits
  rw [← hchanged.layout] at hover ⊢
  rw [← hmem]
  let popped (b : Bytes) : Nic Region :=
    { d₁ with
      memory := ⟨b⟩
      cores := d₁.cores.modify core fun c => { c with queue := c.queue.tail } }
  have pop : Ends (modifyCore core fun c => { c with queue := c.queue.tail }) d₁ (.ok ())
      (popped d₁.memory.bytes) := ends_modifyCore core _ d₁
  let done (b : Bytes) : Nic Region :=
    { popped b with
      cores := (popped b).cores.modify core fun c => { c with next := c.next.set .rx !parity } }
  have finish (b : Bytes) (l : Line) (hb : b.size = d₁.memory.size) :
      Ends (onMemory (Memory.write (d₁.layout.controlAt core .rx parity) l.bytes) >>=
          fun _ => setNext core .rx !parity) (popped b) (.ok ())
        (done (b.patch (d₁.layout.controlAt core .rx parity) l.bytes)) := by
    refine .bind (ends_write (d := popped b) ?_) (ends_modifyCore core _ _)
    show _ + _ ≤ b.size
    rw [l.size_bytes, hb]
    exact hfits (.control .rx parity)
  have changed (b : Bytes) : Changed core Stock.pop d (done b) :=
    hchanged.trans ((Changed.of_modify (d := d₁) (g := Stock.pop)
      (f := fun c => { c with queue := c.queue.tail }) (fun _ => rfl) ⟨b⟩).trans
        (Changed.of_modify (d := popped b) (g := id)
          (f := fun c => { c with next := c.next.set .rx !parity }) (fun _ => rfl) ⟨b⟩))
  refine ⟨done (d₁.layout.withLine core .rx parity (headLine c.queue) (headOverflow c.queue)
    d₁.memory.bytes), ?_, changed _, rfl⟩
  refine hnote.bind (.bind (.get d₁) (.bind (ends_coreState hget) (pop.bind ?_)))
  cases hq : c.queue with
  | nil =>
    rw [headOverflow, headLine, Layout.withLine, Bytes.patch_empty]
    exact finish d₁.memory.bytes .zero rfl
  | cons raw rest =>
    have write := finish (d₁.memory.bytes.patch (d₁.layout.overflowAt core .rx) raw.overflow)
      raw.control (Bytes.size_patch ..)
    rw [NicCore.stock, hq, headOverflow] at hover
    rw [headOverflow, headLine]
    dsimp only
    split
    · refine .bind (ends_write (d := popped d₁.memory.bytes) ?_) write
      exact Nat.le_trans (Nat.add_le_add_left hover _) (hfits (.overflow .rx))
    · next hempty =>
      have hnone : raw.overflow = ByteArray.empty :=
        ByteArray.size_eq_zero_iff.1 (Nat.eq_zero_of_not_pos hempty)
      rw [hnone, Bytes.patch_empty] at write
      rw [hnone, Layout.withLine, Bytes.patch_empty]
      exact write

theorem lt_of_stockOf (hs : d.stockOf core = some s) : core < d.cores.size := by
  obtain ⟨c, hget, -⟩ := exists_core hs
  exact (Array.getElem?_eq_some_iff.1 hget).1

/-- A read of an RX control line takes the head of the queue and finds its line. -/
theorem ends_read_control (h : d.layout.Ordered) (parity : Bool) (hs : d.stockOf core = some s)
    (hfits : ∀ p : Part, d.layout.partAt core p + p.len d.layout ≤ d.memory.size)
    (hover : (headOverflow s.queue).size ≤ d.layout.overflowSize) :
    ∃ d', Ends (Memory.read (d.layout.controlAt core .rx parity) lineSize) d
        (.ok (headLine s.queue).bytes) d' ∧
      Changed core Stock.pop d d' ∧
      d'.memory.bytes = d.layout.withLine core .rx parity (headLine s.queue)
        (headOverflow s.queue) d.memory.bytes := by
  obtain ⟨d', hserve, hchanged, hmem⟩ := ends_serveRx parity hs hfits hover
  have hsame := d.layout.sameBut_withLine h hfits .rx parity (headLine s.queue) hover
  have hsize : d'.memory.size = d.memory.size := (congrArg ByteArray.size hmem).trans hsame.size
  have hfound : d'.memory.bytes.slice (d.layout.controlAt core .rx parity) lineSize =
      (headLine s.queue).bytes := hmem ▸ d.layout.view_withLine hfits
  have hin := hsize.symm ▸ hfits (.control .rx parity)
  have hread := ends_onMemory (d := d') (Region.ends_read hin)
  refine ⟨d', .bind (.get d) ?_, hchanged, hmem⟩
  rw [locate_control h (lt_of_stockOf hs)]
  exact hserve.bind (hfound ▸ hread)

theorem ends_read_overflow (h : d.layout.Ordered) (hcore : core < d.cores.size) {len : Nat}
    (hlen : d.layout.overflowAt core .rx + len ≤ d.memory.size) :
    Ends (Memory.read (d.layout.overflowAt core .rx) len) d
      (.ok (d.memory.bytes.slice (d.layout.overflowAt core .rx) len)) d := by
  refine .bind (.get d) ?_
  have hread := ends_onMemory (d := d) (Region.ends_read hlen)
  split
  · next other parity hat => exact absurd hat (locate_overflow h hcore parity other)
  · exact hread

end Read

section Touch

variable {doorbell : Bool}

/-- The line that the device looks at when a doorbell rings. -/
def rungLine (d : Nic Region) (core : Nat) (doorbell : Bool) : Line :=
  .ofBytes (d.memory.bytes.slice (d.layout.controlAt core .tx !doorbell) lineSize)

/-- What the device does first when a doorbell rings: it notes the access, expects the line of the
doorbell next, and looks at the other one. -/
theorem ends_ring (core : Nat) (doorbell : Bool)
    (hfits : ∀ p : Part, d.layout.partAt core p + p.len d.layout ≤ d.memory.size) :
    ∃ d₁ d₂, Ends (noteAccess core .tx !doorbell) d (.ok ()) d₁ ∧
      Ends (setNext core .tx doorbell) d₁ (.ok ()) d₂ ∧ Changed core id d d₂ ∧
      d₂.memory = d.memory ∧
      Ends (onMemory (Memory.read (d₂.layout.controlAt core .tx !doorbell) lineSize)) d₂
        (.ok (d.memory.bytes.slice (d.layout.controlAt core .tx !doorbell) lineSize)) d₂ := by
  have hworker : d.layout.workerAt core < d.memory.size := Layout.lt_of_line_le (hfits .worker)
  obtain ⟨d₁, hnote, hchanged, hmem⟩ := ends_noteAccess .tx (!doorbell) hworker
  have hnext := ends_modifyCore core (fun c => { c with next := c.next.set .tx doorbell }) d₁
  have hboth : Changed core id d _ := hchanged.trans (Changed.of_modify (g := id)
    (f := fun c => { c with next := c.next.set .tx doorbell }) (fun _ => rfl) d₁.memory)
  refine ⟨d₁, _, hnote, hnext, hboth, hmem, ?_⟩
  rw [← hchanged.layout, ← hmem] at hfits ⊢
  exact ends_onMemory (Region.ends_read (hfits (.control .tx !doorbell)))

theorem ends_touch (h : d.layout.Ordered) (hcore : core < d.cores.size)
    (hin : d.layout.controlAt core .tx doorbell < d.memory.size)
    (htx : Ends (consumeTx core doorbell) d (.ok ()) d') (hsize : d'.memory.size = d.memory.size) :
    Ends (Memory.touch (d.layout.controlAt core .tx doorbell)) d (.ok ()) d' := by
  refine .bind (.get d) ?_
  rw [locate_control h hcore]
  exact htx.bind (ends_onMemory (Region.ends_touch (hsize.symm ▸ hin)))

variable (hfits : ∀ p : Part, d.layout.partAt core p + p.len d.layout ≤ d.memory.size)
include hfits

theorem ends_consumeTx_idle (hidle : d.format.isValid (d.rungLine core doorbell) = false) :
    ∃ d', Ends (consumeTx core doorbell) d (.ok ()) d' ∧ Changed core id d d' ∧
      d'.memory = d.memory := by
  obtain ⟨d₁, d₂, hnote, hnext, hchanged, hmem, hread⟩ := ends_ring core doorbell hfits
  refine ⟨d₂, hnote.bind (hnext.bind (.bind (.get d₂) (hread.bind ?_))), hchanged, hmem⟩
  have hinvalid : ¬(d.format.decode (d.rungLine core doorbell)).valid = true :=
    ne_true_of_eq_false hidle
  dsimp only
  rw [hchanged.format, ← rungLine, if_neg hinvalid]
  exact .pure _ d₂

/-- A doorbell takes the transaction in the other line, with its overflow bytes. -/
theorem ends_consumeTx_valid (h : d.layout.Ordered) {line : Line} {len : Nat} {overflow : Bytes}
    (hline : d.rungLine core doorbell = line) (hvalid : (d.format.decode line).valid = true)
    (hlen : min (d.format.decode line).length d.layout.payloadCapacity = len)
    (hoverflow :
      d.memory.bytes.slice (d.layout.overflowAt core .tx) (len - inlineSize) = overflow) :
    ∃ d', Ends (consumeTx core doorbell) d (.ok ()) d' ∧
      Changed core (.take ⟨line, overflow⟩ ⟨(d.format.decode line).transaction,
        line.inline.slice 0 len ++ overflow⟩) d d' ∧
      d'.memory.bytes =
        d.memory.bytes.patch (d.layout.controlAt core .tx !doorbell) Line.zero.bytes := by
  obtain ⟨d₁, d₂, hnote, hnext, hchanged, hmem, hread⟩ := ends_ring core doorbell hfits
  have hcap := d.layout.payloadCapacity_eq h
  have hcap' : d₂.layout.payloadCapacity = d.layout.payloadCapacity := by rw [hchanged.layout]
  let taken (c : NicCore) : NicCore :=
    { c with
      queue := if c.loopback then c.queue ++ [⟨line, overflow⟩] else c.queue
      sent := c.sent ++
        [⟨(d.format.decode line).transaction, line.inline.slice 0 len ++ overflow⟩] }
  let done : Nic Region :=
    { d₂ with
      memory := ⟨d₂.memory.bytes.patch (d₂.layout.controlAt core .tx !doorbell) Line.zero.bytes⟩
      cores := d₂.cores.modify core taken }
  have hclear : Ends (onMemory (Memory.write (d₂.layout.controlAt core .tx !doorbell)
      Line.zero.bytes) >>= fun _ => modifyCore core taken) d₂ (.ok ()) done := by
    refine .bind (ends_write ?_) (ends_modifyCore core taken _)
    rw [hchanged.layout, hmem, Line.zero.size_bytes]
    exact hfits (.control .tx !doorbell)
  have hdone : done.memory.bytes =
      d.memory.bytes.patch (d.layout.controlAt core .tx !doorbell) Line.zero.bytes := by
    simp only [done, hmem, hchanged.layout]
  refine ⟨done, hnote.bind (hnext.bind (.bind (.get d₂) (hread.bind ?_))),
    hchanged.trans (Changed.of_modify (f := taken) (g := .take _ _) (fun _ => rfl) ⟨_⟩), hdone⟩
  dsimp only
  rw [hchanged.format, ← rungLine, hline, if_pos hvalid, hcap', hlen]
  by_cases hmore : inlineSize < len
  · rw [if_pos hmore]
    have hover : Ends (onMemory (Memory.read (d₂.layout.overflowAt core .tx) (len - inlineSize)))
        d₂ (.ok overflow) d₂ := by
      have hin : d₂.layout.overflowAt core .tx + (len - inlineSize) ≤ d₂.memory.size := by
        rw [hchanged.layout, hmem]
        have hfit := hfits (.overflow .tx)
        simp only [d.layout.partAt_overflow, Part.len] at hfit
        omega
      rw [← hoverflow, ← hmem, ← hchanged.layout]
      exact ends_onMemory (Region.ends_read hin)
    exact hover.bind hclear
  · rw [if_neg hmore]
    rw [Nat.sub_eq_zero_of_le (Nat.not_lt.1 hmore), Bytes.slice_len_zero] at hoverflow
    subst hoverflow
    exact Ends.bind (.pure ByteArray.empty d₂) hclear

end Touch

end Nic
end LineExchange
