import LineExchange.Proofs.Layout.AddressMap
import LineExchange.Proofs.Nic.Receive

/-!
# LineExchange.Proofs.Nic.BringUp

A bring-up in front of a device. The loop has no bound of its own; each receive takes one
transaction out of the queue of the device, and the first one that finds it empty ends the loop.

* `Exchange.Cleared`: before it reads anything, a bring-up invalidates each line that exchanges on
  the core use, once, and no other line.
* `Exchange.Faces.receives`: by induction on the queue, what fits is received one by one.
* `Exchange.Faces.bringUp_all`, `bringUp_over`: then the queue is empty, or the first transaction
  that is too long ends the loop.
* `Exchange.bringUp_drains`: so for every device with a history, and parities in step or not.
-/

namespace LineExchange

open ControlByte (LetsIn)

namespace Exchange

variable {p : SpinPolicy Unit} {s : Stock} {before after raws : List RawTransaction}
  {raw : RawTransaction} {sent : List Packet} {loopback : Bool}
  {x y : Exchange (Traced (Nic Region))}

/-! ## The lines are invalidated first -/

/-- The accesses between `x` and `y` invalidate each line of the core but the worker-control line,
once. After that they only read. -/
def Cleared {M : Type} (x y : Exchange (Traced M)) : Prop :=
  ∃ (lines : List Nat) (reads : List LogEntry),
    y.host.memory.log.toList =
      x.host.memory.log.toList ++ (lines.map LogEntry.invalidate ++ reads) ∧
    lines.Nodup ∧
    (∀ o, o ∈ lines ↔ ∃ l : WindowLine, l.In x.host.config.layout ∧ l ≠ .worker ∧
      x.host.config.layout.lineAt x.owner.core l = o) ∧
    ∀ e ∈ reads, ∃ offset len, e = .read offset len

theorem cleared_bringUp {M : Type} [Memory M] {x y : Exchange (Traced M)} {fuel : Nat}
    {r : Except Stop Nat} (hcore : x.host.coreError? x.owner.core = none)
    (hend : Ends (bringUp p fuel) x r y) (hr : ∀ f, r ≠ .error (.fault f)) : Cleared x y := by
  let l := x.host.config.layout
  have hx : Watched (.log x.host.memory.log.toList) x.host.config x.owner.core
      x.owner.rxBuffer.size x.owner.next [] x := ⟨rfl, rfl, rfl, rfl, (List.append_nil _).symm⟩
  obtain ⟨z, hlog⟩ := bringUpLog_eq hcore hend hr
  have hseen : y.host.memory.log.toList = x.host.memory.log.toList ++ bringUpLog p fuel x :=
    ((hx.bringUp fuel hend).whole hr).seen
  refine ⟨(l.exchangeOffsets l.exchangeLines).map (l.coreBase x.owner.core + ·), drainLog p fuel z,
    ?_, ?_, ?_, fun e he => read_of_mem_drainLog he⟩
  · rw [hseen, hlog, List.map_map]
    rfl
  · exact (l.nodup_exchangeOffsets x.host.ordered).map fun _ _ => Nat.add_left_cancel
  · intro o
    rw [List.mem_map]
    constructor
    · rintro ⟨offset, hoffset, rfl⟩
      obtain ⟨t, hin, hne, rfl⟩ := l.mem_exchangeOffsets.1 hoffset
      exact ⟨t, hin, hne, rfl⟩
    · rintro ⟨t, hin, hne, rfl⟩
      exact ⟨t.offset l, l.mem_exchangeOffsets.2 ⟨t, hin, hne, rfl⟩, rfl⟩

/-! ## The queue is drained -/

namespace Faces

/-- The device has no cached copies to drop. -/
theorem invalidateLines (h : Faces s x) :
    ∃ y, Ends Exchange.invalidateLines x (.ok ()) y ∧ Faces s y ∧ Moved 0 0 0 x y := by
  have hmeets : Meets (fun y => Faces s y ∧ Moved 0 0 0 x y)
      (Exchange.invalidateLines : Step (Traced (Nic Region)) Unit)
      (fun _ y => Faces s y ∧ Moved 0 0 0 x y) Never := by
    refine .get_bind fun _ _ => .forM fun offset => .of_ends fun y hy => ?_
    have hinner : Ends (Memory.invalidate offset) y.device (.ok ()) y.device :=
      Nic.ends_onMemory (.pure () y.device.memory)
    obtain ⟨hfaces, hmoved⟩ := hy
    exact ⟨_, _, ends_onMemory (.bind (.modify _ y.host.memory) (Traced.ends_onInner hinner)),
      hfaces.congr rfl rfl rfl, hmoved.config, hmoved.core, hmoved.capacity, hmoved.next,
      hmoved.received, hmoved.emptyPolls⟩
  have hpost := hmeets.out (.intro _ x) ⟨h, .refl x⟩
  cases hr : Step.run Exchange.invalidateLines x with | mk r y =>
  rw [Step.run] at hr
  rw [hr] at hpost
  cases r with
  | error e => exact hpost.elim
  | ok _ => exact ⟨y, hr, hpost⟩

/-- What fits is received, the oldest first. -/
theorem receives (p : SpinPolicy Unit) (h : Faces ⟨before ++ after, sent, loopback⟩ x)
    (hfits : ∀ raw ∈ before, raw.announced x.host.config ≤ x.rxLimit) :
    ∃ rs y, rs.length = before.length ∧ Receives p x rs y ∧ Faces ⟨after, sent, loopback⟩ y ∧
      Moved before.length before.length 0 x y := by
  induction before generalizing x with
  | nil => exact ⟨[], x, rfl, .nil x, h, .refl x⟩
  | cons raw before ih =>
    obtain ⟨received, y, hfirst, hy, hmoved⟩ := h.receive_fits rfl (hfits raw (.head _)) p
    have hfits' : ∀ raw ∈ before, raw.announced y.host.config ≤ y.rxLimit := by
      intro raw' hraw'
      rw [hmoved.config, hmoved.rxLimit]
      exact hfits raw' (.tail _ hraw')
    obtain ⟨rs, z, hlen, hrest, hz, hmoved'⟩ := ih hy hfits'
    refine ⟨received :: rs, z, congrArg (· + 1) hlen, .cons hfirst hrest, hz, ?_⟩
    have hboth := hmoved.trans hmoved'
    rw [Nat.add_comm 1] at hboth
    exact hboth

/-- All that is queued fits: it is drained. -/
theorem bringUp_all (h : Faces ⟨raws, sent, loopback⟩ x)
    (hfits : ∀ raw ∈ raws, raw.announced x.host.config ≤ x.rxLimit) (p : SpinPolicy Unit)
    {fuel : Nat} (hfuel : raws.length < fuel) :
    ∃ y, Ends (bringUp p fuel) x (.ok raws.length) y ∧ Faces ⟨[], sent, loopback⟩ y ∧
      Moved (raws.length + 1) raws.length 1 x y := by
  obtain ⟨y, hclear, hy, hmoved⟩ := h.invalidateLines
  have hqueued : Faces ⟨raws ++ [], sent, loopback⟩ y := by rwa [List.append_nil]
  obtain ⟨rs, z, hlen, hreceives, hz, hmoved'⟩ := hqueued.receives p (by
    rw [hmoved.config, hmoved.rxLimit]
    exact hfits)
  obtain ⟨w, hnone, hw, hmoved''⟩ := hz.receive_none rfl p
  obtain ⟨k, rfl⟩ : ∃ k, fuel = rs.length + (k + 1) := ⟨fuel - rs.length - 1, by omega⟩
  refine ⟨w, ?_, hw, ?_⟩
  · refine (bringUp_eq h.coreError?_eq hclear _).trans ((hreceives.drain_eq _ _).trans ?_)
    rw [Nat.zero_add, hlen]
    exact ends_drain_none hnone k raws.length
  · have hall := (hmoved.trans hmoved').trans hmoved''
    rw [Nat.zero_add] at hall
    exact hall

/-- The first transaction that is too long ends the bring-up. What is behind it stays queued. -/
theorem bringUp_over (h : Faces ⟨before ++ raw :: after, sent, loopback⟩ x)
    (hfits : ∀ raw ∈ before, raw.announced x.host.config ≤ x.rxLimit)
    (hover : x.rxLimit < raw.announced x.host.config) (p : SpinPolicy Unit)
    {fuel : Nat} (hfuel : before.length < fuel) :
    ∃ y, Ends (bringUp p fuel) x
        (.error (.refused (.overflowExceeded (raw.announced x.host.config) x.rxLimit))) y ∧
      Faces ⟨after, sent, loopback⟩ y ∧ Moved (before.length + 1) before.length 0 x y := by
  obtain ⟨y, hclear, hy, hmoved⟩ := h.invalidateLines
  obtain ⟨rs, z, hlen, hreceives, hz, hmoved'⟩ := hy.receives p (by
    rw [hmoved.config, hmoved.rxLimit]
    exact hfits)
  have hboth := hmoved.trans hmoved'
  rw [Nat.zero_add] at hboth
  rw [← hboth.config, ← hboth.rxLimit] at hover ⊢
  obtain ⟨w, herror, hw, hmoved''⟩ := hz.receive_over rfl hover p
  obtain ⟨k, rfl⟩ : ∃ k, fuel = rs.length + (k + 1) := ⟨fuel - rs.length - 1, by omega⟩
  refine ⟨w, ?_, hw, hboth.trans hmoved''⟩
  refine (bringUp_eq h.coreError?_eq hclear _).trans ((hreceives.drain_eq _ _).trans ?_)
  exact ends_drain_error herror k _

end Faces

/-- In front of a device with a history, an owner of an idle core faces what is queued for it. -/
theorem faces_of_reached (hdevice : Nic.Reached x.host.config x.device)
    (hsize : x.host.config.regionSize ≤ x.device.memory.size)
    (hword : x.device.memory.size < wordMax) (hcore : x.owner.core < x.host.config.numCores)
    (hidle : LetsIn (x.device.memory.bytes.byteAt (x.host.workerAt x.owner.core)))
    (hstock : x.device.stockOf x.owner.core = some s) : Faces s x := by
  have hstocked := hdevice.stocked
  obtain ⟨k, hk, rfl⟩ := Nic.exists_core hstock
  exact ⟨⟨hstocked.layout, hstocked.format,
    x.host.config.layout.fits_of_requiredSize x.host.ordered hsize hword x.owner.core hcore, hstock,
    hstocked.whole x.owner.core k hk⟩, hcore, hidle⟩

/-- Either all fits, or there is a first transaction that is too long. -/
theorem exists_first_over (c : Config) (limit : Nat) (raws : List RawTransaction) :
    (∀ raw ∈ raws, raw.announced c ≤ limit) ∨ ∃ before raw after, raws = before ++ raw :: after ∧
      (∀ raw ∈ before, raw.announced c ≤ limit) ∧ limit < raw.announced c := by
  cases hfind : raws.find? fun raw => limit < raw.announced c with
  | none =>
    have hnone := List.find?_eq_none.1 hfind
    simp only [decide_eq_true_eq, Nat.not_lt] at hnone
    exact .inl hnone
  | some raw =>
    obtain ⟨hover, before, after, rfl, hbefore⟩ := List.find?_eq_some_iff_append.1 hfind
    refine .inr ⟨before, raw, after, rfl, fun raw' hraw' => ?_, of_decide_eq_true hover⟩
    have hfits := hbefore raw' hraw'
    simp only [Bool.not_eq_true', decide_eq_false_iff_not, Nat.not_lt] at hfits
    exact hfits

/-- **A bring-up drains what is queued.** Take a device with any history, and an owner of a mapped
core whose gate lets in, with any parities. A bring-up ends after at most one receive more than
there are transactions queued for the core. Before its first read it has invalidated each control
and overflow line of the core once, and no other. If everything queued fits the receive buffer and
the layout, everything is drained and counted, one more poll is empty, the parity of the receives
goes on by one line each, and a second bring-up drains nothing. If not, it fails with the first
transaction that is too long, and those behind it stay queued. -/
theorem bringUp_drains (x : Exchange (Traced (Nic Region))) (p : SpinPolicy Unit)
    (hdevice : Nic.Reached x.host.config x.device)
    (hsize : x.host.config.regionSize ≤ x.device.memory.size)
    (hword : x.device.memory.size < wordMax) (hcore : x.owner.core < x.host.config.numCores)
    (hidle : LetsIn (x.device.memory.bytes.byteAt (x.host.workerAt x.owner.core)))
    (hstock : x.device.stockOf x.owner.core = some ⟨raws, sent, loopback⟩) :
    (∀ fuel, raws.length < fuel → ∃ r y, Step.run (bringUp p fuel) x = (r, y) ∧
      r ≠ .error .endless ∧ Cleared x y) ∧
    ((∀ raw ∈ raws, raw.announced x.host.config ≤ x.rxLimit) → ∀ fuel, raws.length < fuel →
      ∃ y, Step.run (bringUp p fuel) x = (.ok raws.length, y) ∧
        y.device.stockOf x.owner.core = some ⟨[], sent, loopback⟩ ∧
        y.owner.stats.received = x.owner.stats.received + raws.length ∧
        y.owner.stats.emptyPolls = x.owner.stats.emptyPolls + 1 ∧
        y.owner.next = (Parity.toggle · .rx)^[raws.length + 1] x.owner.next ∧
        ∀ (q : SpinPolicy Unit) (fuel : Nat), (Step.run (bringUp q (fuel + 1)) y).1 = .ok 0) ∧
    ∀ before raw after, raws = before ++ raw :: after →
      (∀ raw ∈ before, raw.announced x.host.config ≤ x.rxLimit) →
      x.rxLimit < raw.announced x.host.config → ∀ fuel, before.length < fuel →
      ∃ y, Step.run (bringUp p fuel) x =
          (.error (.refused (.overflowExceeded (raw.announced x.host.config) x.rxLimit)), y) ∧
        y.device.stockOf x.owner.core = some ⟨after, sent, loopback⟩ := by
  have hfaces := faces_of_reached hdevice hsize hword hcore hidle hstock
  refine ⟨fun fuel hfuel => ?_, fun hfits fuel hfuel => ?_, ?_⟩
  · rcases exists_first_over x.host.config x.rxLimit raws with hfits |
      ⟨before, raw, after, rfl, hfits, hover⟩
    · obtain ⟨y, hend, -⟩ := hfaces.bringUp_all hfits p hfuel
      exact ⟨_, y, hend, nofun, cleared_bringUp hfaces.coreError?_eq hend nofun⟩
    · rw [List.length_append] at hfuel
      obtain ⟨y, hend, -⟩ := hfaces.bringUp_over hfits hover p (show before.length < fuel by omega)
      exact ⟨_, y, hend, nofun, cleared_bringUp hfaces.coreError?_eq hend nofun⟩
  · obtain ⟨y, hend, hy, hmoved⟩ := hfaces.bringUp_all hfits p hfuel
    refine ⟨y, hend, hmoved.core ▸ hy.stock, hmoved.received, hmoved.emptyPolls, hmoved.next,
      fun q fuel => ?_⟩
    obtain ⟨z, hagain, -⟩ := hy.bringUp_all nofun q (Nat.succ_pos fuel)
    exact congrArg Prod.fst hagain
  · rintro before raw after rfl hfits hover fuel hfuel
    obtain ⟨y, hend, hy, hmoved⟩ := hfaces.bringUp_over hfits hover p hfuel
    exact ⟨y, hend, hmoved.core ▸ hy.stock⟩

/-- Two packets are drained by an owner that expects the other RX line next than the device. -/
theorem bringUp_drains_out_of_step : ∃ x y : Exchange (Traced (Nic Region)),
    Nic.Reached {} x.device ∧ x.owner = .synced 0 {} ⟨true, false⟩ ∧
      Step.run (bringUp (SpinLimit.attempts 3).policy 3) x = (.ok 2, y) ∧ Cleared x y ∧
      y.device.stockOf 0 = some ⟨[], [], false⟩ ∧ y.owner.next = ⟨false, false⟩ := by
  have hr : ({} : Config).layout.regionSize 1 = some 0x10000 := rfl
  obtain ⟨d₀, hstart, h₀⟩ := Nic.exists_start (c := {}) rfl (by decide) hr (Nat.le_refl _)
  let call : Transaction := .call ⟨0x55aa, 7, .take (.zeros 0)⟩
  have hcore : 0 < ({} : Config).numCores := by decide
  obtain ⟨d₁, hreached₁, hsize₁, h₁⟩ := (Nic.Reached.start hstart).inject h₀ hcore call
    (.zeros 100) (by decide) (by decide) (by decide)
  obtain ⟨d₂, hreached, hsize₂, h₂⟩ := hreached₁.inject h₁ hcore call
    (.zeros 200) (by decide) (by decide) (by decide)
  have hsize : Memory.size d₂ = 0x10000 :=
    (hsize₂.trans hsize₁).trans ((Nic.size_start hstart).trans (Bytes.size_zeros _))
  obtain ⟨raws, hstock, hcarries⟩ := h₂.stocks 0 hcore
  have hlength : raws.length = 2 := hcarries.length_eq
  let x : Exchange (Traced (Nic Region)) :=
    ⟨⟨⟨d₂, #[]⟩, {}, rfl, #[{}], #[true]⟩, .synced 0 {} ⟨true, false⟩⟩
  have hroom : x.host.config.regionSize ≤ x.device.memory.size := by
    show ({} : Config).regionSize ≤ Memory.size d₂
    rw [hsize]
    decide
  have hword : x.device.memory.size < wordMax := by
    show Memory.size d₂ < wordMax
    rw [hsize]
    decide
  obtain ⟨hends, hall, -⟩ := bringUp_drains x (SpinLimit.attempts 3).policy hreached hroom hword
    hcore ⟨h₂.ready 0 hcore, h₂.free 0 hcore⟩ hstock
  have hlimit : ({} : Layout).payloadCapacity ≤ x.rxLimit := by
    have hbuffer : x.owner.rxCapacity = ({} : Config).rxBufferSize := Bytes.size_zeros _
    exact Nat.le_min.2 ⟨hbuffer.ge, Nat.le_refl _⟩
  have hannounced : ∀ raw ∈ raws, raw.announced {} ≤ ({} : Layout).payloadCapacity :=
    ((List.forall₂_and_left _ _).1 (hcarries.imp fun _ _ hpacket =>
      ⟨(congrArg Header.length hpacket.header).trans_le hpacket.fits, hpacket⟩)).1
  have hfits : ∀ raw ∈ raws, raw.announced x.host.config ≤ x.rxLimit :=
    fun raw hraw => (hannounced raw hraw).trans hlimit
  obtain ⟨y, hend, hstock', -, -, hnext, -⟩ := hall hfits 3 (by omega)
  obtain ⟨r, y', hend', -, hcleared⟩ := hends 3 (by omega)
  obtain ⟨-, rfl⟩ := Prod.mk.inj (hend.symm.trans hend')
  rw [hlength] at hend hnext
  exact ⟨x, y, hreached, rfl, hend, hcleared, hstock', hnext⟩

end Exchange
end LineExchange
