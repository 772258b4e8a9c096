import LineExchange.Proofs.Exchange.Accesses
import LineExchange.Proofs.Exchange.Drain
import LineExchange.Proofs.Region.Receive

/-!
# LineExchange.Proofs.Region.BringUp

A bring-up over a plain region, where nobody clears a line that was received. The receives look
at the two RX control lines in turn, so draining ends with the first of them that is not valid. If
both are valid, which is what an earlier run may have left there, it never ends.

* `Exchange.SameView`: what a receive over a region leaves as it is. It answers the same again
  when the same line comes next.
* `Exchange.Ready.receive`: one receive; `Exchange.Ready.receives`: as many as one likes, while
  both lines are valid.
* `Exchange.Ready.bringUp_none`, `bringUp_one`, `bringUp_goes_on`: what comes of a bring-up.
* `Exchange.bringUp_region`: when a bring-up ends, and with which count.
-/

namespace LineExchange

open ControlByte (LetsIn)

namespace Exchange

variable {p : SpinPolicy Unit} {x y z : Exchange Region}

/-- What the RX control line of a parity says. -/
def rxHeaderAt (x : Exchange Region) (parity : Bool) : Header :=
  x.host.config.format.decode (.ofBytes (x.host.config.layout.view x.host.memory.bytes x.owner.core
    (.control .rx parity)))

/-- Both owners look at the same lines of the same region, with as much room to receive. -/
structure SameView (x y : Exchange Region) : Prop where
  config : y.host.config = x.host.config
  memory : y.host.memory = x.host.memory
  core : y.owner.core = x.owner.core
  capacity : y.owner.rxCapacity = x.owner.rxCapacity

namespace SameView

theorem refl (x : Exchange Region) : SameView x x := ⟨rfl, rfl, rfl, rfl⟩

theorem trans (h : SameView x y) (h' : SameView y z) : SameView x z :=
  ⟨h'.config.trans h.config, h'.memory.trans h.memory, h'.core.trans h.core,
    h'.capacity.trans h.capacity⟩

theorem ready (h : SameView x y) (hx : x.Ready) : y.Ready := by
  obtain ⟨hconfig, hmemory, hcore, -⟩ := h
  constructor
  · rw [hcore, hconfig]
    exact hx.core
  · rw [hconfig, hcore, hmemory]
    exact hx.fits
  · rw [Host.workerAt, hconfig, hcore, hmemory]
    exact hx.letsIn

theorem rxHeaderAt (h : SameView x y) (parity : Bool) :
    y.rxHeaderAt parity = x.rxHeaderAt parity := by
  simp only [Exchange.rxHeaderAt, h.config, h.memory, h.core]

theorem rxLimit (h : SameView x y) : y.rxLimit = x.rxLimit := by
  rw [Exchange.rxLimit, h.capacity, h.config, Exchange.rxLimit]

end SameView

theorem polled_found (x : Exchange Region) :
    polled x.found = true ∧ ∀ f, x.found ≠ .error (.fault f) := by
  unfold found
  cases x.rxHeader.valid with
  | false => exact ⟨rfl, nofun⟩
  | true =>
    by_cases hmore : x.rxLimit < x.rxHeader.length
    · simp only [hmore, if_true]
      exact ⟨rfl, nofun⟩
    · simp only [hmore, if_true, if_false]
      exact ⟨rfl, nofun⟩

theorem toggle_toggle (next : Parity) (d : Direction) : (next.toggle d).toggle d = next := by
  cases d <;> simp [Parity.toggle, Parity.set, Parity.get]

namespace Ready

/-- A receive answers what lies there. Apart from the line that comes next nothing that it looked
at has changed. -/
theorem receive (h : x.Ready) (p : SpinPolicy Unit) : ∃ y, Ends (receive p) x x.found y ∧
    SameView x y ∧ y.owner.next = x.owner.next.toggle .rx := by
  obtain ⟨host, o, hcall, hmemory, -⟩ := h.receiveWith p ()
  have watched : Watched (.blind Region) x.host.config x.owner.core x.owner.rxCapacity
      x.owner.next [] x := ⟨rfl, rfl, rfl, rfl, trivial⟩
  have made := watched.receiveWith p ()
  obtain ⟨hpolled, hfault⟩ := x.polled_found
  rw [hcall] at made
  have after := made.whole hfault
  dsimp only at after
  rw [hpolled] at after
  refine ⟨⟨host, o⟩, ?_, ⟨after.config, hmemory, after.core, after.buffer⟩, after.next⟩
  exact congrArg (fun q : Except Stop (Option Received) × Unit × Exchange Region => (q.1, q.2.2))
    hcall

theorem receive_none (h : x.Ready) (p : SpinPolicy Unit)
    (hinvalid : (x.rxHeaderAt x.owner.next.rx).valid = false) :
    ∃ y, Ends (Exchange.receive p) x (.ok none) y ∧ SameView x y ∧
      y.owner.next = x.owner.next.toggle .rx :=
  found_eq_none.2 hinvalid ▸ h.receive p

theorem receive_some (h : x.Ready) (p : SpinPolicy Unit)
    (hvalid : (x.rxHeaderAt x.owner.next.rx).valid = true)
    (hfits : (x.rxHeaderAt x.owner.next.rx).length ≤ x.rxLimit) :
    ∃ received y, Ends (Exchange.receive p) x (.ok (some received)) y ∧ SameView x y ∧
      y.owner.next = x.owner.next.toggle .rx := by
  have received := h.receive p
  rw [found_of_fits hvalid hfits] at received
  exact ⟨_, received⟩

/-- A plain region has no cached copies to drop. -/
theorem bringUp_eq_drain (h : x.Ready) (p : SpinPolicy Unit) (fuel : Nat) :
    Step.run (bringUp p fuel) x = Step.run (drain p fuel 0) x := by
  have hclear : Meets (fun y => y = x) (invalidateLines : Step Region Unit) (fun _ y => y = x)
      Never := .get_bind fun _ _ => .forM fun _ => .of_ends fun y hy =>
        ⟨.ok (), y, ends_onMemory (.pure () y.host.memory), hy⟩
  have hpost := hclear.out (.intro invalidateLines x) rfl
  cases hr : Step.run invalidateLines x with | mk r y =>
  rw [Step.run] at hr
  rw [hr] at hpost
  cases r with
  | error e => exact hpost.elim
  | ok _ =>
    obtain rfl := hpost
    exact bringUp_eq h.coreError?_eq hr fuel

theorem bringUp_none (h : x.Ready) (p : SpinPolicy Unit)
    (hinvalid : (x.rxHeaderAt x.owner.next.rx).valid = false) (fuel : Nat) :
    ∃ y, Step.run (bringUp p (fuel + 1)) x = (.ok 0, y) ∧ y.host.memory = x.host.memory ∧
      y.owner.next = x.owner.next.toggle .rx := by
  obtain ⟨y, hnone, hsame, hnext⟩ := h.receive_none p hinvalid
  exact ⟨y, (h.bringUp_eq_drain p _).trans (ends_drain_none hnone fuel 0), hsame.memory, hnext⟩

theorem bringUp_one (h : x.Ready) (p : SpinPolicy Unit)
    (hvalid : (x.rxHeaderAt x.owner.next.rx).valid = true)
    (hfits : (x.rxHeaderAt x.owner.next.rx).length ≤ x.rxLimit)
    (hinvalid : (x.rxHeaderAt !x.owner.next.rx).valid = false) (fuel : Nat) :
    ∃ y, Step.run (bringUp p (fuel + 2)) x = (.ok 1, y) ∧ y.host.memory = x.host.memory ∧
      y.owner.next = x.owner.next := by
  obtain ⟨received, y, hsome, hsame, hnext⟩ := h.receive_some p hvalid hfits
  have hinvalid' : (y.rxHeaderAt y.owner.next.rx).valid = false := by
    rw [hsame.rxHeaderAt, hnext]
    exact hinvalid
  obtain ⟨z, hnone, hsame', hnext'⟩ := (hsame.ready h).receive_none p hinvalid'
  refine ⟨z, (h.bringUp_eq_drain p _).trans ?_, hsame'.memory.trans hsame.memory, ?_⟩
  · exact hsome.bind (ends_drain_none hnone fuel 1)
  · rw [hnext', hnext, toggle_toggle]

section Both

variable (h : x.Ready) (hvalid : ∀ parity, (x.rxHeaderAt parity).valid = true)
  (hfits : ∀ parity, (x.rxHeaderAt parity).length ≤ x.rxLimit)
include h hvalid hfits

/-- While both lines are valid, another receive is always made. -/
theorem receive_again (p : SpinPolicy Unit) (hsame : SameView x y) :
    ∃ received z, Ends (Exchange.receive p) y (.ok (some received)) z ∧ SameView x z := by
  have hvalid' : (y.rxHeaderAt y.owner.next.rx).valid = true :=
    (congrArg Header.valid (hsame.rxHeaderAt _)).trans (hvalid _)
  have hfits' : (y.rxHeaderAt y.owner.next.rx).length ≤ y.rxLimit := by
    rw [hsame.rxHeaderAt, hsame.rxLimit]
    exact hfits _
  obtain ⟨received, z, hnext, hsame', -⟩ := (hsame.ready h).receive_some p hvalid' hfits'
  exact ⟨received, z, hnext, hsame.trans hsame'⟩

theorem receives (p : SpinPolicy Unit) (n : Nat) :
    ∃ rs y, rs.length = n ∧ Receives p x rs y ∧ SameView x y := by
  induction n with
  | zero => exact ⟨[], x, rfl, .nil x, .refl x⟩
  | succ n ih =>
    obtain ⟨rs, y, hlen, hreceives, hsame⟩ := ih
    obtain ⟨received, z, hnext, hsame'⟩ := h.receive_again hvalid hfits p hsame
    exact ⟨rs ++ [received], z, by rw [List.length_append, hlen, List.length_singleton],
      hreceives.snoc hnext, hsame'⟩

/-- After as many receives as one likes, a bring-up still drains. -/
theorem bringUp_goes_on (p : SpinPolicy Unit) (n : Nat) :
    ∃ rs y received z, rs.length = n ∧ Receives p x rs y ∧
      Ends (Exchange.receive p) y (.ok (some received)) z ∧
      ∀ fuel, Step.run (bringUp p (n + fuel)) x = Step.run (drain p fuel n) y := by
  obtain ⟨rs, y, hlen, hreceives, hsame⟩ := h.receives hvalid hfits p n
  obtain ⟨received, z, hnext, -⟩ := h.receive_again hvalid hfits p hsame
  refine ⟨rs, y, received, z, hlen, hreceives, hnext, fun fuel => ?_⟩
  rw [h.bringUp_eq_drain p, ← hlen, hreceives.drain_eq, Nat.zero_add]

theorem bringUp_endless (p : SpinPolicy Unit) (fuel : Nat) :
    (Step.run (bringUp p fuel) x).1 = .error .endless := by
  obtain ⟨rs, y, -, -, -, -, -, hgoes⟩ := h.bringUp_goes_on hvalid hfits p fuel
  exact congrArg Prod.fst (hgoes 0)

end Both

end Ready

/-- **A bring-up over a plain region.** Let every RX control line of the core that is valid have a
length that there is room for. Then a bring-up ends if and only if one of the two is not valid. If
this is the line that comes next, nothing is drained and the other line comes next; if it is the
other one, one transaction is drained and the same line comes next as before. If both are valid,
every number of receives is followed by another one, and they are all counted. -/
theorem bringUp_region (x : Exchange Region) (p : SpinPolicy Unit)
    (hsize : x.host.config.regionSize ≤ x.host.memory.size) (hword : x.host.memory.size < wordMax)
    (hcore : x.owner.core < x.host.config.numCores)
    (hidle : LetsIn (x.host.memory.bytes.byteAt (x.host.workerAt x.owner.core)))
    (hfits : ∀ parity, (x.rxHeaderAt parity).valid = true →
      (x.rxHeaderAt parity).length ≤ x.rxLimit) :
    ((∃ fuel, (Step.run (bringUp p fuel) x).1 ≠ .error .endless) ↔
      ∃ parity, (x.rxHeaderAt parity).valid = false) ∧
    ((x.rxHeaderAt x.owner.next.rx).valid = false → ∀ fuel, ∃ y,
      Step.run (bringUp p (fuel + 1)) x = (.ok 0, y) ∧ y.host.memory = x.host.memory ∧
        y.owner.next = x.owner.next.toggle .rx) ∧
    ((x.rxHeaderAt x.owner.next.rx).valid = true →
      (x.rxHeaderAt !x.owner.next.rx).valid = false → ∀ fuel, ∃ y,
      Step.run (bringUp p (fuel + 2)) x = (.ok 1, y) ∧ y.host.memory = x.host.memory ∧
        y.owner.next = x.owner.next) ∧
    ((∀ parity, (x.rxHeaderAt parity).valid = true) → ∀ n, ∃ rs y received z,
      rs.length = n ∧ Receives p x rs y ∧ Ends (receive p) y (.ok (some received)) z ∧
        ∀ fuel, Step.run (bringUp p (n + fuel)) x = Step.run (drain p fuel n) y) := by
  have hready := ready_of_size hsize hword hcore hidle
  refine ⟨⟨?_, ?_⟩, hready.bringUp_none p, fun hvalid => hready.bringUp_one p hvalid
    (hfits _ hvalid), fun hvalid => hready.bringUp_goes_on hvalid (fun parity =>
    hfits parity (hvalid parity)) p⟩
  · rintro ⟨fuel, hends⟩
    by_contra hnone
    have hvalid (parity : Bool) : (x.rxHeaderAt parity).valid = true :=
      Bool.not_eq_false _ ▸ fun h => hnone ⟨parity, h⟩
    exact hends (hready.bringUp_endless hvalid (fun parity => hfits parity (hvalid parity)) p fuel)
  · rintro ⟨parity, hinvalid⟩
    cases hvalid : (x.rxHeaderAt x.owner.next.rx).valid with
    | false =>
      obtain ⟨y, hend, -⟩ := hready.bringUp_none p hvalid 0
      exact ⟨1, by rw [hend]; nofun⟩
    | true =>
      have hother : parity = !x.owner.next.rx := by
        refine Bool.eq_not_of_ne fun h => ?_
        rw [h, hvalid] at hinvalid
        cases hinvalid
      obtain ⟨y, hend, -⟩ := hready.bringUp_one p hvalid (hfits _ hvalid) (hother ▸ hinvalid) 0
      exact ⟨2, by rw [hend]; nofun⟩

/-- An earlier run has left a valid line of either parity. Nothing is in them, but draining them
never ends. -/
theorem bringUp_region_stale : ∃ x : Exchange Region, x.host.config = {} ∧
    x.owner = .synced 0 {} {} ∧ (∀ parity, (x.rxHeaderAt parity).valid = true) ∧
    ∀ fuel, (Step.run (bringUp (SpinLimit.attempts 3).policy fuel) x).1 = .error .endless := by
  obtain ⟨stale, hstale⟩ : ∃ l, l = Line.zero.put ({} : Format).valid 1 := ⟨_, rfl⟩
  obtain ⟨idle, hidle⟩ : ∃ b, b = (Bytes.zeros 0x10000).put 0xff80 1 := ⟨_, rfl⟩
  obtain ⟨b, hb⟩ : ∃ b, b = (idle.patch 0 stale.bytes).patch 0x80 stale.bytes := ⟨_, rfl⟩
  obtain ⟨hsize, hword, hletsIn⟩ := idle_default hidle
  have hline : stale.bytes.size = 128 := stale.size_bytes
  have hroom : idle.size = 0x10000 := by rw [hidle, Bytes.size_put, Bytes.size_zeros]
  have hkept : b.size = idle.size := by rw [hb, Bytes.size_patch, Bytes.size_patch]
  have hbyte : b.byteAt (({} : Layout).workerAt 0) = idle.byteAt (({} : Layout).workerAt 0) := by
    have hworker : ({} : Layout).workerAt 0 = 0xff80 := by decide
    rw [hworker, hb, Bytes.byteAt_patch (by rw [Bytes.size_patch]; omega), if_neg (by omega),
      Bytes.byteAt_patch (by omega), if_neg (by omega)]
  let x : Exchange Region := ⟨⟨⟨b⟩, {}, rfl, #[{}], #[true]⟩, .synced 0 {} {}⟩
  have hview (parity : Bool) : ({} : Layout).view b 0 (.control .rx parity) = stale.bytes := by
    have hfirst : ({} : Layout).partAt 0 (.control .rx false) = 0 := by decide
    have hsecond : ({} : Layout).partAt 0 (.control .rx true) = 0x80 := by decide
    have hlen (d : Direction) (parity : Bool) :
        (Part.control d parity).len ({} : Layout) = stale.bytes.size := hline.symm
    rw [Layout.view, hlen, hb]
    cases parity with
    | false =>
      rw [hfirst, Bytes.slice_patch_of_disjoint (by rw [Bytes.size_patch]; omega) (by omega)]
      exact Bytes.slice_patch_same (by omega)
    | true =>
      rw [hsecond]
      exact Bytes.slice_patch_same (by rw [Bytes.size_patch]; omega)
  have hheader (parity : Bool) : x.rxHeaderAt parity = ({} : Format).decode stale := by
    rw [← Line.ofBytes_bytes stale]
    exact congrArg (fun b => ({} : Format).decode (.ofBytes b)) (hview parity)
  have hvalid : (({} : Format).decode stale).valid = true := by
    have hget : ({} : Format).valid.get stale.bytes = 1 := hstale ▸ Line.get_put (by decide) .zero 1
    simp [Format.decode, Format.isValid, hget]
  have hlength : (({} : Format).decode stale).length = 0 := by
    show ({} : Format).len.get stale.bytes = 0
    rw [hstale, Line.get_put_apart (by decide)]
    exact Field.get_zeros _ _
  have hboth (parity : Bool) : (x.rxHeaderAt parity).valid = true := by rw [hheader, hvalid]
  obtain ⟨hends, -⟩ := bringUp_region x (SpinLimit.attempts 3).policy
    (hsize.trans_eq hkept.symm) (hkept.trans_lt hword) (show 0 < 1 by decide)
    (hbyte ▸ hletsIn)
    (fun parity _ => by rw [hheader, hlength]; exact Nat.zero_le _)
  refine ⟨x, rfl, rfl, hboth, fun fuel => ?_⟩
  by_contra h
  obtain ⟨parity, hinvalid⟩ := hends.1 ⟨fuel, h⟩
  rw [hboth] at hinvalid
  cases hinvalid

end Exchange
end LineExchange
