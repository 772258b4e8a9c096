import LineExchange.Proofs.Exchange.Accesses
import LineExchange.Proofs.Layout.Lines

/-!
# LineExchange.Proofs.Layout.AddressMap

What a checked layout makes of a region that is large enough for its windows (`AddressMap`): the
lines of all cores lie apart and fill it to its end, no address is stopped or wraps, and the lines
that exchanges use are listed without a gap.

Bringing up a core invalidates the lines that are listed, each once and in this order, and no
others (`Exchange.invalidated_bringUp`). So no byte of a payload is ever read from an old copy.
-/

namespace LineExchange

/-- What can be relied on in a region of `r` bytes with the windows of `cores` cores. -/
structure Layout.AddressMap (l : Layout) (cores r : Nat) : Prop where
  aligned : ∀ core s, lineSize ∣ l.lineAt core s
  /-- Two lines of the region share no byte. -/
  apart : ∀ core other (s t : WindowLine), s.In l → t.In l → (core, s) ≠ (other, t) →
    l.lineAt core s + lineSize ≤ l.lineAt other t ∨ l.lineAt other t + lineSize ≤ l.lineAt core s
  within : ∀ core (s : WindowLine), core < cores → s.In l → l.lineAt core s + lineSize ≤ r
  /-- The region ends with the last worker-control line. -/
  last : r = l.lineAt (cores - 1) .worker + lineSize
  /-- All addresses, and what they are summed up from, are words. -/
  words : r ≤ wordMax ∧ (∀ core, core < cores → l.coreBase core ≤ wordMax) ∧
    (∀ d parity, l.controlOffset d parity ≤ wordMax) ∧ ∀ d, l.overflowBase d ≤ wordMax
  /-- The payload capacity was not stopped at the largest word. -/
  capacity : l.payloadCapacity = inlineSize + l.overflowLines.toNat * lineSize ∧
    inlineSize + l.overflowLines.toNat * lineSize ≤ wordMax
  /-- The lines that exchanges use are all lines of a window but the worker-control line. -/
  listed : ∀ o, o ∈ l.exchangeOffsets l.exchangeLines ↔
    ∃ s : WindowLine, s.In l ∧ s ≠ .worker ∧ s.offset l = o
  listed_once : (l.exchangeOffsets l.exchangeLines).Nodup
  /-- What a line and the overflow array carry lies where the bytes of a payload do. -/
  carried : ∀ (b : Bytes) core d parity i, r ≤ b.size → core < cores → i < l.payloadCapacity →
    (l.carried b core d parity).byteAt i = b.byteAt (l.payloadAt core d parity i)
  /-- Each byte of a payload lies in a line that exchanges use. -/
  payload : ∀ core d parity i, i < l.payloadCapacity →
    ∃ o ∈ l.exchangeOffsets l.exchangeLines, l.coreBase core + o ≤ l.payloadAt core d parity i ∧
      l.payloadAt core d parity i < l.coreBase core + o + lineSize

namespace Layout

variable {l : Layout} {cores r : Nat}

/-- Every line ends within the region, so its address is a word. -/
theorem words_of_check (h : l.Ordered) (hcores : 1 ≤ cores) (hr : l.regionSize cores = some r) :
    r ≤ wordMax ∧ (∀ core, core < cores → l.coreBase core ≤ wordMax) ∧
      (∀ d parity, l.controlOffset d parity ≤ wordMax) ∧ ∀ d, l.overflowBase d ≤ wordMax := by
  obtain ⟨-, hmax⟩ := l.regionSize_eq hcores hr
  have hpart (core : Nat) (hcore : core < cores) (p : Part) :
      l.coreBase core + p.offset l ≤ wordMax := by
    have := l.fits_of_regionSize h hr (Nat.le_refl r) core hcore p
    unfold partAt at this
    omega
  refine ⟨hmax, fun core hcore => ?_, fun d parity => ?_, fun d => ?_⟩
  · exact Nat.le_trans (Nat.le_add_right ..) (hpart core hcore .worker)
  · exact Nat.le_trans (Nat.le_add_left ..) (hpart 0 hcores (.control d parity))
  · exact Nat.le_trans (Nat.le_add_left ..) (hpart 0 hcores (.overflow d))

theorem addressMap_of_check (hl : l.check = .ok ()) (hcores : 1 ≤ cores)
    (hr : l.regionSize cores = some r) : l.AddressMap cores r := by
  have h := l.ordered_of_check hl
  have hcapacity : l.payloadCapacity = inlineSize + l.overflowLines.toNat * lineSize :=
    l.payloadCapacity_eq h
  exact {
    aligned := (l.aligned_of_check hl).lineAt
    apart := fun core other s t hs ht hne => l.lineAt_apart h hs ht hne
    within := fun core s hcore hs => l.lineAt_end_le h hr hcore hs
    last := (l.regionSize_eq hcores hr).1
    words := l.words_of_check h hcores hr
    capacity := ⟨hcapacity, hcapacity ▸ saturate_le_wordMax _⟩
    listed := fun o => l.mem_exchangeOffsets
    listed_once := l.nodup_exchangeOffsets h
    carried := fun b core d parity i hb hcore hi =>
      l.byteAt_carried d parity (l.fits_of_regionSize h hr hb core hcore) (hcapacity ▸ hi)
    payload := fun core d parity i hi => by
      obtain ⟨s, hin, hne, hstart, hend⟩ := l.payloadAt_in_line core d parity (hcapacity ▸ hi)
      exact ⟨_, l.mem_exchangeOffsets.2 ⟨s, hin, hne, rfl⟩, hstart, hend⟩ }

end Layout

namespace Exchange

variable {M : Type} [Memory M] {x y : Exchange (Traced M)} {p : SpinPolicy Unit}

theorem invalidated_invalidateLog (l : Layout) (core : Nat) :
    (invalidateLog l core).filterMap LogEntry.invalidated? =
      (l.exchangeOffsets l.exchangeLines).map (l.coreBase core + ·) := by
  rw [invalidateLog, List.filterMap_map]
  exact congrFun (List.filterMap_eq_map (f := fun offset => l.coreBase core + offset)) _

theorem invalidated_drainLog (fuel : Nat) (x : Exchange (Traced M)) :
    (drainLog p fuel x).filterMap LogEntry.invalidated? = [] := by
  refine List.filterMap_eq_nil_iff.2 fun e he => ?_
  obtain ⟨_, _, rfl⟩ := read_of_mem_drainLog he
  rfl

/-- A bring-up of a mapped core that does not break off has invalidated the lines of the core. -/
theorem bringUpLog_eq {fuel : Nat} {r : Except Stop Nat}
    (hcore : x.host.coreError? x.owner.core = none) (hend : Ends (bringUp p fuel) x r y)
    (hr : ∀ f, r ≠ .error (.fault f)) :
    ∃ z : Exchange (Traced M), bringUpLog p fuel x =
      invalidateLog x.host.config.layout x.owner.core ++ drainLog p fuel z := by
  have hx : Watched (.blind (Traced M)) x.host.config x.owner.core x.owner.rxBuffer.size
      x.owner.next [] x := ⟨rfl, rfl, rfl, rfl, trivial⟩
  have lines := (Watched.meets_invalidateLines (E := fun e _ => ∃ f, e = .fault f)
    fun f _ _ => ⟨f, rfl⟩).out (.intro invalidateLines x) hx
  unfold bringUpLog
  cases hlines : (ExceptT.run (invalidateLines : Step (Traced M) Unit)).run x with
  | mk r₀ z =>
    rw [hlines] at lines
    have hrun : Step.run (checkCore >>= fun _ => invalidateLines) x = (r₀, z) :=
      (ends_checkCore hcore).bind hlines
    rw [hrun]
    cases r₀ with
    | ok _ => exact ⟨z, rfl⟩
    | error e =>
      obtain ⟨f, rfl⟩ := lines
      have broken : Ends (bringUp p fuel) x (.error (.fault f)) z :=
        (ends_checkCore hcore).bind (.bind_error hlines)
      exact absurd (hend.unique broken).1 (hr f)

/-- **A bring-up** invalidates the lines that exchanges on the core use, and no others. -/
theorem invalidated_bringUp {fuel : Nat} {r : Except Stop Nat}
    (hcore : x.host.coreError? x.owner.core = none) (hend : Ends (bringUp p fuel) x r y)
    (hr : ∀ f, r ≠ .error (.fault f)) :
    y.host.memory.invalidated = x.host.memory.invalidated ++
      (x.host.config.layout.exchangeOffsets x.host.config.layout.exchangeLines).map
        (x.host.config.layout.coreBase x.owner.core + ·) := by
  have hx : Watched (.log x.host.memory.log.toList) x.host.config x.owner.core
      x.owner.rxBuffer.size x.owner.next [] x := ⟨rfl, rfl, rfl, rfl, (List.append_nil _).symm⟩
  obtain ⟨z, hlog⟩ := bringUpLog_eq hcore hend hr
  have hseen : y.host.memory.log.toList = x.host.memory.log.toList ++ bringUpLog p fuel x :=
    ((hx.bringUp fuel hend).whole hr).seen
  unfold Traced.invalidated
  rw [hseen, hlog, List.filterMap_append, List.filterMap_append, invalidated_invalidateLog,
    invalidated_drainLog, List.append_nil]

end Exchange

namespace Layout

/-- **The address map** of a checked layout is injective and complete, and a bring-up invalidates
every line that can hold a part of a payload. -/
theorem maps_every_line {l : Layout} {cores r : Nat} (hl : l.check = .ok ()) (hcores : 1 ≤ cores)
    (hr : l.regionSize cores = some r) :
    l.AddressMap cores r ∧
      ∀ (M : Type) [Memory M] (x y : Exchange (Traced M)) (p : SpinPolicy Unit) (fuel : Nat)
        (result : Except Stop Nat), x.host.config.layout = l →
        x.owner.core < x.host.config.numCores → Ends (Exchange.bringUp p fuel) x result y →
        (∀ f, result ≠ .error (.fault f)) →
        y.host.memory.invalidated = x.host.memory.invalidated ++
          (l.exchangeOffsets l.exchangeLines).map (l.coreBase x.owner.core + ·) := by
  refine ⟨l.addressMap_of_check hl hcores hr, ?_⟩
  rintro M _ x y p fuel result rfl hcore hend hwhole
  exact Exchange.invalidated_bringUp (if_pos hcore) hend hwhole

/-- Two default windows. The bring-up of the second core follows no receive. -/
theorem maps_every_line_default :
    let x : Exchange (Traced Region) :=
      ⟨⟨⟨.zeros 0x20000, #[]⟩, { numCores := 2 }, rfl, #[{}, {}], #[false, true]⟩,
        .synced 1 { numCores := 2 } {}⟩
    ({} : Layout).AddressMap 2 0x20000 ∧ ∃ y,
      Ends (Exchange.bringUp (SpinLimit.attempts 3).policy 0) x (.error .endless) y ∧
      y.host.memory.invalidated = x.host.memory.invalidated ++
        (({} : Layout).exchangeOffsets ({} : Layout).exchangeLines).map
          (({} : Layout).coreBase 1 + ·) := by
  intro x
  obtain ⟨hmap, hlines⟩ := maps_every_line (show ({} : Layout).check = .ok () from rfl)
    (show 1 ≤ 2 by decide) (show ({} : Layout).regionSize 2 = some 0x20000 from rfl)
  let bringUp : Exchange.Step (Traced Region) Nat :=
    Exchange.bringUp (SpinLimit.attempts 3).policy 0
  have hrun : (Exchange.Step.run bringUp x).1 = .error .endless := by decide +kernel
  have hend : Ends bringUp x (.error .endless) (Exchange.Step.run bringUp x).2 := by
    rw [← hrun]
    exact .intro bringUp x
  exact ⟨hmap, _, hend, hlines Region x _ _ 0 _ rfl (by decide) hend nofun⟩

end Layout
end LineExchange
