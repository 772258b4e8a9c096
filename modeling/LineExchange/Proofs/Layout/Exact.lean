import LineExchange.InWords
import LineExchange.Proofs.Layout.Lines

/-!
# LineExchange.Proofs.Layout.Exact

The check of a layout is exact although its sums are stopped at the largest word: it accepts the
layouts whose parts are aligned and in order by sums without a bound, and no others
(`Layout.check_exact`). A sum that was stopped is a minimum that no aligned offset meets, as the
largest word is no multiple of the line size (`Layout.le_of_saturate_le`).

`Layout.checkInWords_eq` and `Layout.regionSizeInWords?_eq_some` say what the computations with
words come to.
-/

namespace LineExchange

/-- A sum is stopped once, whether or not a summand was stopped before. -/
theorem saturate_add_saturate (n m : Nat) : saturate (n + saturate m) = saturate (n + m) := by
  unfold saturate
  omega

namespace Layout

open Word

variable {l : Layout}

theorem toNat_lineWord : lineWord.toNat = lineSize := by decide

@[simp] theorem toNat_spanInWords (l : Layout) : l.spanInWords.toNat = saturate l.span := by
  rw [spanInWords, toNat_satAdd, toNat_satMul, toNat_lineWord, saturate_add_saturate]
  rfl

theorem aligned_inWords (field : String) (offset : UInt64) :
    (⟨offset % lineWord = 0, .misaligned field offset.toNat⟩ : Rule LayoutError) =
      aligned field offset := by
  refine Rule.mk_congr ?_ _
  rw [← UInt64.toNat_inj, UInt64.toNat_mod, toNat_lineWord]
  rfl

theorem startsAt_inWords (field : String) (offset min : UInt64) :
    (⟨min ≤ offset, .overlap field offset.toNat min.toNat⟩ : Rule LayoutError) =
      startsAt field offset min.toNat := Rule.mk_congr UInt64.le_iff_toNat_le _

theorem checkInWords_eq (l : Layout) : l.checkInWords = l.check := by
  have hlines : (2 * lineWord).toNat = 2 * lineSize := by decide
  simp only [checkInWords, check, rulesInWords, rules, List.map_cons, List.map_nil,
    List.cons_append, List.nil_append, aligned_inWords, startsAt_inWords, toNat_satAdd,
    toNat_spanInWords, saturate_add_saturate, toNat_lineWord, hlines]

theorem check_eq_ok : l.check = .ok () ↔ l.Aligned ∧ l.Ordered := by
  constructor
  · intro h
    exact ⟨aligned_of_check h, ordered_of_check h⟩
  · rintro ⟨ha, ho⟩
    -- a bound that was stopped is lower, and so is met all the more
    have starts {n : Nat} {offset : UInt64} (h : n ≤ offset.toNat) : saturate n ≤ offset.toNat :=
      Nat.le_trans (Nat.min_le_left ..) h
    refine Rule.check_eq_ok.2 ?_
    simp only [rules, aligned, startsAt, List.forall_mem_cons, decide_eq_true_eq]
    exact ⟨Nat.mod_eq_zero_of_dvd ha.rx, Nat.mod_eq_zero_of_dvd ha.tx,
      Nat.mod_eq_zero_of_dvd ha.overflow, Nat.mod_eq_zero_of_dvd ha.worker,
      Nat.mod_eq_zero_of_dvd ha.stride, ho.overflow_ge, starts ho.tx_ge, starts ho.worker_ge,
      starts ho.stride_ge, List.forall_mem_nil _⟩

theorem sums_le_of_ordered (h : l.Ordered) : l.rxBase.toNat + l.span ≤ wordMax ∧
    l.txBase.toNat + l.span ≤ wordMax ∧ l.workerControl.toNat + lineSize ≤ wordMax :=
  ⟨Nat.le_trans h.tx_ge (toNat_le_wordMax _), Nat.le_trans h.worker_ge (toNat_le_wordMax _),
    Nat.le_trans h.stride_ge (toNat_le_wordMax _)⟩

/-- Where the last worker-control line of a region ends. -/
def regionEnd (l : Layout) (cores : Nat) : Nat :=
  (cores - 1) * l.stride.toNat + l.workerControl.toNat + lineSize

theorem regionSizeInWords?_eq_some {cores r : UInt64} : l.regionSizeInWords? cores = some r ↔
    cores = 0 ∧ r = 0 ∨ cores ≠ 0 ∧ r.toNat = l.regionEnd cores.toNat := by
  unfold regionSizeInWords?
  by_cases hcores : cores = 0
  · simp [hcores, eq_comm]
  have hpred : (cores - 1).toNat = cores.toNat - 1 := by
    have : 0 < cores.toNat := by
      rw [Nat.pos_iff_ne_zero]
      exact fun h => hcores (UInt64.toNat_inj.1 h)
    exact UInt64.toNat_sub_of_le _ _ (UInt64.le_iff_toNat_le.2 this)
  have hmul : l.stride.toNat * (cores.toNat - 1) = (cores.toNat - 1) * l.stride.toNat :=
    Nat.mul_comm ..
  rw [if_neg hcores, Option.bind_eq_bind, Option.bind_eq_some_iff]
  simp only [Option.bind_eq_some_iff, mul?_eq_some, add?_eq_some, hpred, toNat_lineWord, hcores,
    false_and, false_or, not_false_eq_true, true_and, ne_eq, regionEnd, hmul]
  constructor
  · rintro ⟨last, hlast, edge, hedge, hr⟩
    omega
  · intro hr
    have hmax := toNat_le_wordMax r
    obtain ⟨last, hlast⟩ := exists_toNat_eq (n := (cores.toNat - 1) * l.stride.toNat) (by omega)
    obtain ⟨edge, hedge⟩ := exists_toNat_eq (n := l.workerControl.toNat + lineSize) (by omega)
    exact ⟨last, hlast, edge, hedge, by omega⟩

theorem regionSize_eq_some {cores r : Nat} : l.regionSize cores = some r ↔
    cores = 0 ∧ r = 0 ∨ cores ≠ 0 ∧ r = l.regionEnd cores ∧ l.regionEnd cores ≤ wordMax := by
  have hend : l.stride.toNat * (cores - 1) + (l.workerControl.toNat + lineSize) =
      l.regionEnd cores := by
    rw [regionEnd, Nat.mul_comm, Nat.add_assoc]
  unfold regionSize
  by_cases hcores : cores = 0
  · simp [hcores, eq_comm]
  · rw [if_neg hcores, hend, checked?_eq_some]
    simp only [hcores, false_and, false_or, ne_eq, not_false_eq_true, true_and]
    exact and_comm

theorem map_regionSizeInWords? (l : Layout) (cores : UInt64) :
    (l.regionSizeInWords? cores).map UInt64.toNat = l.regionSize cores.toNat := by
  have hzero : cores.toNat = 0 ↔ cores = 0 := UInt64.toNat_inj (b := 0)
  refine Option.ext fun n => ?_
  simp only [Option.map_eq_some_iff, regionSizeInWords?_eq_some, regionSize_eq_some, hzero, ne_eq]
  constructor
  · rintro ⟨r, ⟨rfl, rfl⟩ | ⟨hcores, hr⟩, rfl⟩
    · exact .inl ⟨rfl, rfl⟩
    · exact .inr ⟨hcores, hr, hr ▸ toNat_le_wordMax r⟩
  · rintro (⟨rfl, rfl⟩ | ⟨hcores, rfl, hmax⟩)
    · exact ⟨0, .inl ⟨rfl, rfl⟩, rfl⟩
    · obtain ⟨r, hr⟩ := exists_toNat_eq hmax
      exact ⟨r, .inr ⟨hcores, hr⟩, hr⟩

/-- **The check of a layout is exact.** Although it computes with sums that are stopped at the
largest word, it accepts a layout exactly if, by sums without a bound, its offsets are multiples of
the line size and its parts are in order; no sum of an accepted layout was stopped. The size of a
region is known exactly if there are no windows or the last of them ends at a word. -/
theorem check_exact (l : Layout) :
    l.checkInWords = l.check ∧
    (l.check = .ok () ↔ l.Aligned ∧ l.Ordered) ∧
    (l.check = .ok () → l.rxBase.toNat + l.span ≤ wordMax ∧ l.txBase.toNat + l.span ≤ wordMax ∧
      l.workerControl.toNat + lineSize ≤ wordMax) ∧
    ∀ cores : UInt64, (l.regionSizeInWords? cores).map UInt64.toNat = l.regionSize cores.toNat ∧
      ((l.regionSizeInWords? cores).isSome ↔ cores = 0 ∨ l.regionEnd cores.toNat ≤ wordMax) ∧
      ∀ r, l.regionSizeInWords? cores = some r →
        cores = 0 ∧ r = 0 ∨ cores ≠ 0 ∧ r.toNat = l.regionEnd cores.toNat := by
  refine ⟨l.checkInWords_eq, check_eq_ok, fun h => sums_le_of_ordered (ordered_of_check h),
    fun cores => ⟨l.map_regionSizeInWords? cores, ?_, fun r => regionSizeInWords?_eq_some.1⟩⟩
  rw [Option.isSome_iff_exists]
  simp only [regionSizeInWords?_eq_some]
  constructor
  · rintro ⟨r, ⟨hcores, -⟩ | ⟨-, hr⟩⟩
    · exact .inl hcores
    · exact .inr (hr ▸ toNat_le_wordMax r)
  · intro h
    by_cases hcores : cores = 0
    · exact ⟨0, .inl ⟨hcores, rfl⟩⟩
    · obtain ⟨r, hr⟩ := exists_toNat_eq (h.resolve_left hcores)
      exact ⟨r, .inr ⟨hcores, hr⟩⟩

/-- A minimum that was stopped is missed by the last line there is. -/
example : check { rxBase := 0xffffffffffffff80, txBase := 0xffffffffffffff80 } =
    .error (.overlap "tx_base" 0xffffffffffffff80 wordMax) := by decide

end Layout
end LineExchange
