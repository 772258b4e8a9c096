/-!
# LineExchange.Word

Sizes and offsets are 64-bit words. Sums of them are taken without a bound and then either
stopped at the largest word (`saturate`) or refused beyond it (`checked?`).
-/

namespace LineExchange

/-- The largest 64-bit word. -/
def wordMax : Nat := 0xffffffffffffffff

/-- A sum stopped at the largest word. -/
def saturate (n : Nat) : Nat := min n wordMax

/-- A sum, if it is a word. -/
def checked? (n : Nat) : Option Nat := if n ≤ wordMax then some n else none

theorem saturate_le_wordMax (n : Nat) : saturate n ≤ wordMax := Nat.min_le_right ..

theorem saturate_of_le {n : Nat} (h : n ≤ wordMax) : saturate n = n := Nat.min_eq_left h

theorem checked?_eq_some {n m : Nat} : checked? n = some m ↔ n ≤ wordMax ∧ m = n := by
  by_cases h : n ≤ wordMax
  · rw [checked?, if_pos h, Option.some.injEq]
    exact ⟨fun e => ⟨h, e.symm⟩, fun e => e.2.symm⟩
  · rw [checked?, if_neg h]
    exact iff_of_false (fun e => nomatch e) fun e => h e.1

theorem toNat_le_wordMax (w : UInt64) : w.toNat ≤ wordMax := by
  have := w.toNat_lt
  unfold wordMax
  omega

end LineExchange
