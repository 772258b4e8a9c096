import LineExchange.Config
import LineExchange.Proofs.Header.Accepted
import LineExchange.Proofs.Layout.Parts

/-!
# LineExchange.Proofs.Config

What `Config.check` accepts: a layout and a format that can be used, at least one core, and a
length field that describes every payload the layout has room for.
-/

namespace LineExchange
namespace Config

variable {c : Config}

theorem check_eq_ok : c.check = .ok () ↔ c.layout.check = .ok () ∧ c.format.check = .ok () ∧
    c.numCores ≠ 0 ∧ c.layout.payloadCapacity ≤ c.format.maxLength := by
  unfold check
  cases c.layout.check with
  | error e => simp
  | ok =>
    cases c.format.check with
    | error e => simp
    | ok =>
      by_cases hcores : c.numCores = 0
      · simp [hcores]
      · by_cases hlen : c.format.maxLength < c.layout.payloadCapacity
        · simp [hcores, hlen, Nat.not_le.2 hlen]
        · simp [hcores, hlen, Nat.not_lt.1 hlen]

theorem ordered_of_check (h : c.check = .ok ()) : c.layout.Ordered :=
  Layout.ordered_of_check (check_eq_ok.1 h).1

theorem accepted_of_check (h : c.check = .ok ()) : c.format.Accepted :=
  Format.check_eq_ok.1 (check_eq_ok.1 h).2.1

theorem numCores_pos_of_check (h : c.check = .ok ()) : 0 < c.numCores :=
  Nat.pos_of_ne_zero (check_eq_ok.1 h).2.2.1

theorem payloadCapacity_le_of_check (h : c.check = .ok ()) :
    c.layout.payloadCapacity ≤ c.format.maxLength := (check_eq_ok.1 h).2.2.2

end Config

/-- Settings for a single core whose overflow arrays have one line each. -/
def Exchange.narrow : Config where
  layout :=
    { txBase := 0x180, overflowLines := 1, workerControl := 0x300, stride := 0x380 }

theorem Exchange.check_narrow : narrow.check = .ok () := rfl

end LineExchange
