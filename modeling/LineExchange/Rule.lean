/-!
# LineExchange.Rule

An ordered list of rules. A check names the first rule that is broken (`check`), so it passes
exactly when every rule holds (`check_eq_ok`).
-/

namespace LineExchange

/-- A condition and the error reported where it fails. -/
structure Rule (ε : Type) where
  holds : Bool
  error : ε

namespace Rule

variable {ε : Type}

/-- The error of the first broken rule. -/
def check : List (Rule ε) → Except ε Unit
  | [] => .ok ()
  | r :: rs => if r.holds then check rs else .error r.error

theorem mk_congr {p q : Prop} [Decidable p] [Decidable q] (h : p ↔ q) (e : ε) :
    (⟨p, e⟩ : Rule ε) = ⟨q, e⟩ := by
  rw [decide_eq_decide.2 h]

theorem check_eq_ok {rs : List (Rule ε)} : check rs = .ok () ↔ ∀ r ∈ rs, r.holds = true := by
  induction rs with
  | nil => simp [check]
  | cons r rs ih => by_cases h : r.holds <;> simp [check, h, ih]

theorem check_append (rs ss : List (Rule ε)) :
    check (rs ++ ss) = match check rs with
      | .ok () => check ss
      | .error e => .error e := by
  induction rs with
  | nil => simp [check]
  | cons r rs ih => by_cases h : r.holds <;> simp [check, h, ih]

end Rule
end LineExchange
