import LineExchange.Proofs.Exchange.Section

/-!
# LineExchange.Proofs.Exchange.Drain

Draining, receive by receive, on any memory.

* `Exchange.Receives`: receives in a row that each received something, with what they received.
* `Receives.drain_eq`: draining makes them one after the other, each at the cost of one unit of
  fuel, and counts them. It goes on from where they end.
* `Exchange.ends_drain_none`, `ends_drain_error`: it comes to an end with the first receive that
  receives nothing or fails.
* `Exchange.bringUp_eq`: a bring-up drains once the lines are invalidated.
* `Exchange.Drains`, `Exchange.BringsUp`: all ways in which a drain or a bring-up goes, with what
  each of its receives came to.
-/

namespace LineExchange
namespace Exchange

variable {M : Type} [Memory M] {p : SpinPolicy Unit}

/-- From `x` each of these was received, one after the other; this led to `y`. -/
inductive Receives (p : SpinPolicy Unit) : Exchange M → List Received → Exchange M → Prop where
  | nil (x : Exchange M) : Receives p x [] x
  | cons {x y z : Exchange M} {received : Received} {rest : List Received} :
      Ends (receive p) x (.ok (some received)) y → Receives p y rest z →
        Receives p x (received :: rest) z

variable {x y z : Exchange M} {rs : List Received}

theorem Receives.snoc {received : Received} (h : Receives p x rs y)
    (hnext : Ends (receive p) y (.ok (some received)) z) : Receives p x (rs ++ [received]) z := by
  induction h with
  | nil _ => exact .cons hnext (.nil z)
  | cons hfirst _ ih => exact .cons hfirst (ih hnext)

theorem Receives.drain_eq (h : Receives p x rs y) (fuel drained : Nat) :
    Step.run (drain p (rs.length + fuel) drained) x =
      Step.run (drain p fuel (drained + rs.length)) y := by
  induction h generalizing drained with
  | nil x => rw [List.length_nil, Nat.zero_add, Nat.add_zero]
  | @cons x y z received rest hfirst _ ih =>
    have hfuel : (received :: rest).length + fuel = (rest.length + fuel) + 1 := by
      rw [List.length_cons]
      omega
    have hcount : drained + (received :: rest).length = drained + 1 + rest.length := by
      rw [List.length_cons]
      omega
    rw [hfuel, hcount, ← ih (drained + 1)]
    exact hfirst.bind (.intro (drain p (rest.length + fuel) (drained + 1)) y)

theorem ends_drain_none (h : Ends (receive p) x (.ok none) y) (fuel drained : Nat) :
    Ends (drain p (fuel + 1) drained) x (.ok drained) y := h.bind (.pure drained y)

theorem ends_drain_error {e : Stop} (h : Ends (receive p) x (.error e) y) (fuel drained : Nat) :
    Ends (drain p (fuel + 1) drained) x (.error e) y := h.bind_error

theorem bringUp_eq (hcore : x.host.coreError? x.owner.core = none)
    (hclear : Ends invalidateLines x (.ok ()) y) (fuel : Nat) :
    Step.run (bringUp p fuel) x = Step.run (drain p fuel 0) y :=
  (ends_checkCore hcore).bind (hclear.bind (.intro (drain p fuel 0) y))

/-! ## What the receives come to -/

/-- What the receives of a drain come to. -/
def drainReceives (p : SpinPolicy Unit) : (fuel : Nat) → Exchange M →
    List (Except Stop (Option Received))
  | 0, _ => []
  | fuel + 1, x =>
    let (r, y) := Step.run (receive p) x
    r :: match r with
      | .ok (some _) => drainReceives p fuel y
      | _ => []

/-- What the receives of a bring-up come to. -/
def bringUpReceives (p : SpinPolicy Unit) (fuel : Nat) (x : Exchange M) :
    List (Except Stop (Option Received)) :=
  match Step.run (checkCore >>= fun _ => invalidateLines) x with
  | (.ok (), y) => drainReceives p fuel y
  | (.error _, _) => []

/-- From `x`, after `drained` receives that found something, a drain makes receives that come to
`rs`; it comes to `r` and leaves `y`. -/
inductive Drains (p : SpinPolicy Unit) : (fuel drained : Nat) → Exchange M →
    List (Except Stop (Option Received)) → Except Stop Nat → Exchange M → Prop where
  | out (drained : Nat) (x : Exchange M) : Drains p 0 drained x [] (.error .endless) x
  | failed {fuel drained : Nat} {x y : Exchange M} {e : Stop} :
    Ends (receive p) x (.error e) y → Drains p (fuel + 1) drained x [.error e] (.error e) y
  | empty {fuel drained : Nat} {x y : Exchange M} :
    Ends (receive p) x (.ok none) y → Drains p (fuel + 1) drained x [.ok none] (.ok drained) y
  | received {fuel drained : Nat} {x y z : Exchange M} {packet : Received}
      {rs : List (Except Stop (Option Received))} {r : Except Stop Nat} :
    Ends (receive p) x (.ok (some packet)) y → Drains p fuel (drained + 1) y rs r z →
      Drains p (fuel + 1) drained x (.ok (some packet) :: rs) r z

theorem drains (p : SpinPolicy Unit) (fuel drained : Nat) (x : Exchange M) :
    Drains p fuel drained x (drainReceives p fuel x) (Step.run (drain p fuel drained) x).1
      (Step.run (drain p fuel drained) x).2 := by
  induction fuel generalizing x drained with
  | zero => exact .out drained x
  | succ fuel ih =>
    have receive := Ends.intro (Exchange.receive p) x
    unfold drainReceives Step.run
    generalize (ExceptT.run (Exchange.receive p)).run x = q at receive ⊢
    obtain ⟨r, y⟩ := q
    rcases r with e | _ | packet
    · have hrun : (ExceptT.run (drain p (fuel + 1) drained)).run x = (.error e, y) :=
        ends_drain_error receive fuel drained
      rw [hrun]
      exact .failed receive
    · have hrun : (ExceptT.run (drain p (fuel + 1) drained)).run x = (.ok drained, y) :=
        ends_drain_none receive fuel drained
      rw [hrun]
      exact .empty receive
    · have hrun : (ExceptT.run (drain p (fuel + 1) drained)).run x =
          (ExceptT.run (drain p fuel (drained + 1))).run y := receive.bind (.intro _ y)
      rw [hrun]
      exact .received receive (ih (drained + 1) y)

/-- The end of a receive, where the state of its policy does not matter. -/
theorem ends_receive {p : SpinPolicy Unit} {x y : Exchange M} {r : Except Stop (Option Received)}
    (h : Ends (receive p) x r y) : (x.receiveWith p ()).1 = r ∧ (x.receiveWith p ()).2.2 = y :=
  Prod.mk.inj h

/-- From `x` a bring-up makes receives that come to `rs`; it comes to `r` and leaves `y`. -/
inductive BringsUp (p : SpinPolicy Unit) (fuel : Nat) (x : Exchange M) :
    List (Except Stop (Option Received)) → Except Stop Nat → Exchange M → Prop where
  | unmapped {e : ExchangeError} : x.host.coreError? x.owner.core = some e →
    BringsUp p fuel x [] (.error (.refused e)) x
  | failed {e : Stop} {y : Exchange M} : Ends invalidateLines x (.error e) y →
    BringsUp p fuel x [] (.error e) y
  | drained {y z : Exchange M} {rs : List (Except Stop (Option Received))} {r : Except Stop Nat} :
    Ends invalidateLines x (.ok ()) y → Drains p fuel 0 y rs r z → BringsUp p fuel x rs r z

theorem bringsUp (p : SpinPolicy Unit) (fuel : Nat) (x : Exchange M) :
    BringsUp p fuel x (bringUpReceives p fuel x) (Step.run (bringUp p fuel) x).1
      (Step.run (bringUp p fuel) x).2 := by
  unfold bringUpReceives
  cases hcore : x.host.coreError? x.owner.core with
  | some e =>
    have hclear : Step.run (checkCore >>= fun _ => invalidateLines) x = (.error (.refused e), x) :=
      (ends_checkCore_refused hcore).bind_error
    have hrun : Step.run (bringUp p fuel) x = (.error (.refused e), x) :=
      (ends_checkCore_refused hcore).bind_error
    rw [hclear, hrun]
    exact .unmapped hcore
  | none =>
    have check := ends_checkCore hcore
    have lines := Ends.intro invalidateLines x
    generalize (ExceptT.run invalidateLines).run x = q at lines
    obtain ⟨r, y⟩ := q
    have hclear : Step.run (checkCore >>= fun _ => invalidateLines) x = (r, y) := check.bind lines
    rw [hclear]
    cases r with
    | error e =>
      have hrun : Step.run (bringUp p fuel) x = (.error e, y) := check.bind lines.bind_error
      rw [hrun]
      exact .failed lines
    | ok v =>
      rw [bringUp_eq hcore lines]
      exact .drained lines (drains p fuel 0 y)

end Exchange
end LineExchange
