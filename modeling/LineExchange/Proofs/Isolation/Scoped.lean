import LineExchange.Proofs.Exchange.Section
import LineExchange.Proofs.Isolation.Confined
import LineExchange.Station

/-!
# LineExchange.Proofs.Isolation.Scoped

Rules for any scope from which the owner's core and the settings look the same. What a call keeps
to follows from its critical section, its gate and its tries to enter; what a station does at a gate
follows from the step on it.
-/

namespace LineExchange

variable {α σ : Type}

namespace Exchange

/-- How a call goes on after it has tried to enter. -/
def entered (core : Nat) (s : σ) : Except Fault (SpinResult × σ) → Except Stop Unit × σ
  | .error f => (.error (.fault f), s)
  | .ok (r, s) => (entryOf core r, s)

theorem enter_run {M : Type} [Memory M] (x : Exchange M) (p : SpinPolicy σ) (s : σ) : x.enter p s =
    let q := Access.run (Host.onGate x.owner.core fun g =>
      let (r, s, g) := g.enter p s
      ((r, s), g)) x.host
    ((entered x.owner.core s q.1).1, (entered x.owner.core s q.1).2, { x with host := q.2 }) := by
  unfold enter
  dsimp only
  generalize Access.run _ x.host = q
  obtain ⟨r, host⟩ := q
  cases r with
  | error f => rfl
  | ok v =>
    obtain ⟨r, s⟩ := v
    cases r <;> rfl

/-- A call, its result and the state of its policy taken together. -/
def paired {β : Type} (r : β × σ × Exchange Backing) : (β × σ) × Exchange Backing :=
  ((r.1, r.2.1), r.2.2)

/-- How a call goes on from its gate. -/
def resume (rest : Step Backing α) (r : Except Stop Unit × σ) (x : Exchange Backing) :
    (Except Stop α × σ) × Exchange Backing :=
  match r.1 with
  | .error e => ((.error e, r.2), x)
  | .ok () => (((Step.run rest x).1, r.2), (Step.run rest x).2)

/-- The transmit buffer comes back unless the call broke off. -/
def takeBack (r : Except Stop Unit × σ) (x : Exchange Backing) :
    (Except Stop Unit × σ) × Exchange Backing :=
  match r.1 with
  | .error (.fault f) => ((.error (.fault f), r.2), x)
  | r' => ((r', r.2), { x with owner := { x.owner with txBuffer := some ByteArray.empty } })

theorem entering_run (x : Exchange Backing) (p : SpinPolicy σ) (s : σ) (rest : Step Backing α) :
    paired (x.entering p s rest) =
      resume rest (paired (x.enter p s)).1 (paired (x.enter p s)).2 := by
  unfold entering
  obtain ⟨r, t, y⟩ := x.enter p s
  cases r <;> rfl

theorem transmitWith_run (x : Exchange Backing) (p : SpinPolicy σ) (s : σ) (d : Descriptor) :
    paired (x.transmitWith p s d) =
      takeBack (paired (x.transmitStaged p s d)).1 (paired (x.transmitStaged p s d)).2 := by
  unfold transmitWith
  obtain ⟨r, t, y⟩ := x.transmitStaged p s d
  rcases r with (_ | _ | _) | _ <;> rfl

variable {sc : Scope (Exchange Backing)}

theorem confined_entering_of {p : SpinPolicy σ} {s : σ} {rest : Step Backing α}
    (henter : Confined sc fun x => paired (x.enter p s)) (hrest : Local sc rest) :
    Confined sc fun x => paired (x.entering p s rest) := by
  simp only [entering_run]
  refine henter.bind (g := resume rest) ?_
  intro r
  obtain ⟨r, t⟩ := r
  cases r with
  | error e => exact .const _
  | ok _ => exact Confined.map hrest fun r => (r, t)

theorem confined_transmitWith_of {p : SpinPolicy σ} {s : σ} {d : Descriptor}
    (hback : ∀ v : Except Stop Unit × σ, Confined sc fun x : Exchange Backing =>
      (v, { x with owner := { x.owner with txBuffer := some ByteArray.empty } }))
    (hstaged : Confined sc fun x => paired (x.transmitStaged p s d)) :
    Confined sc fun x => paired (x.transmitWith p s d) := by
  simp only [transmitWith_run]
  refine hstaged.bind (g := takeBack) ?_
  intro r
  obtain ⟨r, t⟩ := r
  rcases r with (_ | _ | _) | _
  · exact hback _
  · exact .const _
  · exact hback _
  · exact hback _

theorem local_drain_of {p : SpinPolicy Unit}
    (hreceive : Local sc (receive p : Step Backing (Option Received))) (fuel drained : Nat) :
    Local sc (drain p fuel drained : Step Backing Nat) := by
  induction fuel generalizing drained with
  | zero => exact .throw _
  | succ fuel ih =>
    refine hreceive.bind fun r => ?_
    cases r with
    | none => exact .pure _
    | some r => exact ih (drained + 1)

variable (hcore : ∀ x y, sc.Holds x → sc.Holds y → sc.Own x y → x.owner.core = y.owner.core)
include hcore

theorem local_guarded_of {body : Step Backing α} (hbody : Local sc body)
    (hleave : ∀ x, sc.Holds x → Local sc
      (onHost (Host.onGate x.owner.core fun g => ((), g.leave)) : Step Backing Unit)) :
    Local sc (guarded body) := by
  have leave : Confined sc fun x : Exchange Backing =>
      Step.run (onHost (Host.onGate x.owner.core fun g => ((), g.leave))) x :=
    .choose (c := fun x : Exchange Backing => x.owner.core)
      (f := fun k => Step.run (onHost (Host.onGate k fun g => ((), g.leave)))) hcore hleave
  exact Confined.bind hbody fun r => Confined.map leave fun _ => r

theorem confined_enter_of {p : SpinPolicy σ} {s : σ}
    (htry : ∀ x, sc.Holds x → Confined sc fun y : Exchange Backing =>
      let q := Access.run (Host.onGate x.owner.core fun g =>
        let (r, s, g) := g.enter p s
        ((r, s), g)) y.host
      (q.1, { y with host := q.2 })) :
    Confined sc fun x => paired (x.enter p s) := by
  simp only [enter_run]
  refine .choose (c := fun x : Exchange Backing => x.owner.core) (f := fun k x =>
    let q := Access.run (Host.onGate k fun g =>
      let (r, s, g) := g.enter p s
      ((r, s), g)) x.host
    (entered k s q.1, { x with host := q.2 })) hcore ?_
  intro x hx
  exact Confined.map (htry x hx) (entered x.owner.core s)

variable (hconfig : ∀ x y, sc.Holds x → sc.Holds y → sc.Own x y → x.host.config = y.host.config)
include hconfig

theorem confined_receiveWith_of {p : SpinPolicy σ} {s : σ}
    (hentering : Confined sc fun x => paired (x.entering p s receiveEntered)) :
    Confined sc fun x => paired (x.receiveWith p s) := by
  refine .choose_of (c := fun x : Exchange Backing => x.host.coreError? x.owner.core) ?_ ?_
  · intro x y hx hy h
    simp only [Host.coreError?, hconfig x y hx hy h, hcore x y hx hy h]
  · intro x _
    cases x.host.coreError? x.owner.core with
    | some e =>
      refine ⟨_, .const (.error (.refused e), s), ?_⟩
      intro y hy
      rw [receiveWith, hy]
      rfl
    | none =>
      refine ⟨_, hentering, ?_⟩
      intro y hy
      rw [receiveWith, hy]

/-- A transmit may rely on it that the payload fits. -/
theorem confined_transmitStaged_of {p : SpinPolicy σ} {s : σ} {d : Descriptor}
    (habort : Local sc (count fun t => { t with aborted := t.aborted + 1 } : Step Backing Unit))
    (hentering : ∀ x, sc.Holds x → d.payload.size ≤ x.host.config.layout.payloadCapacity →
      Confined sc fun x => paired (x.entering p s (transmitEntered d))) :
    Confined sc fun x => paired (x.transmitStaged p s d) := by
  refine .choose_of (c := fun x : Exchange Backing =>
    (x.host.coreError? x.owner.core, x.host.config.layout.payloadCapacity)) ?_ ?_
  · intro x y hx hy h
    simp only [Host.coreError?, hconfig x y hx hy h, hcore x y hx hy h]
  · intro x hx
    have hfits := hentering x hx
    generalize x.host.config.layout.payloadCapacity = capacity at hfits
    cases x.host.coreError? x.owner.core with
    | some e =>
      refine ⟨_, .const (.error (.refused e), s), ?_⟩
      intro y hy
      rw [transmitStaged, (Prod.mk.inj hy).1]
      rfl
    | none =>
      by_cases hd : capacity < d.payload.size
      · refine ⟨_, Confined.map habort fun _ =>
          (.error (.refused (.payloadTooLarge d.payload.size capacity)), s), ?_⟩
        intro y hy
        simp only [transmitStaged, (Prod.mk.inj hy).1, (Prod.mk.inj hy).2, if_pos hd]
        rfl
      · refine ⟨_, hfits (Nat.not_lt.1 hd), ?_⟩
        intro y hy
        simp only [transmitStaged, (Prod.mk.inj hy).1, (Prod.mk.inj hy).2, if_neg hd]

end Exchange

namespace Station

/-- What a station makes of a claim at its host. -/
def settle (core : Nat) (r : Except Fault (Except ExchangeError Owner)) (s : Station) :
    Outcome × Station :=
  match r with
  | .ok (.ok o) => (.done, { s with owners := Function.update s.owners core (some o) })
  | .ok (.error e) => (.refused e, s)
  | .error f => (.fault f, s)

theorem claim_eq (s : Station) (core : Nat) (next : Parity) : s.claim core next =
    settle core (Access.run (Host.claim core next) s.host).1
      { s with host := (Access.run (Host.claim core next) s.host).2 } := by
  unfold claim
  obtain ⟨r, host⟩ := Access.run (Host.claim core next) s.host
  rcases r with f | e | o <;> rfl

/-- An attempt at a gate, and whether it succeeded. -/
def attempt (g : Gate) : Bool × Gate :=
  match g.tryEnter with
  | some inside => (true, inside)
  | none => (false, g)

/-- A guard that was taken is held. -/
def keep (core : Nat) (a : Outcome) (s : Station) : Outcome × Station :=
  match a with
  | .held true =>
    (.held true, { s with guards := Function.update s.guards core (s.guards core + 1) })
  | a => (a, s)

theorem hold_eq (s : Station) (core : Nat) : s.hold core =
    keep core (s.onGate core .held attempt).1 (s.onGate core .held attempt).2 := by
  unfold hold
  generalize hq : s.onGate core .held _ = q
  have hattempt : s.onGate core .held attempt = q := hq
  rw [hattempt]
  obtain ⟨a, t⟩ := q
  rcases a with _ | _ | _ | _ | _ | ⟨_ | _⟩ | _ | _ | _ | _ | _ <;> rfl

variable {sc : Scope Station} {core : Nat}

theorem confined_onGate_of {say : α → Outcome} {f : Gate → α × Gate}
    (hmapped : ∀ s t, sc.Holds s → sc.Holds t → sc.Own s t →
      s.host.coreError? core = t.host.coreError? core)
    (haccess : Confined sc fun s => s.onHost say (Host.onGate core f)) :
    Confined sc fun s => s.onGate core say f := by
  refine .choose_of (c := fun s : Station => s.host.coreError? core) hmapped ?_
  intro s _
  cases s.host.coreError? core with
  | some e =>
    refine ⟨_, .const (.refused e), ?_⟩
    intro t ht
    rw [onGate, ht]
  | none =>
    refine ⟨_, haccess, ?_⟩
    intro t ht
    rw [onGate, ht]

theorem confined_hold_of (hattempt : Confined sc fun s => s.onGate core .held attempt)
    (htake : Confined sc fun s => (Outcome.held true,
      { s with guards := Function.update s.guards core (s.guards core + 1) })) :
    Confined sc fun s => s.hold core := by
  simp only [hold_eq]
  refine hattempt.bind (g := keep core) ?_
  intro a
  rcases a with _ | _ | _ | _ | _ | ⟨_ | _⟩ | _ | _ | _ | _ | _
  all_goals first | exact htake | exact .const _

theorem confined_leave_of
    (hguards : ∀ s t, sc.Holds s → sc.Holds t → sc.Own s t → s.guards core = t.guards core)
    (hdrop : Confined sc fun s : Station =>
      ((), { s with guards := Function.update s.guards core (s.guards core - 1) }))
    (hleave : Confined sc fun s => s.onGate core (fun _ => .done) fun g => ((), g.leave)) :
    Confined sc fun s => s.leave core := by
  refine .choose (c := fun s : Station => s.guards core) (f := fun k s =>
    if k = 0 then (.absent, s)
    else { s with guards := Function.update s.guards core (s.guards core - 1) }.onGate core
      (fun _ => .done) fun g => ((), g.leave)) hguards ?_
  intro s _
  split
  · exact .const _
  · exact hdrop.bind fun _ => hleave

end Station
end LineExchange
