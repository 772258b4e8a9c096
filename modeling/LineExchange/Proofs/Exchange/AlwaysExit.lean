import LineExchange.Proofs.Exchange.Visits

/-!
# LineExchange.Proofs.Exchange.AlwaysExit

Runs of a host and of guards that are held outside of its calls. Anyone may call on any core with
any policy, take and drop guards, and change the memory in between.

* `Session.step_sound`, `Session.run_sound`: whatever is done, each core has been entered as often
  as it was left, but for the guards that are held.
* `Session.always_exit`: so the critical sections in flight are the guards that are held, and each
  call adds as many entries as exits: one of each if it enters, and none if it does not.
-/

namespace LineExchange

open Memory (controlByte stored)

/-- A host and the guards that are held outside of its calls, each given by its core. -/
structure Session (M : Type) where
  host : Host M
  guards : List Nat := []

namespace Session

/-- What can be done in a session. -/
inductive Move (M : Type) : Type 1 where
  | receive {σ : Type} (p : SpinPolicy σ) (t : σ) (o : Owner)
  | transmit {σ : Type} (p : SpinPolicy σ) (t : σ) (o : Owner) (d : Descriptor)
  | bringUp (p : SpinPolicy Unit) (fuel : Nat) (o : Owner)
  | claim (core : Nat) (next : Parity)
  | release (core : Nat)
  /-- One attempt to take a guard. -/
  | tryHold (core : Nat)
  /-- Attempts to take a guard until the policy gives up. -/
  | hold {σ : Type} (p : SpinPolicy σ) (t : σ) (core : Nat)
  /-- A guard is dropped, if there is one. -/
  | drop (core : Nat)
  /-- Anything else that happens to the memory. -/
  | outside (m : M)

variable {M : Type} [Memory M]

/-- Try to take a guard by a step on the gate that says whether it was entered. -/
def holdBy (core : Nat) (f : Gate → Bool × Gate) (s : Session M) : Session M :=
  match s.host.coreError? core with
  | some _ => s
  | none =>
    match Access.run (Host.onGate core f) s.host with
    | (.ok true, host) => ⟨host, core :: s.guards⟩
    | (_, host) => { s with host }

def step (s : Session M) : Move M → Session M
  | .receive p t o => { s with host := (Exchange.receiveWith p t ⟨s.host, o⟩).2.2.host }
  | .transmit p t o d => { s with host := (Exchange.transmitWith p t d ⟨s.host, o⟩).2.2.host }
  | .bringUp p fuel o =>
    { s with host := (Exchange.Step.run (Exchange.bringUp p fuel) ⟨s.host, o⟩).2.host }
  | .claim core next => { s with host := (Access.run (Host.claim core next) s.host).2 }
  | .release core => { s with host := s.host.release core }
  | .tryHold core => s.holdBy core fun g =>
    match g.tryEnter with
    | some inside => (true, inside)
    | none => (false, g)
  | .hold p t core => s.holdBy core fun g =>
    let (r, _, g) := g.enter p t
    (r = .entered, g)
  | .drop core =>
    if core ∈ s.guards then
      ⟨(Access.run (Host.onGate core fun g => ((), g.leave)) s.host).2, s.guards.erase core⟩
    else s
  | .outside m =>
    if Memory.size m = Memory.size s.host.memory then
      { s with host := { s.host with memory := m } }
    else s

def run (s : Session M) (moves : List (Move M)) : Session M := moves.foldl step s

/-- Each core has been entered as often as it was left, but for the guards that are held. -/
structure Sound (s : Session M) : Prop where
  counters_size : s.host.counters.size = s.host.config.numCores
  held : ∀ core ∈ s.guards, core < s.host.config.numCores ∧
    s.host.workerAt core < Memory.size s.host.memory
  balanced : ∀ core,
    (s.host.countersOf core).entries = (s.host.countersOf core).exits + s.guards.count core

namespace Sound

variable {s : Session M}

theorem of_same (hs : s.Sound) {h : Host M} (hconfig : h.config = s.host.config)
    (hcounters : h.counters = s.host.counters)
    (hsize : Memory.size h.memory = Memory.size s.host.memory) : Sound { s with host := h } where
  counters_size := by
    rw [hcounters, hconfig]
    exact hs.counters_size
  held core hcore := by
    rw [Host.workerAt, hconfig, hsize]
    exact hs.held core hcore
  balanced core := by
    rw [Host.countersOf, hcounters]
    exact hs.balanced core

theorem of_visits (hs : s.Sound) {σ : Type} {p : SpinPolicy σ} {core n : Nat} {h : Host M}
    (v : Visits p core n s.host h) : Sound { s with host := h } where
  counters_size := by
    rw [v.counters_size, v.config]
    exact hs.counters_size
  held c hc := by
    rw [Host.workerAt, v.config, v.size]
    exact hs.held c hc
  balanced c := by
    have := hs.balanced c
    by_cases hc : c = core
    · subst hc
      have := v.entries
      have := v.exits
      dsimp only
      omega
    · rw [v.others c hc]
      exact this

variable [LawfulMemory M]

theorem of_gate (hs : s.Sound) {core : Nat} {g : Gate} {guards : List Nat}
    (hcore : core < s.host.config.numCores)
    (hin : s.host.workerAt core < Memory.size s.host.memory)
    (hheld : ∀ c ∈ guards, c = core ∨ c ∈ s.guards)
    (hothers : ∀ c, c ≠ core → guards.count c = s.guards.count c)
    (hbalanced : g.counters.entries = g.counters.exits + guards.count core) :
    Sound ⟨s.host.withGate core g, guards⟩ where
  counters_size := Array.size_setIfInBounds.trans hs.counters_size
  held c hc := by
    have hsize := LawfulMemory.size_stored (M := M) g.byte hin
    show c < s.host.config.numCores ∧ s.host.workerAt c < Memory.size (stored _ _ s.host.memory)
    rw [hsize]
    rcases hheld c hc with rfl | hc
    · exact ⟨hcore, hin⟩
    · exact hs.held c hc
  balanced c := by
    rw [Host.countersOf_withGate (hs.counters_size.symm ▸ hcore)]
    by_cases hc : c = core
    · rw [if_pos hc, hc]
      exact hbalanced
    · rw [if_neg hc, hothers c hc]
      exact hs.balanced c

/-- A guard counts as an entry; an attempt that failed does not. -/
theorem holdBy (hs : s.Sound) {core : Nat} {f : Gate → Bool × Gate}
    (hf : ∀ g, (f g).2.counters.entries = g.counters.entries + (f g).1.toNat ∧
      (f g).2.counters.exits = g.counters.exits) : (s.holdBy core f).Sound := by
  unfold Session.holdBy
  cases hcore : s.host.coreError? core with
  | some e => exact hs
  | none =>
    rcases Nat.lt_or_ge (s.host.workerAt core) (Memory.size s.host.memory) with hin | hout
    · have hrun : Access.run (Host.onGate core f) s.host = _ := Host.ends_onGate f hin
      obtain ⟨hentries, hexits⟩ := hf (s.host.gateOf core)
      have hbefore : (s.host.gateOf core).counters.entries = _ := hs.balanced core
      rw [hrun]
      cases hentered : (f (s.host.gateOf core)).1 with
      | true =>
        rw [hentered] at hentries
        refine hs.of_gate (Host.lt_of_coreError? hcore) hin (fun c hc => List.mem_cons.1 hc)
          (fun c hc => List.count_cons_of_ne (Ne.symm hc)) ?_
        rw [hentries, hbefore, hexits, List.count_cons_self]
        exact Nat.add_assoc ..
      | false =>
        rw [hentered] at hentries
        refine hs.of_gate (Host.lt_of_coreError? hcore) hin (fun c hc => .inr hc)
          (fun c _ => rfl) ?_
        rw [hentries, hbefore, hexits]
        rfl
    · obtain ⟨e, he⟩ := Host.ends_onGate_outside f hout
      have hrun : Access.run (Host.onGate core f) s.host = _ := he
      rw [hrun]
      exact hs

end Sound

variable [LawfulMemory M] {s : Session M}

omit [Memory M] [LawfulMemory M] in
theorem keeps_claim {h : Host M} (core : Nat) (next : Parity) :
    Keeps (fun h' => h'.config = h.config ∧ h'.counters = h.counters ∧ h'.memory = h.memory)
      (Host.claim core next) := by
  refine .get_bind fun h' hh => ?_
  split
  · exact .pure _
  · split
    · exact .pure _
    · refine .bind ?_ fun _ => .bind (.set hh) fun _ => .pure _
      unfold Access.require
      split
      · exact .pure _
      · exact .throw _

/-- Whatever is done in a session, it stays sound. -/
theorem step_sound (hs : s.Sound) (m : Move M) : (s.step m).Sound := by
  cases m with
  | receive p t o =>
    exact hs.of_visits (Exchange.passes_receive (x := ⟨s.host, o⟩) hs.counters_size).1.visits
  | transmit p t o d =>
    exact hs.of_visits (Exchange.passes_transmit (x := ⟨s.host, o⟩) hs.counters_size d).visits
  | bringUp p fuel o =>
    exact hs.of_visits (Exchange.visits_bringUp (x := ⟨s.host, o⟩) hs.counters_size fuel).1
  | claim core next =>
    obtain ⟨hconfig, hcounters, hmemory⟩ :=
      (keeps_claim (h := s.host) core next).out (.intro _ s.host) ⟨rfl, rfl, rfl⟩
    exact hs.of_same hconfig hcounters (congrArg Memory.size hmemory)
  | release core => exact hs.of_same rfl rfl rfl
  | tryHold core =>
    refine hs.holdBy fun g => ?_
    unfold Gate.tryEnter
    cases g.isOpen <;> exact ⟨rfl, rfl⟩
  | hold p t core =>
    refine hs.holdBy fun g => ?_
    have spun := Gate.spun_enter (p := p) g t
    generalize g.enter p t = tries at spun ⊢
    obtain ⟨r, t', g'⟩ := tries
    dsimp only at spun ⊢
    cases spun <;> exact ⟨rfl, rfl⟩
  | drop core =>
    unfold step
    dsimp only
    split
    · next hheld =>
      obtain ⟨hcore, hin⟩ := hs.held core hheld
      have hrun : Access.run (Host.onGate core fun g => ((), g.leave)) s.host = _ :=
        Host.ends_onGate _ hin
      rw [hrun]
      refine hs.of_gate hcore hin (fun c hc => .inr (List.mem_of_mem_erase hc))
        (fun c hc => List.count_erase_of_ne hc) ?_
      have hbefore : (s.host.gateOf core).counters.entries = _ := hs.balanced core
      have hpos := List.count_pos_iff.2 hheld
      show (s.host.gateOf core).counters.entries = (s.host.countersOf core).exits + 1 + _
      rw [hbefore, List.count_erase_self]
      omega
    · exact hs
  | outside m =>
    unfold step
    dsimp only
    split
    · next hsize => exact hs.of_same rfl rfl hsize
    · exact hs

omit [LawfulMemory M] in
theorem start_sound {memory : M} {config : Config} {host : Host M}
    (h : Host.open? memory config = .ok host) : Sound ⟨host, []⟩ := by
  obtain ⟨-, hconfig, hcounters, -⟩ := Host.of_open? h
  refine ⟨?_, nofun, fun core => ?_⟩
  · rw [hcounters, hconfig, Array.size_replicate]
  · simp only [Host.countersOf, hcounters, Array.getD_eq_getD_getElem?, Array.getElem?_replicate]
    split <;> rfl

theorem run_sound (hs : s.Sound) (moves : List (Move M)) : (s.run moves).Sound := by
  induction moves generalizing s with
  | nil => exact hs
  | cons m moves ih => exact ih (step_sound hs m)

/-- **Always exit.** In every session on a host that could be opened, the critical sections in
flight on a core are the guards held for it. From there each receive and each transmit, with any
owner, policy and descriptor, adds one entry and one exit if it enters and none if it does not,
and a bring-up adds one of each for each of its receives that enters. On the way the control byte
changes only where policy and memory change it; `busy` is clear after a call that entered. -/
theorem always_exit {memory : M} {config : Config} {host : Host M}
    (h : Host.open? memory config = .ok host) (moves : List (Move M)) :
    let s := Session.run ⟨host, []⟩ moves
    (∀ core, (s.host.countersOf core).entries =
        (s.host.countersOf core).exits + s.guards.count core ∧
      (s.host.countersOf core).inFlight = s.guards.count core) ∧
    ∀ o : Owner,
      let x : Exchange M := ⟨s.host, o⟩
      (∀ {σ : Type} (p : SpinPolicy σ) (t : σ),
        let y := x.receiveWith p t
        Passes p o.core (x.entersGate p t) y.1 s.host y.2.2.host) ∧
      (∀ {σ : Type} (p : SpinPolicy σ) (t : σ) (d : Descriptor),
        let y := x.transmitWith p t d
        Passes p o.core (decide (d.payload.size ≤ s.host.config.layout.payloadCapacity) &&
          x.entersGate p t) y.1 s.host y.2.2.host) ∧
      ∀ (p : SpinPolicy Unit) (fuel : Nat),
        let y := Exchange.Step.run (Exchange.bringUp p fuel) x
        Visits p o.core (x.bringUpPasses p fuel) s.host y.2.host ∧
          ∀ n, y.1 = .ok n → x.bringUpPasses p fuel = n + 1 := by
  have hs := run_sound (start_sound h) moves
  refine ⟨fun core => ⟨hs.balanced core, ?_⟩, fun o => ⟨fun p t => ?_, fun p t d => ?_, ?_⟩⟩
  · rw [Counters.inFlight, hs.balanced core, Nat.add_sub_cancel_left]
  · exact (Exchange.passes_receive (x := ⟨_, o⟩) hs.counters_size).1
  · exact Exchange.passes_transmit (x := ⟨_, o⟩) hs.counters_size d
  · exact fun p fuel => Exchange.visits_bringUp (x := ⟨_, o⟩) hs.counters_size fuel

/-- What some moves make of a session that begins with the waiting call. -/
def afterMoves (moves : List (Move Region)) : Session Region :=
  .run ⟨.waitingCall, []⟩ moves

/-- A guard is held: it alone is in flight, and a poll is kept out. Once it is dropped, a poll
receives the call, another finds the second line empty, and a send is refused by the encoder. Each
of the three enters and leaves, so in the end as many entries are counted as exits. -/
theorem always_exit_guarded :
    let p := (SpinLimit.attempts 0).policy
    let first : Owner := .synced 0 Exchange.narrow {}
    let second : Owner := .synced 0 Exchange.narrow ⟨true, false⟩
    let unsendable : Descriptor := ⟨.error 9, .zeros 5⟩
    let held := afterMoves [.tryHold 0]
    let free := afterMoves [.tryHold 0, .receive p () first, .drop 0]
    let left := afterMoves [.tryHold 0, .receive p () first, .drop 0, .receive p () first,
      .receive p () second, .transmit p () first unsendable]
    let kept := Exchange.receiveWith p () ⟨held.host, first⟩
    let packet := Exchange.receiveWith p () ⟨free.host, first⟩
    let idle := Exchange.receiveWith p () ⟨free.host, second⟩
    let refused := Exchange.transmitWith p () unsendable ⟨free.host, first⟩
    (held.host.countersOf 0 = ⟨1, 0, 0⟩ ∧ held.guards = [0] ∧
        kept.1 = .error (.refused (.handshakeStuck 0 1)) ∧
      free.host.countersOf 0 = ⟨1, 1, 1⟩ ∧ free.guards = [] ∧
        packet.1.map (·.map fun r => r.transaction.kind) = .ok (some .call) ∧
        idle.1 = .ok none ∧
        refused.1 = .error (.refused (.unsupportedTransmit (.unsupportedKind .error))) ∧
      left.host.countersOf 0 = ⟨4, 4, 1⟩) ∧
    ((held.host.countersOf 0).inFlight = held.guards.count 0 ∧
      (left.host.countersOf 0).inFlight = left.guards.count 0) ∧
    Passes p 0 false kept.1 held.host kept.2.2.host ∧
      Passes p 0 true packet.1 free.host packet.2.2.host ∧
      Passes p 0 true idle.1 free.host idle.2.2.host ∧
      Passes p 0 true refused.1 free.host refused.2.2.host := by
  have hopen := Host.open_waitingCall
  have inFlight (moves : List (Move Region)) : ((afterMoves moves).host.countersOf 0).inFlight =
      (afterMoves moves).guards.count 0 := ((always_exit hopen moves).1 0).2
  have polls (p : SpinPolicy Unit) (moves : List (Move Region)) (o : Owner) {entered : Bool}
      (h : Exchange.entersGate p () ⟨(afterMoves moves).host, o⟩ = entered) :
      let y := Exchange.receiveWith p () ⟨(afterMoves moves).host, o⟩
      Passes p o.core entered y.1 (afterMoves moves).host y.2.2.host :=
    h ▸ ((always_exit hopen moves).2 o).1 p ()
  have sends (p : SpinPolicy Unit) (moves : List (Move Region)) (o : Owner) (d : Descriptor)
      {entered : Bool}
      (h : (decide (d.payload.size ≤ (afterMoves moves).host.config.layout.payloadCapacity) &&
        Exchange.entersGate p () ⟨(afterMoves moves).host, o⟩) = entered) :
      let y := Exchange.transmitWith p () d ⟨(afterMoves moves).host, o⟩
      Passes p o.core entered y.1 (afterMoves moves).host y.2.2.host :=
    h ▸ ((always_exit hopen moves).2 o).2.1 p () d
  dsimp only at polls sends ⊢
  refine ⟨by decide +kernel, ⟨inFlight _, inFlight _⟩, ?kept, ?packet, ?idle, ?refused⟩
  case kept => exact polls _ _ (.synced 0 _ _) (by decide +kernel)
  case packet => exact polls _ _ (.synced 0 _ _) (by decide +kernel)
  case idle => exact polls _ _ (.synced 0 _ _) (by decide +kernel)
  case refused => exact sends _ _ (.synced 0 _ _) _ (by decide +kernel)

end Session
end LineExchange
