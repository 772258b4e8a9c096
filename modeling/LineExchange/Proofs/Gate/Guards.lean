import LineExchange.Gate.Contest
import LineExchange.Proofs.Gate.Enter

/-!
# LineExchange.Proofs.Gate.Guards

Who is inside a gate, over every run of a contest.

* `Contest.Counted`: the invariant of all runs. The entries are the exits and the actors inside.
* `Contest.get_run`: a parity is what the changes by actors inside have made of it.
* `Contest.Kept`: the invariant of the runs in which only the gate and the device change the
  control byte. At most one actor is inside, and `busy` tells whether one is.
* `Contest.Kept.step_enter`: an attempt to enter succeeds if the device is ready and nobody is
  inside.
* `Contest.guards_accounted`: what both say of every run.
-/

namespace LineExchange

open ControlByte (LetsIn isBusy isReady setBusy bit)

/-- What is done to a parity. -/
inductive ParityChange where
  | flip
  | put (v : Bool)
deriving DecidableEq

namespace ParityChange

def apply : Bool → ParityChange → Bool
  | b, flip => !b
  | _, put v => v

end ParityChange

/-- A limit leaves the control byte alone. -/
theorem SpinPolicy.Asked.of_limit {l : SpinLimit} {n : Nat} {b c : UInt8}
    (h : (l.policy.atMost n).Asked b c) : c = b := by
  induction h with
  | refl => rfl
  | tail _ hlast ih =>
    obtain ⟨failed, s, rfl⟩ := hlast
    exact ih

/-- What is left of a gate is left by tries to enter. -/
theorem Patience.spun (p : Patience) (g : Gate) : ∃ (σ : Type) (policy : SpinPolicy σ),
    Gate.Spun policy g (p.apply fun policy s => g.enter policy s).1
        (p.apply fun policy s => g.enter policy s).2.2 ∧
      ∀ l b, p = limit l → policy.Asked g.byte b → b = g.byte := by
  cases p with
  | limit l =>
    exact ⟨_, l.policy.atMost SpinLimit.patience, Gate.spun_enter g (), fun _ _ _ h => h.of_limit⟩
  | counting stop readyAt => exact ⟨_, .counting stop readyAt, Gate.spun_enter g [], nofun⟩

namespace Contest

/-- Nobody has come to the gate yet. -/
def start (core : Nat) (byte : UInt8) (next : Parity) : Contest :=
  { core, gate := { byte }, next }

def run (c : Contest) (moves : List Move) : Contest := moves.foldl (fun c m => (c.step m).2) c

/-- What a move does to the parity of a direction. -/
def changeOf (c : Contest) (d : Direction) : Move → List ParityChange
  | .toggle actor e => if c.isInside actor ∧ e = d then [.flip] else []
  | .setParity actor e v => if c.isInside actor ∧ e = d then [.put v] else []
  | _ => []

/-- What a run does to the parity of a direction, in order. -/
def changes (d : Direction) : Contest → List Move → List ParityChange
  | _, [] => []
  | c, m :: moves => c.changeOf d m ++ changes d (c.step m).2 moves

/-- Whether the device is ready after a move, if it was so before. -/
def Move.readyAfter (ready : Bool) : Move → Bool
  | .setReady v => v
  | _ => ready

/-- What the device said last, or at first. -/
def lastReady (ready : Bool) (moves : List Move) : Bool := moves.foldl Move.readyAfter ready

/-- Whether a move leaves the control byte to the gate and the device. A store does not, nor does a
policy that makes the device ready. -/
def Move.IsFair : Move → Prop
  | .store _ => False
  | .spin _ (.counting ..) => False
  | _ => True

variable {c : Contest} {m : Move} {actor : String} {d : Direction}

theorem isInside_iff : c.isInside actor = true ↔ actor ∈ c.inside := List.contains_iff_mem

@[simp] theorem inside_dismiss : (c.dismiss actor).inside = c.inside.erase actor := by
  unfold dismiss
  split
  · rfl
  · next h => exact (List.erase_of_not_mem (mt isInside_iff.2 h)).symm

@[simp] theorem next_letIn (g : Gate) : (c.letIn actor g).next = c.next := by
  unfold letIn
  split <;> rfl

@[simp] theorem next_dismiss : (c.dismiss actor).next = c.next := by
  unfold dismiss
  split <;> rfl

@[simp] theorem core_letIn (g : Gate) : (c.letIn actor g).core = c.core := by
  unfold letIn
  split <;> rfl

@[simp] theorem core_dismiss : (c.dismiss actor).core = c.core := by
  unfold dismiss
  split <;> rfl

theorem inside_clear (c : Contest) : c.clear.inside = [] := by
  have leave (actors : List String) (c : Contest) (h : c.inside = actors) :
      (actors.foldl dismiss c).inside = [] := by
    induction actors generalizing c with
    | nil => exact h
    | cons a actors ih =>
      refine ih (c.dismiss a) ?_
      rw [inside_dismiss, h, List.erase_cons_head]
  exact leave c.inside c rfl

/-- What a move can do: let in, let out, change a parity, give or take the window, or change no
more than the byte and the spins. -/
inductive Moved (c : Contest) : Move → Contest → Prop where
  | stay (m : Move) (b : UInt8) (spins : Nat) : (m.IsFair → b = c.gate.byte) →
    (∀ ready, m.readyAfter ready = ready) →
    Moved c m { c with gate := ⟨b, ⟨c.gate.counters.entries, c.gate.counters.exits, spins⟩⟩ }
  | letIn (m : Move) (actor : String) (b : UInt8) (spins : Nat) : LetsIn b →
    (m.IsFair → b = c.gate.byte) → (∀ ready, m.readyAfter ready = ready) →
    Moved c m (c.letIn actor ⟨setBusy b true,
      ⟨c.gate.counters.entries + 1, c.gate.counters.exits, spins⟩⟩)
  | dismiss (actor : String) : Moved c (.exit actor) (c.dismiss actor)
  | parity (m : Move) (next : Parity) : (∀ ready, m.readyAfter ready = ready) →
    Moved c m { c with next }
  | setReady (v : Bool) : Moved c (.setReady v) { c with gate := c.gate.setReady v }

theorem moved_spin (actor : String) (p : Patience) :
    Moved c (.spin actor p) (c.step (.spin actor p)).2 := by
  obtain ⟨σ, policy, hspun, hlimit⟩ := p.spun c.gate
  have hfair (b : UInt8) (hasked : policy.Asked c.gate.byte b) :
      (Move.spin actor p).IsFair → b = c.gate.byte := by
    intro hfair
    cases p with
    | limit l => exact hlimit l b rfl hasked
    | counting stop readyAt => exact hfair.elim
  cases hr : (p.apply fun policy s => c.gate.enter policy s) with
  | mk r rest =>
    obtain ⟨seen, g⟩ := rest
    rw [hr] at hspun
    simp only [step, hr]
    cases hspun with
    | entered spins hasked hopen => exact .letIn _ actor _ _ hopen (hfair _ hasked) fun _ => rfl
    | stuck attempts hasked => exact .stay _ _ _ (hfair _ hasked) fun _ => rfl
    | endless hasked => exact .parity _ c.next fun _ => rfl

theorem moved_step (c : Contest) (m : Move) : Moved c m (c.step m).2 := by
  have same (m : Move) (h : ∀ ready, m.readyAfter ready = ready) : Moved c m c :=
    .parity m c.next h
  have ifInside (m : Move) (actor : String) (v : Bool) (next : Parity)
      (h : ∀ ready, m.readyAfter ready = ready) : Moved c m (c.ifInside actor v next).2 := by
    unfold Contest.ifInside
    split
    · exact .parity m next h
    · exact same m h
  cases m with
  | enter actor =>
    unfold step Gate.tryEnter
    by_cases h : c.gate.isOpen = true
    · simp only [h, if_true]
      exact .letIn _ actor _ _ (Gate.isOpen_iff.1 h) (fun _ => rfl) fun _ => rfl
    · simp only [h]
      exact same _ fun _ => rfl
  | spin actor p => exact moved_spin actor p
  | exit actor => exact .dismiss actor
  | parity actor d => exact ifInside _ actor _ _ fun _ => rfl
  | toggle actor d => exact ifInside _ actor _ _ fun _ => rfl
  | setParity actor d v => exact ifInside _ actor _ _ fun _ => rfl
  | setReady v => exact .setReady v
  | store byte => exact .stay _ byte _ False.elim fun _ => rfl

/-- The invariant of all runs. -/
structure Counted (c : Contest) : Prop where
  balanced : c.gate.counters.entries = c.gate.counters.exits + c.inside.length
  distinct : c.inside.Nodup

theorem counted_start (core : Nat) (byte : UInt8) (next : Parity) :
    Counted (start core byte next) := ⟨rfl, .nil⟩

theorem Counted.letIn (h : Counted c) (actor : String) (b : UInt8) (spins : Nat) :
    Counted (c.letIn actor ⟨b, ⟨c.gate.counters.entries + 1, c.gate.counters.exits, spins⟩⟩) := by
  have hbalanced := h.balanced
  unfold Contest.letIn
  split
  · constructor
    case balanced =>
      dsimp only [Gate.leave]
      omega
    case distinct => exact h.distinct
  · next hout =>
    constructor
    case balanced =>
      dsimp only [List.length_cons]
      omega
    case distinct => exact List.nodup_cons.2 ⟨mt isInside_iff.2 hout, h.distinct⟩

theorem Counted.dismiss (h : Counted c) (actor : String) : Counted (c.dismiss actor) := by
  have hbalanced := h.balanced
  unfold Contest.dismiss
  split
  · next hin =>
    have hmem := isInside_iff.1 hin
    have hpos := List.length_pos_of_mem hmem
    constructor
    case balanced =>
      simp only [Gate.leave, List.length_erase_of_mem hmem]
      omega
    case distinct => exact h.distinct.erase actor
  · exact h

theorem counted_moved {c' : Contest} (h : Counted c) (hmoved : Moved c m c') : Counted c' := by
  cases hmoved with
  | stay _ b spins => exact ⟨h.balanced, h.distinct⟩
  | letIn _ actor b spins => exact h.letIn actor _ spins
  | dismiss actor => exact h.dismiss actor
  | parity _ next => exact ⟨h.balanced, h.distinct⟩
  | setReady v => exact ⟨h.balanced, h.distinct⟩

theorem counted_run (h : Counted c) (moves : List Move) : Counted (c.run moves) := by
  induction moves generalizing c with
  | nil => exact h
  | cons m moves ih => exact ih (counted_moved h (moved_step c m))

theorem counted_clear (h : Counted c) : Counted c.clear := by
  have leave (actors : List String) (c : Contest) (h : Counted c) :
      Counted (actors.foldl dismiss c) := by
    induction actors generalizing c with
    | nil => exact h
    | cons a actors ih => exact ih _ (h.dismiss a)
  exact leave c.inside c h

/-- The invariant of the runs whose moves are fair. -/
structure Kept (byte : UInt8) (ready : Bool) (c : Contest) : Prop where
  one : c.inside.length ≤ 1
  busy : isBusy c.gate.byte = true ↔ c.inside ≠ []
  ready : isReady c.gate.byte = ready
  others : ∀ i, 2 ≤ i → bit c.gate.byte i = bit byte i

variable {byte : UInt8} {ready : Bool}

theorem kept_start (core : Nat) (next : Parity) (h : isBusy byte = false) :
    Kept byte (isReady byte) (start core byte next) where
  one := Nat.zero_le 1
  busy := by simp [start, h]
  ready := rfl
  others _ _ := rfl

namespace Kept

theorem inside_nil (h : Kept byte ready c) (hbusy : isBusy c.gate.byte = false) :
    c.inside = [] := by
  by_contra hne
  have := h.busy.2 hne
  simp [hbusy] at this

/-- The next who is let in is alone. -/
theorem letIn (h : Kept byte ready c) (hopen : LetsIn c.gate.byte) (actor : String)
    (counters : Counters) :
    Kept byte ready (c.letIn actor ⟨setBusy c.gate.byte true, counters⟩) := by
  have hnobody := h.inside_nil hopen.2
  unfold Contest.letIn
  rw [if_neg (by simp [isInside_iff, hnobody])]
  constructor
  case one => simp [hnobody]
  case busy => simp
  case ready => simpa using h.ready
  case others =>
    intro i hi
    rw [ControlByte.bit_setBusy, if_neg (by omega)]
    exact h.others i hi

/-- Whoever leaves was alone. -/
theorem dismiss (h : Kept byte ready c) (actor : String) : Kept byte ready (c.dismiss actor) := by
  unfold Contest.dismiss
  split
  · next hin =>
    have hmem := isInside_iff.1 hin
    have hnobody : c.inside.erase actor = [] := by
      have hone := h.one
      have hpos := List.length_pos_of_mem hmem
      rw [← List.length_eq_zero_iff, List.length_erase_of_mem hmem]
      omega
    constructor
    case one => simp [hnobody]
    case busy => simp [hnobody, Gate.leave]
    case ready => simpa [Gate.leave] using h.ready
    case others =>
      intro i hi
      rw [Gate.leave, ControlByte.bit_setBusy, if_neg (by omega)]
      exact h.others i hi
  · exact h

theorem setReady (h : Kept byte ready c) (v : Bool) :
    Kept byte v { c with gate := c.gate.setReady v } where
  one := h.one
  busy := by simpa [Gate.setReady] using h.busy
  ready := by simp [Gate.setReady]
  others := by
    intro i hi
    rw [Gate.setReady, ControlByte.bit_setReady, if_neg (by omega)]
    exact h.others i hi

end Kept

theorem kept_moved {c' : Contest} (h : Kept byte ready c) (hfair : m.IsFair)
    (hmoved : Moved c m c') : Kept byte (m.readyAfter ready) c' := by
  cases hmoved with
  | stay _ b spins hb hready =>
    rw [hready, hb hfair]
    exact ⟨h.one, h.busy, h.ready, h.others⟩
  | letIn _ actor b spins hopen hb hready =>
    rw [hready]
    obtain rfl := hb hfair
    exact h.letIn hopen actor _
  | dismiss actor => exact h.dismiss actor
  | parity _ next hready =>
    rw [hready]
    exact ⟨h.one, h.busy, h.ready, h.others⟩
  | setReady v => exact h.setReady v

theorem kept_run (h : Kept byte ready c) (moves : List Move) (hfair : ∀ m ∈ moves, m.IsFair) :
    Kept byte (lastReady ready moves) (c.run moves) := by
  induction moves generalizing c ready with
  | nil => exact h
  | cons m moves ih =>
    obtain ⟨hm, hmoves⟩ := List.forall_mem_cons.1 hfair
    exact ih (kept_moved h hm (moved_step c m)) hmoves

theorem kept_clear (h : Kept byte ready c) : Kept byte ready c.clear := by
  have leave (actors : List String) (c : Contest) (h : Kept byte ready c) :
      Kept byte ready (actors.foldl dismiss c) := by
    induction actors generalizing c with
    | nil => exact h
    | cons a actors ih => exact ih _ (h.dismiss a)
  exact leave c.inside c h

/-- An attempt to enter, while nobody else sets `busy`. -/
theorem Kept.step_enter (h : Kept byte ready c) (actor : String) :
    (c.step (.enter actor)).1 =
        .entered (if ready = true ∧ c.inside = [] then some c.core else none) ∧
      (c.step (.enter actor)).2.inside =
        if ready = true ∧ c.inside = [] then [actor] else c.inside := by
  have hopen : c.gate.isOpen = true ↔ ready = true ∧ c.inside = [] := by
    rw [Gate.isOpen_iff, LetsIn, h.ready, ← Bool.not_eq_true, h.busy, not_not]
  by_cases hall : c.gate.isOpen = true
  · have hnobody := (hopen.1 hall).2
    rw [if_pos (hopen.1 hall), if_pos (hopen.1 hall)]
    simp [step, Gate.tryEnter, hall, Contest.letIn, Contest.isInside, hnobody]
  · rw [if_neg (mt hopen.2 hall), if_neg (mt hopen.2 hall)]
    simp [step, Gate.tryEnter, hall]

theorem core_run (c : Contest) (moves : List Move) : (c.run moves).core = c.core := by
  have core_moved {c c' : Contest} {m : Move} (hmoved : Moved c m c') : c'.core = c.core := by
    cases hmoved <;> simp
  induction moves generalizing c with
  | nil => rfl
  | cons m moves ih => exact (ih _).trans (core_moved (moved_step c m))

/-- A parity after a move: what the move does to it. -/
theorem get_step (c : Contest) (m : Move) (d : Direction) :
    (c.step m).2.next.get d = (c.changeOf d m).foldl ParityChange.apply (c.next.get d) := by
  cases m with
  | enter actor =>
    unfold step
    cases c.gate.tryEnter with
    | none => rfl
    | some g => simp [changeOf]
  | spin actor p =>
    cases hr : (p.apply fun policy s => c.gate.enter policy s) with
    | mk r rest =>
      obtain ⟨seen, g⟩ := rest
      simp only [step, hr]
      cases r with
      | entered => simp [changeOf]
      | stuck n => rfl
      | endless => rfl
  | exit actor => simp [step, changeOf]
  | parity actor e =>
    simp only [step, ifInside, changeOf]
    split <;> rfl
  | toggle actor e =>
    simp only [step, ifInside, changeOf]
    by_cases hin : c.isInside actor = true <;> by_cases hd : e = d <;>
      simp [hin, hd, Parity.toggle, ParityChange.apply]
  | setParity actor e v =>
    simp only [step, ifInside, changeOf]
    by_cases hin : c.isInside actor = true <;> by_cases hd : e = d <;>
      simp [hin, hd, ParityChange.apply]
  | setReady v => rfl
  | store byte => rfl

theorem get_run (c : Contest) (moves : List Move) (d : Direction) :
    (c.run moves).next.get d = (changes d c moves).foldl ParityChange.apply (c.next.get d) := by
  induction moves generalizing c with
  | nil => rfl
  | cons m moves ih =>
    rw [changes, List.foldl_append, ← get_step]
    exact ih (c.step m).2

/-- **Guards accounted for.** In every run, whatever is stored in the control byte: the entries are
the exits and the actors inside, and a parity is what the changes by actors inside have made of it,
in order. If the byte was not busy and the moves are fair, at most one actor is inside, and the bits
tell whether one is and what the device said last. An attempt to enter succeeds exactly if the
device is ready and nobody is inside. Once everyone has left, the byte is not busy. -/
theorem guards_accounted (core : Nat) (byte : UInt8) (next : Parity) (moves : List Move) :
    let c := (start core byte next).run moves
    let ready := lastReady (isReady byte) moves
    (c.gate.counters.entries = c.gate.counters.exits + c.inside.length ∧
      c.gate.counters.inFlight = c.inside.length ∧ c.inside.Nodup) ∧
    (∀ d, c.next.get d =
      (changes d (start core byte next) moves).foldl ParityChange.apply (next.get d)) ∧
    (c.clear.inside = [] ∧ c.clear.gate.counters.entries = c.clear.gate.counters.exits) ∧
    (isBusy byte = false → (∀ m ∈ moves, m.IsFair) →
      c.inside.length ≤ 1 ∧ (isBusy c.gate.byte = true ↔ c.inside ≠ []) ∧
      isReady c.gate.byte = ready ∧ (∀ i, 2 ≤ i → bit c.gate.byte i = bit byte i) ∧
      (∀ actor, (c.step (.enter actor)).1 =
          .entered (if ready = true ∧ c.inside = [] then some core else none) ∧
        (c.step (.enter actor)).2.inside =
          if ready = true ∧ c.inside = [] then [actor] else c.inside) ∧
      isBusy c.clear.gate.byte = false) := by
  intro c ready
  have hcounted : Counted c := counted_run (counted_start core byte next) moves
  have hnobody := inside_clear c
  refine ⟨⟨hcounted.balanced, ?_, hcounted.distinct⟩, ?_, ⟨hnobody, ?_⟩, ?_⟩
  · rw [Counters.inFlight, hcounted.balanced, Nat.add_sub_cancel_left]
  · exact get_run (start core byte next) moves
  · simpa [hnobody] using (counted_clear hcounted).balanced
  · intro hbusy hfair
    have hkept : Kept byte ready c := kept_run (kept_start core next hbusy) moves hfair
    refine ⟨hkept.one, hkept.busy, hkept.ready, hkept.others, ?_, ?_⟩
    · intro actor
      rw [← show c.core = core from core_run (start core byte next) moves]
      exact hkept.step_enter actor
    · have hleft := (kept_clear hkept).busy
      rw [hnobody] at hleft
      simpa using hleft

/-- One actor is inside when the device takes the window away. Another cannot enter. -/
theorem guards_accounted_two :
    let c := (start 0 1 {}).run [.enter "a", .enter "b", .toggle "a" .rx, .setReady false]
    isBusy 1 = false ∧ c.gate.counters.inFlight = c.inside.length ∧ c.next.get .rx = true ∧
      c.inside.length ≤ 1 ∧ isReady c.gate.byte = false ∧
      (c.step (.enter "b")).1 = .entered none ∧ isBusy c.clear.gate.byte = false := by
  intro c
  have hbusy : isBusy 1 = false := by decide
  have hfair : ∀ m ∈ ([.enter "a", .enter "b", .toggle "a" .rx, .setReady false] : List Move),
      m.IsFair := by
    simp [Move.IsFair]
  obtain ⟨hcounted, hparity, -, hkept⟩ :=
    guards_accounted 0 1 {} [.enter "a", .enter "b", .toggle "a" .rx, .setReady false]
  obtain ⟨hone, -, hready, -, henter, hleft⟩ := hkept hbusy hfair
  exact ⟨hbusy, hcounted.2.1, (hparity .rx).trans (by decide), hone, hready, (henter "b").1, hleft⟩

end Contest
end LineExchange
