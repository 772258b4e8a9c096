import LineExchange.Proofs.Exchange.Section

/-!
# LineExchange.Proofs.Gate.Tries

Tries to enter a gate, call by call of the policy. `SpinPolicy.noting` is a policy that also lists
its calls in its state, so that the loop itself shows which calls it makes.

* `Gate.Tried`: how tries end in which the policy was called so. All that is told of a result, of
  the counters and of the control byte follows from the list of calls.
* `Gate.enter_noting`: whatever the policy does, tries to enter end so, and listing its calls
  changes nothing.
* `Gate.enter_following`: tries that come to an end do not depend on how long they are followed.
* `Gate.Tried.of_attempts`: a policy that allows `max` failed attempts is called at most `max + 1`
  times.
* `Gate.tries_counted`: all of this, and that a call on a host makes these tries at a core's gate.
-/

namespace LineExchange

open ControlByte (LetsIn setBusy)

/-- A call of a policy. -/
structure SpinCall where
  /-- The failed attempts that the policy was told of. -/
  failed : Nat
  /-- The control byte when it was called. -/
  found : UInt8
  /-- Its answer. -/
  again : Bool
  /-- The control byte when it answered. -/
  left : UInt8
deriving DecidableEq

namespace SpinCall

/-- The control byte after some calls, if only they change it. -/
def byteAfter (b : UInt8) (calls : List SpinCall) : UInt8 := calls.foldl (fun _ call => call.left) b

end SpinCall

namespace SpinPolicy

variable {σ : Type}

/-- The policy with a list of its calls, the first one first. -/
def noting (p : SpinPolicy σ) : SpinPolicy (σ × List SpinCall) where
  keepSpinning failed s b :=
    let (again, t, c) := p.keepSpinning failed s.1 b
    (again, (t, s.2 ++ [⟨failed, b, again, c⟩]), c)
  followed := p.followed

/-- The policy, followed for `n` failed attempts. -/
def following (p : SpinPolicy σ) (n : Nat) : SpinPolicy σ := { p with followed := n }

/-- The policy makes these calls one after the other, from a state and a control byte on, and
ends in a state. Each comes right after an attempt that failed: the byte is as the call before
left it, and does not let in. -/
def Makes (p : SpinPolicy σ) : σ → UInt8 → List SpinCall → σ → Prop
  | s, _, [], t => s = t
  | s, b, call :: calls, t => call.found = b ∧ ¬LetsIn b ∧
    ∃ s', p.keepSpinning call.failed s b = (call.again, s', call.left) ∧
      p.Makes s' call.left calls t

/-- The policy allows as many attempts as the limit. What it does to the control byte is free. -/
def Keeps (p : SpinPolicy σ) (l : SpinLimit) : Prop :=
  ∀ failed s b, (p.keepSpinning failed s b).1 = l.allows failed

theorem Makes.asked {p : SpinPolicy σ} {s t : σ} {b : UInt8} {calls : List SpinCall}
    (h : p.Makes s b calls t) :
    ∀ call ∈ calls,
      ∃ s t, p.keepSpinning call.failed s call.found = (call.again, t, call.left) := by
  induction calls generalizing s b with
  | nil => simp
  | cons call calls ih =>
    obtain ⟨rfl, -, s', hk, hrest⟩ := h
    intro other hother
    rcases List.mem_cons.1 hother with rfl | hother
    · exact ⟨s, s', hk⟩
    · exact ih hrest other hother

end SpinPolicy

namespace Gate

open SpinCall (byteAfter)

variable {σ : Type} {p : SpinPolicy σ}

/-- How tries to enter a gate end, after `failed` attempts that failed, in which the policy made
these calls. -/
structure Tried (p : SpinPolicy σ) (failed : Nat) (s : σ) (g : Gate) (calls : List SpinCall)
    (r : SpinResult) (t : σ) (g' : Gate) : Prop where
  made : p.Makes s g.byte calls t
  told : calls.map (·.failed) = List.range' (failed + 1) calls.length
  more : ∀ call ∈ calls.dropLast, call.again = true
  /-- The last attempt succeeded, and no call gave up before it. -/
  entered : r = .entered ↔ LetsIn (byteAfter g.byte calls) ∧ ∀ call ∈ calls, call.again = true
  /-- The last call gave up. -/
  stuck : ∀ n, r = .stuck n ↔
    n = failed + calls.length ∧ ∃ call, calls.getLast? = some call ∧ call.again = false
  endless : r = .endless ↔ ¬LetsIn (byteAfter g.byte calls) ∧ ∀ call ∈ calls, call.again = true
  counters : g'.counters = ⟨g.counters.entries + (if r = .entered then 1 else 0), g.counters.exits,
    g.counters.spins + (if r = .endless then 0 else failed + calls.length)⟩
  byte : g'.byte = if r = .entered then setBusy (byteAfter g.byte calls) true
    else byteAfter g.byte calls

namespace Tried

variable {failed : Nat} {s s' t : σ} {g g' : Gate} {r : SpinResult} {calls : List SpinCall}

/-- The first attempt succeeds. -/
theorem of_open (h : LetsIn g.byte) : Tried p failed s g [] .entered s ⟨setBusy g.byte true,
    ⟨g.counters.entries + 1, g.counters.exits, g.counters.spins + failed⟩⟩ := by
  constructor <;> simp [SpinPolicy.Makes, byteAfter, h]

/-- The first attempt fails, and no call is followed. -/
theorem of_closed (h : ¬LetsIn g.byte) : Tried p failed s g [] .endless s g := by
  constructor <;> simp [SpinPolicy.Makes, byteAfter, h]

/-- The first attempt fails, and the policy gives up. -/
theorem of_stop (h : ¬LetsIn g.byte) {b : UInt8}
    (hk : p.keepSpinning (failed + 1) s g.byte = (false, t, b)) :
    Tried p failed s g [⟨failed + 1, g.byte, false, b⟩] (.stuck (failed + 1)) t
      (({ g with byte := b } : Gate).addSpins (failed + 1)) := by
  constructor
  case made => exact ⟨rfl, h, t, hk, rfl⟩
  case stuck =>
    intro n
    simpa using eq_comm
  all_goals simp [byteAfter, addSpins]

/-- The first attempt fails, and the policy lets the tries go on from the byte it leaves. -/
theorem of_again (h : ¬LetsIn g.byte) {b : UInt8}
    (hk : p.keepSpinning (failed + 1) s g.byte = (true, s', b))
    (hrest : Tried p (failed + 1) s' { g with byte := b } calls r t g') :
    Tried p failed s g (⟨failed + 1, g.byte, true, b⟩ :: calls) r t g' := by
  have hlen : failed + (calls.length + 1) = failed + 1 + calls.length := by omega
  constructor
  case made => exact ⟨rfl, h, s', hk, hrest.made⟩
  case told => simp [hrest.told, List.range'_succ]
  case more =>
    cases calls with
    | nil => simp
    | cons call calls => simpa [List.dropLast] using hrest.more
  case entered => simpa [byteAfter] using hrest.entered
  case stuck =>
    intro n
    rw [List.length_cons, hlen, hrest.stuck n]
    cases calls with
    | nil => simp
    | cons call calls => simp [List.getLast?_cons]
  case endless => simpa [byteAfter] using hrest.endless
  case counters =>
    rw [List.length_cons, hlen]
    exact hrest.counters
  case byte => simpa [byteAfter] using hrest.byte

/-- A policy that allows `max` failed attempts is called at most so often before the owner is let
in, and once more before it gives up. -/
theorem of_attempts {max : Nat} (h : Tried p 0 s g calls r t g') (hp : p.Keeps (.attempts max)) :
    ((∀ n, r ≠ .stuck n) → calls.length ≤ max) ∧ ∀ n, r = .stuck n → n = max + 1 := by
  have answer : ∀ call ∈ calls, call.again = decide (call.failed ≤ max) := by
    intro call hcall
    obtain ⟨s, t, hk⟩ := h.made.asked call hcall
    have hallows := hp call.failed s call.found
    rw [hk] at hallows
    exact hallows
  -- the calls that allowed another attempt are those told of at most `max`
  have allowed (front : List SpinCall) (hfront : ∀ call ∈ front, call ∈ calls)
      (htold : front.map (·.failed) = List.range' 1 front.length)
      (hagain : ∀ call ∈ front, call.again = true) : front.length ≤ max := by
    by_contra hlong
    have hmem : front.length ∈ front.map (·.failed) := by
      rw [htold, List.mem_range'_1]
      omega
    obtain ⟨call, hcall, hfailed⟩ := List.mem_map.1 hmem
    have hmore := answer call (hfront call hcall)
    rw [hagain call hcall, hfailed] at hmore
    exact hlong (of_decide_eq_true hmore.symm)
  have htold : calls.map (·.failed) = List.range' 1 calls.length := by simpa using h.told
  constructor
  · intro hstuck
    refine allowed calls (fun _ hcall => hcall) htold ?_
    cases hr : r with
    | entered => exact (h.entered.1 hr).2
    | stuck n => exact absurd hr (hstuck n)
    | endless => exact (h.endless.1 hr).2
  · intro n hr
    obtain ⟨hn, call, hlast, hagain⟩ := (h.stuck n).1 hr
    obtain ⟨front, rfl⟩ := List.getLast?_eq_some_iff.1 hlast
    rw [List.map_append, List.length_append, List.length_singleton, List.range'_1_concat] at htold
    obtain ⟨hfront, hfailed⟩ := List.append_inj' htold rfl
    have hshort : front.length ≤ max := by
      refine allowed front (fun _ hcall => List.mem_append_left _ hcall) hfront ?_
      simpa using h.more
    have hmore := answer call (by simp)
    have hlong := of_decide_eq_false (hagain ▸ hmore).symm
    have hfailed : call.failed = 1 + front.length := by simpa using hfailed
    rw [List.length_append, List.length_singleton] at hn
    omega

end Tried

/-- The tries are the same with a list of the calls, and end as the list tells. -/
theorem spinFrom_noting (p : SpinPolicy σ) (fuel failed : Nat) (g : Gate) (s : σ)
    (log : List SpinCall) :
    ∃ calls, spinFrom p.noting fuel failed g (s, log) = ((spinFrom p fuel failed g s).1,
        ((spinFrom p fuel failed g s).2.1, log ++ calls), (spinFrom p fuel failed g s).2.2) ∧
      Tried p failed s g calls (spinFrom p fuel failed g s).1 (spinFrom p fuel failed g s).2.1
        (spinFrom p fuel failed g s).2.2 ∧
      ((spinFrom p fuel failed g s).1 = .endless → calls.length = fuel) := by
  induction fuel generalizing failed g s log with
  | zero =>
    by_cases h : g.isOpen = true
    · rw [spinFrom_open h, spinFrom_open h]
      exact ⟨[], by simp, .of_open (isOpen_iff.1 h), fun hendless => by cases hendless⟩
    · refine ⟨[], ?_, ?_, fun _ => rfl⟩
      · simp [spinFrom, tryEnter, h]
      · simp only [spinFrom, tryEnter, h]
        exact .of_closed (mt isOpen_iff.2 h)
  | succ fuel ih =>
    by_cases h : g.isOpen = true
    · rw [spinFrom_open h, spinFrom_open h]
      exact ⟨[], by simp, .of_open (isOpen_iff.1 h), fun hendless => by cases hendless⟩
    · have hclosed : ¬LetsIn g.byte := mt isOpen_iff.2 h
      rw [Bool.not_eq_true] at h
      cases hk : p.keepSpinning (failed + 1) s g.byte with
      | mk again rest =>
        obtain ⟨t, b⟩ := rest
        have hnoted : p.noting.keepSpinning (failed + 1) (s, log) g.byte =
            (again, (t, log ++ [⟨failed + 1, g.byte, again, b⟩]), b) := by
          simp [SpinPolicy.noting, hk]
        rw [spinFrom_closed again h hk, spinFrom_closed again h hnoted]
        cases again with
        | false =>
          refine ⟨[⟨failed + 1, g.byte, false, b⟩], rfl, .of_stop hclosed hk, ?_⟩
          intro hendless
          cases hendless
        | true =>
          obtain ⟨calls, hrun, htried, hlen⟩ := ih (failed + 1) { g with byte := b } t
            (log ++ [⟨failed + 1, g.byte, true, b⟩])
          refine ⟨⟨failed + 1, g.byte, true, b⟩ :: calls, ?_, .of_again hclosed hk htried, ?_⟩
          · rw [if_pos rfl, if_pos rfl, hrun, List.append_assoc]
            rfl
          · intro hendless
            rw [List.length_cons, hlen hendless]

theorem enter_noting (p : SpinPolicy σ) (s : σ) (g : Gate) :
    ∃ calls, g.enter p.noting (s, []) =
        ((g.enter p s).1, ((g.enter p s).2.1, calls), (g.enter p s).2.2) ∧
      Tried p 0 s g calls (g.enter p s).1 (g.enter p s).2.1 (g.enter p s).2.2 ∧
      ((g.enter p s).1 = .endless → calls.length = p.followed) :=
  spinFrom_noting p p.followed 0 g s []

/-- Following a policy for longer makes no difference to tries that have come to an end. -/
theorem spinFrom_following {fuel failed : Nat} {g : Gate} {s : σ}
    (h : (spinFrom p fuel failed g s).1 ≠ .endless) (n more : Nat) :
    spinFrom (p.following n) (fuel + more) failed g s = spinFrom p fuel failed g s := by
  induction fuel generalizing failed g s with
  | zero =>
    by_cases hopen : g.isOpen = true
    · rw [spinFrom_open hopen, spinFrom_open hopen]
    · simp [spinFrom, tryEnter, hopen] at h
  | succ fuel ih =>
    by_cases hopen : g.isOpen = true
    · rw [spinFrom_open hopen, spinFrom_open hopen]
    · rw [Bool.not_eq_true] at hopen
      rw [Nat.add_right_comm]
      cases hk : p.keepSpinning (failed + 1) s g.byte with
      | mk again rest =>
        obtain ⟨t, b⟩ := rest
        have hk' : (p.following n).keepSpinning (failed + 1) s g.byte = (again, t, b) := hk
        rw [spinFrom_closed again hopen hk] at h
        rw [spinFrom_closed again hopen hk, spinFrom_closed again hopen hk']
        cases again with
        | false => rfl
        | true => exact ih h

theorem enter_following {g : Gate} {s : σ} (h : (g.enter p s).1 ≠ .endless) {n : Nat}
    (hn : p.followed ≤ n) : g.enter (p.following n) s = g.enter p s := by
  obtain ⟨more, rfl⟩ := Nat.exists_eq_add_of_le hn
  exact spinFrom_following h _ more

end Gate

namespace Host

variable {M : Type} [Memory M] [LawfulMemory M]

theorem gateOf_withGate {host : Host M} {core : Nat} (g : Gate)
    (hcore : core < host.counters.size)
    (hin : host.workerAt core < Memory.size host.memory) :
    (host.withGate core g).gateOf core = g := by
  have hbyte : Memory.controlByte (host.workerAt core)
      (Memory.stored (host.workerAt core) g.byte host.memory) = g.byte := by
    rw [LawfulMemory.controlByte_stored g.byte hin, if_pos rfl]
  have hcounters : (host.withGate core g).countersOf core = g.counters := by
    rw [countersOf_withGate hcore, if_pos rfl]
  exact congrArg₂ Gate.mk hbyte hcounters

end Host

namespace Exchange

variable {M σ : Type} [Memory M] [LawfulMemory M]

/-- The tries of a call are tries to enter the gate of the owner's core. -/
theorem enter_gateOf (p : SpinPolicy σ) (s : σ) {x : Exchange M}
    (hcore : x.owner.core < x.host.counters.size)
    (hin : x.host.workerAt x.owner.core < Memory.size x.host.memory) :
    (x.enter p s).1 = entryOf x.owner.core ((x.host.gateOf x.owner.core).enter p s).1 ∧
      (x.enter p s).2.1 = ((x.host.gateOf x.owner.core).enter p s).2.1 ∧
      (x.enter p s).2.2.host.gateOf x.owner.core =
        ((x.host.gateOf x.owner.core).enter p s).2.2 := by
  rw [enter_eq hin]
  exact ⟨rfl, rfl, Host.gateOf_withGate _ hcore hin⟩

end Exchange

namespace Gate

variable {σ : Type}

/-- **Tries to enter, counted.** For every policy: listing its calls changes nothing, and the list
tells all of the result, of the counters and of the control byte. Tries that have come to an end
do not depend on how long the policy is followed. Under a policy that allows `max` failed attempts
there are at most `max + 1` attempts, and this is the number reported when it gives up. On a host
these are the tries of a call, at the gate of the owner's core. -/
theorem tries_counted (p : SpinPolicy σ) (s : σ) :
    (∀ g : Gate, ∃ calls, g.enter p.noting (s, []) =
        ((g.enter p s).1, ((g.enter p s).2.1, calls), (g.enter p s).2.2) ∧
      Tried p 0 s g calls (g.enter p s).1 (g.enter p s).2.1 (g.enter p s).2.2 ∧
      ((g.enter p s).1 = .endless → calls.length = p.followed) ∧
      ((g.enter p s).1 ≠ .endless →
        ∀ n, p.followed ≤ n → g.enter (p.following n) s = g.enter p s) ∧
      ∀ max, p.Keeps (.attempts max) → max < p.followed → (g.enter p s).1 ≠ .endless ∧
        calls.length + (if (g.enter p s).1 = .entered then 1 else 0) ≤ max + 1 ∧
        ∀ n, (g.enter p s).1 = .stuck n → n = max + 1) ∧
    ∀ (M : Type) [Memory M] [LawfulMemory M] (x : Exchange M),
      x.owner.core < x.host.counters.size →
      x.host.workerAt x.owner.core < Memory.size x.host.memory →
      (x.enter p s).1 = Exchange.entryOf x.owner.core
          ((x.host.gateOf x.owner.core).enter p s).1 ∧
        (x.enter p s).2.1 = ((x.host.gateOf x.owner.core).enter p s).2.1 ∧
        (x.enter p s).2.2.host.gateOf x.owner.core =
          ((x.host.gateOf x.owner.core).enter p s).2.2 := by
  constructor
  · intro g
    obtain ⟨calls, hnoting, htried, hendless⟩ := enter_noting p s g
    refine ⟨calls, hnoting, htried, hendless, fun h n hn => enter_following h hn, ?_⟩
    intro max hp hfollowed
    obtain ⟨hshort, hstuck⟩ := htried.of_attempts hp
    refine ⟨?_, ?_, hstuck⟩
    · intro h
      have := hshort (by simp [h])
      have := hendless h
      omega
    · cases hr : (g.enter p s).1 with
      | entered =>
        have := hshort (by simp [hr])
        simp
        omega
      | stuck n =>
        have := hstuck n hr
        have := ((htried.stuck n).1 hr).1
        simp
        omega
      | endless =>
        have := hshort (by simp [hr])
        simp
        omega
  · intro M _ _ x hcore hin
    exact Exchange.enter_gateOf p s hcore hin

/-- The policy makes the device ready at the second failed attempt. Another one allows two failed
attempts, and the device is never ready. -/
theorem tries_counted_ready :
    (∃ calls, (⟨0, {}⟩ : Gate).enter (SpinPolicy.counting 5 (some 2)).noting ([], []) =
        (.entered, ([2, 1], calls), ⟨3, ⟨1, 0, 2⟩⟩) ∧ calls.map (·.failed) = [1, 2]) ∧
      ∃ host : Host Region, Host.open? (Region.zeros 0x10000) {} = .ok host ∧
        let x : Exchange Region := ⟨host, .synced 0 {} {}⟩
        let p := (SpinLimit.attempts 2).policy
        (x.enter p ()).1 = .error (.refused (.handshakeStuck 0 3)) ∧
          ((x.enter p ()).2.2.host.gateOf 0).counters = ⟨0, 0, 3⟩ := by
  constructor
  · obtain ⟨calls, hnoting, htried, -⟩ :=
      (tries_counted (SpinPolicy.counting 5 (some 2)) []).1 ⟨0, {}⟩
    have hrun : (⟨0, {}⟩ : Gate).enter (SpinPolicy.counting 5 (some 2)) [] =
        (.entered, [2, 1], ⟨3, ⟨1, 0, 2⟩⟩) := by decide
    rw [hrun] at hnoting htried
    have hspins := congrArg Counters.spins htried.counters
    have hlen : calls.length = 2 := by simpa using hspins.symm
    have htold := htried.told
    rw [hlen] at htold
    exact ⟨calls, hnoting, htold⟩
  · have hsize : ({} : Config).regionSize ≤ Memory.size (Region.zeros 0x10000) := by
      show 0x10000 ≤ (Bytes.zeros 0x10000).size
      rw [Bytes.size_zeros]
    obtain ⟨host, hopen⟩ := Host.exists_open? rfl hsize
    refine ⟨host, hopen, ?_⟩
    obtain ⟨hmemory, hconfig, hcounters, -, -⟩ := Host.of_open? hopen
    have hgate : host.gateOf 0 = ⟨0, {}⟩ := by
      rw [Host.gateOf, Host.countersOf, hmemory, hcounters, Region.controlByte_eq]
      exact congrArg₂ Gate.mk (Bytes.byteAt_zeros ..) rfl
    have hin : host.workerAt 0 < Memory.size host.memory := by
      rw [Host.workerAt, hmemory, hconfig]
      exact Nat.lt_of_lt_of_le (by decide) hsize
    intro x p
    have hcore : 0 < host.counters.size := by
      rw [hcounters]
      decide
    obtain ⟨hend, -, hleft⟩ := (tries_counted p ()).2 Region x hcore hin
    have hstuck : (x.host.gateOf x.owner.core).enter p () = (.stuck 3, (), ⟨0, ⟨0, 0, 3⟩⟩) := by
      rw [show x.host.gateOf x.owner.core = _ from hgate]
      exact enter_attempts (by decide) 2
    rw [hstuck] at hend hleft
    exact ⟨hend, congrArg Gate.counters hleft⟩

end Gate
end LineExchange
