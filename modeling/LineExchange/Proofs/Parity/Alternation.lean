import LineExchange.Proofs.Exchange.Accesses
import LineExchange.Station
import Mathlib.Data.List.Iterate

/-!
# LineExchange.Proofs.Parity.Alternation

Exchanges of a direction use its two control lines in turn, on any memory. An owner makes calls
one after the other, and between them anything may happen to its host (`Turn`).

* `Call.parity_make`: a call flips the parity of a direction once for each of its exchanges in it.
  If it broke off, it may have flipped it once more.
* `Call.lines_make`: the lines that a call uses, as seen from its accesses, start with the one
  that the owner expects and then alternate.
* `Exchange.alternates`: so it is for every run in which the owner does not resynchronise.
-/

namespace LineExchange

theorem Parity.get_iterate_toggle (p : Parity) (d e : Direction) (n : Nat) :
    ((Parity.toggle · d)^[n] p).get e = if d = e then Bool.not^[n] (p.get e) else p.get e := by
  induction n generalizing p with
  | zero => split <;> rfl
  | succ n ih =>
    rw [Function.iterate_succ_apply, ih, Parity.toggle, Parity.get_set]
    split
    · next h =>
      subst h
      rfl
    · rfl

namespace Layout

/-- The parity of the control line at an offset of the region. -/
def parityAt? (l : Layout) (core : Nat) (d : Direction) (offset : Nat) : Option Bool :=
  if offset = l.controlAt core d false then some false
  else if offset = l.controlAt core d true then some true
  else none

variable {l : Layout} {core : Nat} {d : Direction}

theorem controlAt_eq (core : Nat) (d : Direction) (parity : Bool) :
    l.controlAt core d parity = l.coreBase core + l.directionBase d + parity.toNat * lineSize :=
  (Nat.add_assoc ..).symm

theorem parityAt?_controlAt (parity : Bool) :
    l.parityAt? core d (l.controlAt core d parity) = some parity := by
  have hpos : 0 < lineSize := by decide
  unfold parityAt?
  cases parity with
  | false => rw [if_pos rfl]
  | true =>
    rw [if_neg, if_pos rfl]
    rw [controlAt_eq, controlAt_eq, Bool.toNat_true, Bool.toNat_false]
    omega

theorem parityAt?_overflowAt (h : l.Ordered) : l.parityAt? core d (l.overflowAt core d) = none := by
  have hge := h.overflow_ge
  have hpos : 0 < lineSize := by decide
  have hat : l.overflowAt core d = l.coreBase core + l.directionBase d + l.overflowOffset.toNat :=
    (Nat.add_assoc ..).symm
  have hne (parity : Bool) : l.overflowAt core d ≠ l.controlAt core d parity := by
    have hle : parity.toNat * lineSize ≤ 1 * lineSize := Nat.mul_le_mul_right _ (Bool.toNat_le _)
    rw [hat, controlAt_eq]
    omega
  rw [parityAt?, if_neg (hne _), if_neg (hne _)]

end Layout

/-- The parity of the control line that an exchange is seen to use: a receive reads it, and a
transmit touches the other one. -/
def LogEntry.line? (l : Layout) (core : Nat) : Direction → LogEntry → Option Bool
  | .rx, .read offset _ => l.parityAt? core .rx offset
  | .tx, .touch offset => (l.parityAt? core .tx offset).map not
  | _, _ => none

namespace Exchange

/-- The control lines of a direction that exchanges are seen to use, by their parities. -/
def linesUsed (l : Layout) (core : Nat) (d : Direction) (log : List LogEntry) : List Bool :=
  log.filterMap (·.line? l core d)

variable {l : Layout} {core : Nat}

theorem linesUsed_append (d : Direction) (log log' : List LogEntry) :
    linesUsed l core d (log ++ log') = linesUsed l core d log ++ linesUsed l core d log' :=
  List.filterMap_append

theorem linesUsed_invalidateLog (d : Direction) (k : Nat) :
    linesUsed l core d (invalidateLog l k) = [] := by
  refine List.filterMap_eq_nil_iff.2 fun e he => ?_
  obtain ⟨offset, -, rfl⟩ := List.mem_map.1 he
  cases d <;> rfl

theorem linesUsed_overflowRead (h : l.Ordered) (d : Direction) (len : Nat) :
    linesUsed l core d (overflowRead l core len) = [] := by
  unfold overflowRead
  split
  · cases d with
    | rx =>
      have hline : (LogEntry.read (l.overflowAt core .rx) (len - inlineSize)).line? l core .rx =
          none := l.parityAt?_overflowAt h
      exact List.filterMap_cons_none hline
    | tx => rfl
  · rfl

theorem linesUsed_overflowWrite (d : Direction) (len : Nat) :
    linesUsed l core d (overflowWrite l core len) = [] := by
  unfold overflowWrite
  split
  · cases d <;> rfl
  · rfl

/-- A receive uses the line that comes next, if it makes an exchange at all. -/
theorem linesUsed_receiveLog (h : l.Ordered) (d : Direction) (parity : Bool)
    (r : Except Stop (Option Received)) :
    linesUsed l core d (receiveLog l core parity r) =
      if d = .rx then List.iterate not parity (polled r).toNat else [] := by
  have control (rest : List LogEntry) (hrest : linesUsed l core d rest = []) :
      linesUsed l core d (.read (l.controlAt core .rx parity) lineSize :: rest) =
        if d = .rx then [parity] else [] := by
    cases d with
    | rx =>
      have hline : (LogEntry.read (l.controlAt core .rx parity) lineSize).line? l core .rx =
          some parity := l.parityAt?_controlAt parity
      exact (List.filterMap_cons_some hline).trans (congrArg (parity :: ·) hrest)
    | tx => exact hrest
  have none : (if d = .rx then List.iterate not parity 0 else []) = [] := ite_self _
  rcases r with (e | _ | _) | _ | r
  · cases e with
    | overflowExceeded len capacity => exact control [] rfl
    | _ => exact none.symm
  · exact none.symm
  · exact none.symm
  · exact control [] rfl
  · exact control _ (linesUsed_overflowRead h d _)

/-- A transmit uses the line that comes next, if it makes an exchange at all. -/
theorem linesUsed_transmitLog (d : Direction) (parity : Bool) (len : Nat) (r : Except Stop Unit) :
    linesUsed l core d (transmitLog l core parity len r) =
      if d = .tx then List.iterate not parity (rang r).toNat else [] := by
  have touch : linesUsed l core d [.touch (l.controlAt core .tx !parity)] =
      if d = .tx then [parity] else [] := by
    cases d with
    | rx => rfl
    | tx =>
      have hline : (LogEntry.touch (l.controlAt core .tx !parity)).line? l core .tx =
          some parity := by
        rw [LogEntry.line?, l.parityAt?_controlAt, Option.map_some, Bool.not_not]
      exact List.filterMap_cons_some hline
  have write (offset n : Nat) (rest : List LogEntry) :
      linesUsed l core d (.write offset n :: rest) = linesUsed l core d rest := by
    cases d <;> rfl
  have none : (if d = .tx then List.iterate not parity 0 else []) = [] := ite_self _
  rcases r with (e | _ | _) | _
  · cases e with
    | unsupportedTransmit e => exact touch
    | _ => exact none.symm
  · exact none.symm
  · exact none.symm
  · rw [transmitLog, linesUsed_append, linesUsed_overflowWrite, List.nil_append, write]
    exact touch

variable {M : Type} [Memory M] {w : Watch M} {c : Config} {size : Nat} {next : Parity}
  {es : List LogEntry} {x : Exchange M}

/-- The receives of a drain use the two lines in turn. -/
theorem Watched.linesUsed_drainLog (hx : Watched w c core size next es x) (d : Direction)
    (p : SpinPolicy Unit) (fuel : Nat) :
    linesUsed c.layout core d (drainLog p fuel x) =
      if d = .rx then List.iterate not next.rx (drainPolls p fuel x) else [] := by
  have hl : c.layout.Ordered := hx.config ▸ x.host.ordered
  induction fuel generalizing x next es with
  | zero => exact (ite_self _).symm
  | succ fuel ih =>
    have received := hx.receiveWith p ()
    have hrun : Step.run (receive p) x = ((x.receiveWith p ()).1, (x.receiveWith p ()).2.2) := rfl
    unfold drainLog drainPolls
    rw [hrun, hx.config, hx.core, hx.next]
    dsimp only at received ⊢
    generalize (x.receiveWith p ()).1 = r at received ⊢
    generalize (x.receiveWith p ()).2.2 = z at received ⊢
    rw [linesUsed_append, linesUsed_receiveLog hl]
    rcases r with e | _ | packet
    · exact List.append_nil _
    · exact List.append_nil _
    · dsimp only
      have hwhole := received.whole fun f hf => by cases hf
      rw [ih hwhole]
      cases d with
      | rx => rw [if_pos rfl, if_pos rfl, if_pos rfl, List.iterate_add]; rfl
      | tx => rfl

theorem write_not_mem_bringUpLog {offset len : Nat} (p : SpinPolicy Unit) (fuel : Nat)
    (x : Exchange M) : .write offset len ∉ bringUpLog p fuel x := by
  intro h
  unfold bringUpLog at h
  split at h
  · rcases List.mem_append.1 h with h | h
    · obtain ⟨_, -, he⟩ := List.mem_map.1 h
      cases he
    · obtain ⟨_, _, he⟩ := read_of_mem_drainLog h
      cases he
  · cases h

/-- The control line that a transmit writes is the next one; then it has made an exchange. -/
theorem write_mem_transmitLog (hl : l.Ordered) {parity q : Bool} {len n : Nat}
    {r : Except Stop Unit}
    (h : .write (l.controlAt core .tx q) n ∈ transmitLog l core parity len r) :
    q = parity ∧ rang r = true := by
  have hcontrol (p : Bool) : l.parityAt? core .tx (l.controlAt core .tx p) = some p :=
    l.parityAt?_controlAt p
  rcases r with (e | _ | _) | _
  · cases e with
    | unsupportedTransmit e => cases List.mem_singleton.1 h
    | _ => cases h
  · cases h
  · cases h
  · rcases List.mem_append.1 h with h | h
    · unfold overflowWrite at h
      split at h
      · have hq := hcontrol q
        rw [(LogEntry.write.inj (List.mem_singleton.1 h)).1, l.parityAt?_overflowAt hl] at hq
        cases hq
      · cases h
    · rcases List.mem_cons.1 h with h | h
      · have hq := hcontrol q
        rw [(LogEntry.write.inj h).1, hcontrol] at hq
        exact ⟨(Option.some.inj hq).symm, rfl⟩
      · cases List.mem_singleton.1 h

theorem Watched.linesUsed_bringUpLog (hx : Watched w c core size next es x) (d : Direction)
    (p : SpinPolicy Unit) (fuel : Nat) :
    linesUsed c.layout core d (bringUpLog p fuel x) =
      if d = .rx then List.iterate not next.rx (bringUpPolls p fuel x) else [] := by
  have clear := (Watched.meets_clear (E := fun _ _ => True) (fun _ _ _ => trivial)
    fun _ _ _ => trivial).out (.intro _ x) hx
  unfold bringUpLog bringUpPolls
  cases hclear : Step.run (checkCore >>= fun _ => invalidateLines) x with
  | mk r z =>
    have hrun : (ExceptT.run (checkCore >>= fun _ => invalidateLines : Step M Unit)).run x =
        (r, z) := hclear
    rw [hrun] at clear
    cases r with
    | error e => exact (ite_self _).symm
    | ok _ =>
      have hz : Watched w c core size next _ z := clear
      dsimp only
      rw [hx.config, hx.core, linesUsed_append, linesUsed_invalidateLog, List.nil_append]
      exact hz.linesUsed_drainLog d p fuel

/-- Whether a call with this result broke off. -/
def broke {α : Type} : Except Stop α → Bool
  | .error (.fault _) => true
  | _ => false

end Exchange

/-! ## Calls -/

namespace Call

open Exchange

variable {M : Type} [Memory M]

/-- How many exchanges in a direction the results of a call tell. -/
def exchanges (x : Exchange M) : Direction → Call → Nat
  | .rx, .receive p t => (polled (x.receiveWith p t).1).toNat
  | .rx, .bringUp p fuel => bringUpPolls p fuel x
  | .tx, .transmit p t desc => (rang (x.transmitWith p t desc).1).toNat
  | _, _ => 0

/-- Whether the call is one of a direction, and broke off. -/
def breaks (x : Exchange M) : Direction → Call → Bool
  | .rx, .receive p t => broke (x.receiveWith p t).1
  | .rx, .bringUp p fuel => broke (Step.run (Exchange.bringUp p fuel) x).1
  | .tx, .transmit p t desc => broke (x.transmitWith p t desc).1
  | _, _ => false

/-- Whether the call gives the owner new parities. -/
def Resyncs (x : Exchange M) : Call → Prop
  | .resync _ => x.host.coreError? x.owner.core = none
  | _ => False

/-- The accesses that the results of a call tell. -/
def log (x : Exchange M) : Call → List LogEntry
  | .receive p t =>
    receiveLog x.host.config.layout x.owner.core x.owner.next.rx (x.receiveWith p t).1
  | .transmit p t desc =>
    transmitLog x.host.config.layout x.owner.core x.owner.next.tx desc.payload.size
      (x.transmitWith p t desc).1
  | .bringUp p fuel => bringUpLog p fuel x
  | _ => []

/-- The accesses that were logged during a call. -/
def accesses (x : Exchange (Traced M)) (call : Call) : List LogEntry :=
  (call.make x).2.host.memory.log.toList.drop x.host.memory.log.size

end Call

theorem Exchange.Made.parity {M α : Type} [Memory M] {w : Watch M} {c : Config} {core size n : Nat}
    {next : Parity} {es log : List LogEntry} {d : Direction} {r : Except Stop α} {x : Exchange M}
    (h : Made w c core size next es d n log r x) (e : Direction) :
    ∃ m, (if d = e then n else 0) ≤ m ∧ m ≤ (if d = e then n + (broke r).toNat else 0) ∧
      x.owner.next.get e = Bool.not^[m] (next.get e) := by
  have flipped {m : Nat} (hx : x.owner.next = (Parity.toggle · d)^[m] next) :
      x.owner.next.get e = Bool.not^[if d = e then m else 0] (next.get e) := by
    rw [hx, Parity.get_iterate_toggle]
    split <;> rfl
  by_cases hr : broke r = true
  · rw [hr]
    rcases r with (e | f | _) | _
    · cases hr
    · obtain ⟨m, hle, hm, hx⟩ := h.broken f rfl
      have hone : true.toNat = 1 := rfl
      refine ⟨_, ?_, ?_, flipped hx⟩ <;> split <;> omega
    · cases hr
    · cases hr
  · have hwhole := h.whole fun f hf => hr (hf ▸ rfl)
    refine ⟨_, Nat.le_refl _, ?_, flipped hwhole.next⟩
    split <;> omega

namespace Exchange

variable {α : Type} {r : Except Stop α}

theorem ne_fault_of_broke (h : broke r = false) (f : Fault) : r ≠ .error (.fault f) := by
  rintro rfl
  cases h

end Exchange

namespace Call

open Exchange

variable {M : Type} [Memory M]

theorem make_resync (x : Exchange M) (next : Parity) :
    ((Call.resync next).make x).2 = (Step.run (Exchange.resync next) x).2 := rfl

/-- An owner whose core is not mapped keeps its parities. -/
theorem make_resync_refused {x : Exchange M} {next : Parity}
    (h : ¬(Call.resync next).Resyncs x) : ((Call.resync next).make x).2 = x := by
  obtain ⟨hcore, -⟩ | ⟨e, -, hrun⟩ := run_resync next x
  · exact absurd hcore h
  · rw [make_resync, hrun]

/-- **The parities after a call.** Each exchange flips the one of its direction. -/
theorem parity_make (x : Exchange M) {call : Call} (hsync : ¬call.Resyncs x) (d : Direction) :
    ∃ n, call.exchanges x d ≤ n ∧ n ≤ call.exchanges x d + (call.breaks x d).toNat ∧
      (call.make x).2.owner.next.get d = Bool.not^[n] (x.owner.next.get d) := by
  have hx : Watched (.blind M) x.host.config x.owner.core x.owner.rxBuffer.size x.owner.next [] x :=
    ⟨rfl, rfl, rfl, rfl, trivial⟩
  cases call with
  | receive p t =>
    have made := (hx.receiveWith p t).parity d
    cases d <;> exact made
  | transmit p t desc =>
    have made := (hx.transmitWith p t desc).parity d
    cases d <;> exact made
  | bringUp p fuel =>
    have made := (hx.bringUp fuel (.intro (Exchange.bringUp p fuel) x)).parity d
    cases d <;> exact made
  | prepare kind =>
    have kept := (Watched.keeps_prepare kind).out (.intro _ x) hx
    refine ⟨0, ?_, Nat.zero_le _, congrArg (·.get d) kept.next⟩
    cases d <;> exact Nat.le_refl 0
  | resync next =>
    refine ⟨0, ?_, Nat.zero_le _, by rw [make_resync_refused hsync]; rfl⟩
    cases d <;> exact Nat.le_refl 0

theorem accesses_eq {x : Exchange (Traced M)} {call : Call} {c : Config} {core size : Nat}
    {next : Parity} {log : List LogEntry}
    (h : Watched (.log x.host.memory.log.toList) c core size next log (call.make x).2) :
    call.accesses x = log := by
  have hlog : (call.make x).2.host.memory.log.toList = x.host.memory.log.toList ++ log := h.seen
  rw [accesses, hlog, ← Array.length_toList, List.drop_left]

/-- **The accesses of a call** that does not break off are those that its results tell. Settings
and core stay as they are. -/
theorem make_whole (x : Exchange (Traced M)) {call : Call} (hwhole : ∀ d, call.breaks x d = false) :
    (call.make x).2.host.config = x.host.config ∧ (call.make x).2.owner.core = x.owner.core ∧
      call.accesses x = call.log x := by
  have hx : Watched (.log x.host.memory.log.toList) x.host.config x.owner.core
      x.owner.rxBuffer.size x.owner.next [] x := ⟨rfl, rfl, rfl, rfl, (List.append_nil _).symm⟩
  have told (next : Parity) (log : List LogEntry)
      (h : Watched (.log x.host.memory.log.toList) x.host.config x.owner.core
        x.owner.rxBuffer.size next log (call.make x).2) (hlog : log = call.log x) :
      (call.make x).2.host.config = x.host.config ∧ (call.make x).2.owner.core = x.owner.core ∧
        call.accesses x = call.log x :=
    ⟨h.config, h.core, (accesses_eq h).trans hlog⟩
  cases call with
  | receive p t =>
    exact told _ _ ((hx.receiveWith p t).whole (ne_fault_of_broke (hwhole .rx))) rfl
  | transmit p t desc =>
    exact told _ _ ((hx.transmitWith p t desc).whole (ne_fault_of_broke (hwhole .tx))) rfl
  | bringUp p fuel =>
    have made := hx.bringUp fuel (.intro (Exchange.bringUp p fuel) x)
    exact told _ _ (made.whole (ne_fault_of_broke (hwhole .rx))) rfl
  | prepare kind => exact told _ _ ((Watched.keeps_prepare kind).out (.intro _ x) hx) rfl
  | resync next =>
    refine told ((Call.resync next).make x).2.owner.next [] ?_ rfl
    obtain ⟨-, hrun⟩ | ⟨e, -, hrun⟩ := run_resync next x
    · rw [make_resync, hrun]
      exact ⟨rfl, rfl, rfl, rfl, hx.seen⟩
    · rw [make_resync, hrun]
      exact hx

/-- **The lines that a call uses.** In each direction its first exchange uses the line that the
owner expects, and the next ones the two lines in turn. -/
theorem linesUsed_log (x : Exchange M) (call : Call) (d : Direction) :
    linesUsed x.host.config.layout x.owner.core d (call.log x) =
      List.iterate not (x.owner.next.get d) (call.exchanges x d) := by
  have hx : Watched (.blind M) x.host.config x.owner.core x.owner.rxBuffer.size x.owner.next [] x :=
    ⟨rfl, rfl, rfl, rfl, trivial⟩
  cases call with
  | receive p t =>
    refine (linesUsed_receiveLog x.host.ordered d _ _).trans ?_
    cases d <;> rfl
  | transmit p t desc =>
    refine (linesUsed_transmitLog d _ _ _).trans ?_
    cases d <;> rfl
  | bringUp p fuel =>
    refine (hx.linesUsed_bringUpLog d p fuel).trans ?_
    cases d <;> rfl
  | prepare kind => cases d <;> rfl
  | resync next => cases d <;> rfl

/-- A control line that a transmit writes is the one that it uses. -/
theorem linesUsed_of_write (x : Exchange M) {call : Call} {parity : Bool} {len : Nat}
    (h : .write (x.host.config.layout.controlAt x.owner.core .tx parity) len ∈ call.log x) :
    linesUsed x.host.config.layout x.owner.core .tx (call.log x) = [parity] := by
  cases call with
  | receive p t => obtain ⟨_, _, he⟩ := read_of_mem_receiveLog h; cases he
  | bringUp p fuel => exact absurd h (write_not_mem_bringUpLog p fuel x)
  | prepare kind => cases h
  | resync next => cases h
  | transmit p t desc =>
    obtain ⟨rfl, hrang⟩ := write_mem_transmitLog x.host.ordered h
    refine (linesUsed_transmitLog .tx _ _ _).trans ?_
    rw [hrang]
    rfl

end Call

/-! ## Runs -/

/-- What happens to an owner in turn: it makes a call, or others are at work on its host. -/
inductive Turn (M : Type) : Type 1 where
  | call (c : Call)
  /-- Memory, counters and claims are now these; the settings of a host never change. -/
  | others (memory : M) (counters : Array Counters) (claimed : Array Bool)

namespace Turn

variable {M : Type} [Memory M]

def take (x : Exchange M) : Turn M → Exchange M
  | call c => (c.make x).2
  | others memory counters claimed => { x with host := { x.host with memory, counters, claimed } }

def exchanges (x : Exchange M) (d : Direction) : Turn M → Nat
  | call c => c.exchanges x d
  | others .. => 0

def breaks (x : Exchange M) (d : Direction) : Turn M → Bool
  | call c => c.breaks x d
  | others .. => false

def Resyncs (x : Exchange M) : Turn M → Prop
  | call c => c.Resyncs x
  | others .. => False

/-- The accesses of the owner, not those of others. -/
def accesses (x : Exchange (Traced M)) : Turn (Traced M) → List LogEntry
  | call c => c.accesses x
  | others .. => []

theorem parity_take (x : Exchange M) {t : Turn M} (hsync : ¬t.Resyncs x) (d : Direction) :
    ∃ n, t.exchanges x d ≤ n ∧ n ≤ t.exchanges x d + (t.breaks x d).toNat ∧
      (t.take x).owner.next.get d = Bool.not^[n] (x.owner.next.get d) := by
  cases t with
  | call c => exact c.parity_make x hsync d
  | others => exact ⟨0, Nat.le_refl _, Nat.le_refl _, rfl⟩

theorem lines_take (x : Exchange (Traced M)) {t : Turn (Traced M)}
    (hwhole : ∀ d, t.breaks x d = false) :
    (t.take x).host.config = x.host.config ∧ (t.take x).owner.core = x.owner.core ∧
      ∀ d, Exchange.linesUsed x.host.config.layout x.owner.core d (t.accesses x) =
        List.iterate not (x.owner.next.get d) (t.exchanges x d) := by
  cases t with
  | call c =>
    obtain ⟨hconfig, hcore, hlog⟩ := c.make_whole x hwhole
    refine ⟨hconfig, hcore, fun d => ?_⟩
    rw [accesses, hlog]
    exact c.linesUsed_log x d
  | others => exact ⟨rfl, rfl, fun _ => rfl⟩

end Turn

namespace Exchange

variable {M : Type} [Memory M]

/-- The exchange after some turns. -/
def after : Exchange M → List (Turn M) → Exchange M := List.foldl fun x t => t.take x

/-- How many exchanges in a direction the results of the calls tell. -/
def exchanges (d : Direction) : Exchange M → List (Turn M) → Nat
  | _, [] => 0
  | x, t :: turns => t.exchanges x d + exchanges d (t.take x) turns

/-- How many calls of a direction broke off. -/
def broken (d : Direction) : Exchange M → List (Turn M) → Nat
  | _, [] => 0
  | x, t :: turns => (t.breaks x d).toNat + broken d (t.take x) turns

/-- Whether the owner keeps its parities: no call gives it new ones. -/
def Unsynced : Exchange M → List (Turn M) → Prop
  | _, [] => True
  | x, t :: turns => ¬t.Resyncs x ∧ Unsynced (t.take x) turns

/-- All accesses of the owner. -/
def accesses : Exchange (Traced M) → List (Turn (Traced M)) → List LogEntry
  | _, [] => []
  | x, t :: turns => t.accesses x ++ accesses (t.take x) turns

theorem parity_after (d : Direction) (x : Exchange M) (turns : List (Turn M))
    (h : Unsynced x turns) :
    ∃ n, exchanges d x turns ≤ n ∧ n ≤ exchanges d x turns + broken d x turns ∧
      (after x turns).owner.next.get d = Bool.not^[n] (x.owner.next.get d) := by
  induction turns generalizing x with
  | nil => exact ⟨0, Nat.le_refl _, Nat.le_refl _, rfl⟩
  | cons t turns ih =>
    obtain ⟨hsync, hrest⟩ := h
    obtain ⟨n, hle, hge, hn⟩ := t.parity_take x hsync d
    obtain ⟨m, hle', hge', hm⟩ := ih (t.take x) hrest
    refine ⟨m + n, ?_, ?_, ?_⟩
    · unfold exchanges
      omega
    · unfold exchanges broken
      omega
    · rw [Function.iterate_add_apply, ← hn]
      exact hm

theorem linesUsed_accesses (d : Direction) (x : Exchange (Traced M))
    (turns : List (Turn (Traced M)))
    (h : Unsynced x turns) (hwhole : ∀ e, broken e x turns = 0) :
    linesUsed x.host.config.layout x.owner.core d (accesses x turns) =
      List.iterate not (x.owner.next.get d) (exchanges d x turns) := by
  induction turns generalizing x with
  | nil => rfl
  | cons t turns ih =>
    obtain ⟨hsync, hrest⟩ := h
    have hbreaks (e : Direction) : t.breaks x e = false := by
      have := hwhole e
      unfold broken at this
      exact Bool.toNat_eq_zero.1 (by omega)
    have hbroken (e : Direction) : broken e (t.take x) turns = 0 := by
      have := hwhole e
      unfold broken at this
      omega
    obtain ⟨hconfig, hcore, hused⟩ := t.lines_take x hbreaks
    obtain ⟨n, hle, hge, hn⟩ := t.parity_take x hsync d
    rw [hbreaks] at hge
    obtain rfl : n = t.exchanges x d := Nat.le_antisymm hge hle
    have later := ih (t.take x) hrest hbroken
    rw [hconfig, hcore, hn] at later
    unfold accesses exchanges
    rw [linesUsed_append, hused, later, List.iterate_add]

theorem isChain_iterate_not (b : Bool) (n : Nat) : (List.iterate not b n).IsChain (· ≠ ·) := by
  induction n generalizing b with
  | zero => exact .nil
  | succ n ih =>
    cases n with
    | zero => exact .singleton _
    | succ n => exact .cons_cons (Bool.not_ne_self b).symm (ih _)

end Exchange

namespace Exchange

theorem claim_next {M : Type} {h h' : Host M} {core : Nat} {next : Parity} {o : Owner}
    (hend : Ends (Host.claim core next) h (.ok (.ok o)) h') : o.next = next := by
  have claim : Meets (fun _ => True) (Host.claim core next)
      (fun r (_ : Host M) => ∀ o, r = .ok o → o.next = next) fun _ _ => True := by
    refine .get_bind fun h _ => ?_
    split
    · exact .pure fun _ _ => nofun
    · dsimp only
      split
      · exact .pure fun _ _ => nofun
      · refine .bind (Q := fun _ _ => True) ?_ fun _ => .bind (Q := fun _ _ => True) ?_ fun _ => ?_
        · unfold Access.require
          split
          · exact .pure fun _ _ => trivial
          · exact .throw fun _ _ => trivial
        · exact .of_ends fun h _ => ⟨_, _, .set _ h, trivial⟩
        · refine .pure fun _ _ o ho => ?_
          cases ho
          rfl
  exact claim.out hend trivial o rfl

/-- **Parity alternation.** Whatever the memory does, and whatever happens in between: since an
owner got its parities, by claiming the core or by a resync, each is as it was, flipped once for
every exchange in its direction that the results of the calls tell. Nothing else flips it, except
that a call that breaks off may have gone on already. As the accesses show, the exchanges of a
direction use its two control lines in turn, and a transmit writes no other control line than the
one it uses. -/
theorem alternates (M : Type) [Memory M] :
    (∀ (h h' : Host M) (core : Nat) (next : Parity) (o : Owner),
      Ends (Host.claim core next) h (.ok (.ok o)) h' → o.next = next) ∧
    (∀ (x : Exchange M) (next : Parity), x.owner.core < x.host.config.numCores →
      ((Call.resync next).make x).2.owner.next = next) ∧
    (∀ (x : Exchange M) (turns : List (Turn M)), Unsynced x turns → ∀ d,
      ∃ n, exchanges d x turns ≤ n ∧ n ≤ exchanges d x turns + broken d x turns ∧
        (after x turns).owner.next.get d = Bool.not^[n] (x.owner.next.get d)) ∧
    (∀ (x : Exchange (Traced M)) (turns : List (Turn (Traced M))), Unsynced x turns →
      (∀ d, broken d x turns = 0) → ∀ d,
        let used := linesUsed x.host.config.layout x.owner.core d (accesses x turns)
        used = List.iterate not (x.owner.next.get d) (exchanges d x turns) ∧
          used.IsChain (· ≠ ·)) ∧
    ∀ (x : Exchange (Traced M)) (call : Call), (∀ d, call.breaks x d = false) → ∀ parity len,
      .write (x.host.config.layout.controlAt x.owner.core .tx parity) len ∈ call.accesses x →
        linesUsed x.host.config.layout x.owner.core .tx (call.accesses x) = [parity] := by
  refine ⟨fun h h' core next o hend => claim_next hend, fun x next hcore => ?_,
    fun x turns hsync d => parity_after d x turns hsync, fun x turns hsync hwhole d => ?_,
    fun x call hwhole parity len hmem => ?_⟩
  · have hnone : x.host.coreError? x.owner.core = none := if_pos hcore
    obtain ⟨-, hrun⟩ | ⟨e, he, -⟩ := run_resync next x
    · rw [Call.make_resync, hrun]
    · exact absurd (hnone.symm.trans he) nofun
  · have hused := linesUsed_accesses d x turns hsync hwhole
    refine ⟨hused, ?_⟩
    rw [hused]
    exact isChain_iterate_not _ _
  · obtain ⟨-, -, hlog⟩ := call.make_whole x hwhole
    rw [hlog] at hmem ⊢
    exact call.linesUsed_of_write x hmem

/-- Settings for a single core whose window has no gaps and no overflow lines. -/
def tight : Config where
  layout := { txBase := 0x100, overflowLines := 0, workerControl := 0x200, stride := 0x280 }

/-- The host of a region for these settings, whose core is ready. -/
def tightHost : Host (Traced Region) where
  memory := ⟨⟨(Bytes.zeros 0x280).put 0x200 1⟩, #[]⟩
  config := tight
  config_ok := rfl
  counters := #[{}]
  claimed := #[false]

/-- A core is claimed. Two transmits of what cannot be sent make an exchange each, and one that
is too large makes none in between. Then the owner gets new parities. -/
theorem alternates_unsent :
    let x : Exchange (Traced Region) := ⟨tightHost.setClaimed 0 true, .synced 0 tight {}⟩
    let send (n : Nat) : Turn (Traced Region) :=
      .call (.transmit (SpinLimit.attempts 3).policy () ⟨.error 9, .zeros n⟩)
    let turns := [send 0, send 65, send 1]
    Ends (Host.claim 0 {}) tightHost (.ok (.ok x.owner)) x.host ∧ x.owner.next = {} ∧
      Unsynced x turns ∧ (∀ d, broken d x turns = 0) ∧
      linesUsed x.host.config.layout x.owner.core .tx (accesses x turns) = [false, true] ∧
      (after x turns).owner.next.tx = false ∧
      ((Call.resync ⟨true, true⟩).make x).2.owner.next = ⟨true, true⟩ := by
  intro x send turns
  have hclaim : Ends (Host.claim 0 {}) tightHost (.ok (.ok x.owner)) x.host := rfl
  have hsync : Unsynced x turns := ⟨id, id, id, trivial⟩
  have hwhole (d : Direction) : broken d x turns = 0 := by cases d <;> decide +kernel
  have htwo : exchanges .tx x turns = 2 := by decide +kernel
  obtain ⟨claimed, resynced, flipped, -, -⟩ := alternates (Traced Region)
  obtain ⟨-, -, -, used, -⟩ := alternates Region
  obtain ⟨n, hle, hge, hn⟩ := flipped x turns hsync .tx
  have hlines := (used x turns hsync hwhole .tx).1
  rw [hwhole] at hge
  rw [htwo] at hle hge hlines
  obtain rfl : n = 2 := Nat.le_antisymm hge hle
  exact ⟨hclaim, claimed _ _ _ _ _ hclaim, hsync, hwhole, hlines, hn, resynced x _ (by decide)⟩

end Exchange
end LineExchange
