import LineExchange.Proofs.Exchange.Accesses
import LineExchange.Proofs.Exchange.Mirrors

/-!
# LineExchange.Proofs.Sequence.Calls

The accesses that a call logs, on a traced memory of any kind. They are logged before they are
made, so those of a receive are known even if the memory faults.

* `Exchange.Enters`: an owner gets to its critical section.
* `Exchange.logs_receive`: a receive that enters reads the control line that comes next, and then
  the overflow bytes if the line announces any that fit (`Exchange.pollLog`).
* `Exchange.logs_receive_none`, `Exchange.logs_receive_outside`: any other receive makes no access
  that is logged.
* `Exchange.logs_transmit`: a transmit that does not break off makes those that its result tells.
-/

namespace LineExchange

theorem Traced.ends_logged {M α : Type} (e : LogEntry) (a : Access M α) (t : Traced M) :
    Ends (do record e; onInner a) t ((ExceptT.run a).run t.inner).1
      { inner := ((ExceptT.run a).run t.inner).2, log := t.log.push e } :=
  .bind (.modify _ t) (ends_onInner (.intro a t.inner))

namespace Exchange

variable {M α σ : Type} [Memory M]

/-- During what led from `x` to `y`, these accesses were logged and no others. -/
def Logs (x y : Exchange (Traced M)) (es : List LogEntry) : Prop :=
  y.host.memory.log.toList = x.host.memory.log.toList ++ es

/-- The owner gets to its critical section: its core is mapped, and it is let in. -/
def Enters (x : Exchange M) (p : SpinPolicy σ) (s : σ) : Prop :=
  x.host.coreError? x.owner.core = none ∧ (x.enter p s).1 = .ok ()

/-- The header of the control line that comes next, if the memory answers when it is read. -/
def nextHeader? (x : Exchange M) : Option Header :=
  (Access.run (Memory.read (x.host.config.layout.controlAt x.owner.core .rx x.owner.next.rx)
    lineSize) x.host.memory).1.toOption.map fun b => x.host.config.format.decode (.ofBytes b)

/-- The accesses of a receive that found this header inside the gate: the control line is read, and
then the overflow bytes of a payload that is announced, has any and fits. -/
def pollLog (l : Layout) (core : Nat) (parity : Bool) (limit : Nat) (found : Option Header) :
    List LogEntry :=
  .read (l.controlAt core .rx parity) lineSize :: found.elim [] fun h =>
    if h.valid ∧ inlineSize < h.length ∧ h.length ≤ limit then
      [.read (l.overflowAt core .rx) (h.length - inlineSize)]
    else []

/-- The log of the memory. -/
def Logged (es : List LogEntry) (x : Exchange (Traced M)) : Prop := x.host.memory.log.toList = es

variable {x : Exchange (Traced M)} {es : List LogEntry} {p : SpinPolicy σ} {s : σ}

namespace Logged

variable {E : Stop → Exchange (Traced M) → Prop}

omit [Memory M] in
theorem toggle (d : Direction) :
    Meets (Logged es) (Exchange.toggle d : Step (Traced M) Unit) (fun _ => Logged es) E :=
  .modify fun _ h => h

omit [Memory M] in
theorem fillBuffer (start : Nat) (data : Bytes) : Meets (Logged es)
    (Exchange.fillBuffer start data : Step (Traced M) Unit) (fun _ => Logged es) E :=
  .modify fun _ h => h

omit [Memory M] in
theorem count (f : Stats → Stats) :
    Meets (Logged es) (Exchange.count f : Step (Traced M) Unit) (fun _ => Logged es) E :=
  .modify fun _ h => h

omit [Memory M] in
/-- An access is logged whether it faults or not. -/
theorem access (e : LogEntry) (a : Access M α) : Meets (Logged es)
    (onMemory (do Traced.record e; Traced.onInner a) : Step (Traced M) α)
    (fun _ => Logged (es ++ [e])) (fun _ => Logged (es ++ [e])) := by
  refine .of_ends fun x hx => ⟨_, _, ends_onMemory (Traced.ends_logged e a x.host.memory), ?_⟩
  have hlog : (x.host.memory.log.push e).toList = es ++ [e] :=
    Array.toList_push.trans (congrArg (· ++ [e]) hx)
  cases ((ExceptT.run a).run x.host.memory.inner).1 with
  | ok v => exact hlog
  | error f => exact hlog

/-- Leaving the gate logs nothing. -/
theorem guarded {P : Exchange (Traced M) → Prop} {body : Step (Traced M) α}
    (h : Meets P body (fun _ => Logged es) fun _ => Logged es) :
    Meets P (Exchange.guarded body) (fun _ => Logged es) fun _ => Logged es := by
  refine .of_ends fun x hx => ⟨_, _, ends_guarded_leave (.intro body x), ?_⟩
  have hpost := h.out (.intro body x) hx
  generalize ((ExceptT.run body).run x).1 = r at hpost ⊢
  generalize ((ExceptT.run body).run x).2 = y at hpost ⊢
  have left (hy : Logged es y) :
      Logged es (Step.run (onHost (Host.onGate y.owner.core fun g => ((), g.leave))) y).2 :=
    ((Watched.keeps_onGate (w := .log []) fun g => ((), g.leave)).out (.intro _ y.host)
      ⟨rfl, hy⟩).2
  cases r with
  | ok v => exact left hpost
  | error e => exact left hpost

end Logged

/-! ## Receiving -/

/-- Reading the control line that comes next. -/
theorem meets_readLine (x : Exchange (Traced M)) :
    let offset := x.host.config.layout.controlAt x.owner.core .rx x.owner.next.rx
    let es := x.host.memory.log.toList ++ [.read offset lineSize]
    Meets (x = ·) (readLine offset : Step (Traced M) Line)
      (fun line y => x.nextHeader? = some (x.host.config.format.decode line) ∧ Logged es y)
      fun _ y => x.nextHeader? = none ∧ Logged es y := by
  intro offset es
  have hread := Traced.ends_logged (.read offset lineSize) (Memory.read offset lineSize)
    x.host.memory
  have hfound : x.nextHeader? = ((ExceptT.run (Memory.read offset lineSize)).run
      x.host.memory.inner).1.toOption.map fun b => x.host.config.format.decode (.ofBytes b) :=
    congrArg (fun q : Except Fault Bytes × Traced M =>
      q.1.toOption.map fun b => x.host.config.format.decode (.ofBytes b)) hread
  refine .of_ends ?_
  rintro _ rfl
  have hend := ends_onMemory (x := x) hread
  rw [hfound]
  cases hr : ((ExceptT.run (Memory.read offset lineSize)).run x.host.memory.inner).1 with
  | ok b =>
    rw [hr] at hend
    exact ⟨_, _, hend.map, rfl, Array.toList_push⟩
  | error f =>
    rw [hr] at hend
    exact ⟨_, _, .bind_error hend, rfl, Array.toList_push⟩

/-- The critical section of a receive. -/
theorem meets_pollLog (x : Exchange (Traced M)) :
    let es := x.host.memory.log.toList ++ pollLog x.host.config.layout x.owner.core
      x.owner.next.rx x.rxLimit x.nextHeader?
    Meets (x = ·) (poll : Step (Traced M) (Option Received)) (fun _ => Logged es)
      fun _ => Logged es := by
  intro es
  refine .get_bind ?_
  rintro _ rfl
  refine ((meets_readLine x).conseq (fun _ h => h) (fun _ _ h => h) ?_).bind fun line =>
    .assume fun hfound => (Logged.toggle .rx).bind fun _ => ?_
  · rintro _ y ⟨hfound, hy⟩
    simp only [es, pollLog, hfound]
    exact hy
  have hes : es = x.host.memory.log.toList ++
      [.read (x.host.config.layout.controlAt x.owner.core .rx x.owner.next.rx) lineSize] ++ _ :=
    (congrArg (_ ++ pollLog _ _ _ _ ·) hfound).trans (List.append_cons ..)
  dsimp only [Option.elim_some] at hes ⊢
  rw [hes]
  split
  · next hvalid =>
    split
    · next hmore =>
      rw [if_neg fun h => absurd h.2.2 (Nat.not_le.2 hmore), List.append_nil]
      exact .throw fun _ hy => hy
    · next hfits =>
      have finish {es : List LogEntry} {f : Exchange (Traced M) → Received} :
          Meets (Logged es) (get >>= fun z => pure (some (f z)) : Step (Traced M) _)
            (fun _ => Logged es) fun _ => Logged es :=
        .get_bind fun _ _ => .pure fun _ hy => hy
      refine (Logged.fillBuffer 0 _).bind fun _ => ?_
      split
      · next hmany =>
        rw [if_pos ⟨hvalid, hmany, Nat.not_lt.1 hfits⟩]
        exact (Logged.access _ _).bind fun data => (Logged.fillBuffer _ data).bind fun _ => finish
      · next hfew =>
        rw [if_neg fun h => hfew h.2.1, List.append_nil]
        exact finish
  · next hvalid =>
    rw [if_neg fun h => hvalid h.1, List.append_nil]
    exact (Logged.count _).bind fun _ => .pure fun _ hy => hy

omit [Memory M] in
theorem Logged.of_post {r : Except Stop α} {y : Exchange (Traced M)}
    (h : Post (fun _ => Logged es) (fun _ => Logged es) r y) : Logged es y := by
  cases r with
  | ok v => exact h
  | error e => exact h

/-- A receive after it was let in. -/
theorem logged_receiveEntered (x : Exchange (Traced M)) :
    Logged (x.host.memory.log.toList ++ pollLog x.host.config.layout x.owner.core
      x.owner.next.rx x.rxLimit x.nextHeader?) (Step.run receiveEntered x).2 := by
  refine .of_post (Meets.out (a := receiveEntered) ?_ (.intro receiveEntered x) rfl)
  refine (Logged.guarded (meets_pollLog x)).bind fun r => ?_
  cases r with
  | none => exact .pure fun _ hy => hy
  | some received => exact (Logged.count _).bind fun _ => .pure fun _ hy => hy

/-! ## Calls -/

/-- The owner watches the log of its memory. -/
theorem watched_log (x : Exchange (Traced M)) : Watched (.log x.host.memory.log.toList)
    x.host.config x.owner.core x.owner.rxBuffer.size x.owner.next [] x :=
  ⟨rfl, rfl, rfl, rfl, (List.append_nil _).symm⟩

/-- **A receive that enters.** Its accesses are told by the header that it finds. -/
theorem logs_receive (h : x.Enters p s) : x.Logs (x.receiveWith p s).2.2
    (pollLog x.host.config.layout x.owner.core x.owner.next.rx x.rxLimit
      (x.enter p s).2.2.nextHeader?) := by
  obtain ⟨hcore, henter⟩ := h
  have inside := (x.watched_log.enter p s).1
  unfold receiveWith entering
  rw [hcore]
  dsimp only
  generalize x.enter p s = q at henter inside ⊢
  obtain ⟨r, t, y⟩ := q
  obtain rfl : r = .ok () := henter
  have hlog : y.host.memory.log.toList = x.host.memory.log.toList :=
    inside.seen.trans (List.append_nil _)
  have hlimit : y.rxLimit = x.rxLimit := by
    rw [rxLimit, inside.config]
    exact congrArg (min · _) inside.buffer
  have polled := logged_receiveEntered y
  rw [hlog, hlimit, inside.config, inside.core, inside.next] at polled
  exact polled

/-- A receive that does not enter makes no access that is logged. -/
theorem logs_receive_none (h : ¬x.Enters p s) : x.Logs (x.receiveWith p s).2.2 [] := by
  unfold receiveWith
  cases hcore : x.host.coreError? x.owner.core with
  | some e => exact x.watched_log.seen
  | none =>
    have inside := (x.watched_log.enter p s).1
    have henter : (x.enter p s).1 ≠ .ok () := fun hr => h ⟨hcore, hr⟩
    unfold entering
    dsimp only
    generalize x.enter p s = q at henter inside ⊢
    obtain ⟨_ | _, t, y⟩ := q
    · exact inside.seen
    · exact absurd rfl henter

/-- A receive that was refused in front of the gate makes none either. -/
theorem logs_receive_outside {e : Stop} (he : e.Outside)
    (hr : (x.receiveWith p s).1 = .error e) : x.Logs (x.receiveWith p s).2.2 [] := by
  have made := x.watched_log.receiveWith p s
  have hlogs := (made.whole (by rw [hr]; cases he <;> nofun)).seen
  rw [hr, (outside_receive he ..).2] at hlogs
  exact hlogs

/-- A transmit that does not break off makes the accesses that its result tells. -/
theorem logs_transmit {d : Descriptor} {r : Except Stop Unit} (hr : (x.transmitWith p s d).1 = r)
    (hwhole : ∀ f, r ≠ .error (.fault f)) : x.Logs (x.transmitWith p s d).2.2
      (transmitLog x.host.config.layout x.owner.core x.owner.next.tx d.payload.size r) := by
  subst hr
  exact ((x.watched_log.transmitWith p s d).whole hwhole).seen

end Exchange
end LineExchange
