import LineExchange.Proofs.Isolation.Scoped

/-!
# LineExchange.Proofs.Exchange.Mirrors

One memory seen through another. Where a function `g` shows of a memory all that its accesses depend
on (`Mirrored g`), calls on it come to what they would come to on what is shown, and leave what they
would leave there (`Call.make_through`).

* `Mirrors`: two computations run the same, one on what is seen of the states of the other. One
  rule for each way to put computations together.
* `Exchange.through`: what is seen of an exchange through `g`.
-/

namespace LineExchange

variable {ε S T α β : Type}

/-- On what `g` shows of a state, `b` runs as `a` does on the state. -/
structure Mirrors (g : S → T) (a : ExceptT ε (StateM S) α) (b : ExceptT ε (StateM T) α) :
    Prop where
  out : ∀ {s r s'}, Ends a s r s' → Ends b (g s) r (g s')

namespace Mirrors

variable {g : S → T} {a a' : ExceptT ε (StateM S) α} {b b' : ExceptT ε (StateM T) α}

theorem of_ends (h : ∀ s, ∃ r s', Ends a s r s' ∧ Ends b (g s) r (g s')) : Mirrors g a b := by
  constructor
  intro s r s' hend
  obtain ⟨r', t, hend', hseen⟩ := h s
  obtain ⟨rfl, rfl⟩ := hend.unique hend'
  exact hseen

theorem pure (v : α) : Mirrors g (pure v : ExceptT ε (StateM S) α) (pure v) :=
  of_ends fun s => ⟨_, s, .pure v s, .pure v (g s)⟩

theorem throw (e : ε) : Mirrors g (throw e : ExceptT ε (StateM S) α) (throw e) :=
  of_ends fun s => ⟨_, s, .throw e s, .throw e (g s)⟩

theorem modify {u : S → S} {u' : T → T} (h : ∀ s, u' (g s) = g (u s)) :
    Mirrors g (modify u : ExceptT ε (StateM S) PUnit) (modify u') :=
  of_ends fun s => ⟨_, u s, .modify u s, h s ▸ .modify u' (g s)⟩

theorem bind {f : α → ExceptT ε (StateM S) β} {f' : α → ExceptT ε (StateM T) β}
    (h : Mirrors g a b) (hf : ∀ v, Mirrors g (f v) (f' v)) : Mirrors g (a >>= f) (b >>= f') := by
  refine of_ends fun s => ?_
  cases hr : (ExceptT.run a).run s with
  | mk r t =>
    cases r with
    | error e => exact ⟨_, t, .bind_error hr, .bind_error (h.out hr)⟩
    | ok v =>
      have hrest := (hf v).out (.intro (f v) t)
      exact ⟨_, _, .bind hr (.intro (f v) t), .bind (h.out hr) hrest⟩

/-- What was read is seen through `g`. -/
theorem get_bind {f : S → ExceptT ε (StateM S) β} {f' : T → ExceptT ε (StateM T) β}
    (hf : ∀ s, Mirrors g (f s) (f' (g s))) : Mirrors g (get >>= f) (get >>= f') :=
  of_ends fun s => ⟨_, _, .bind (.get s) (.intro (f s) s),
    .bind (.get (g s)) ((hf s).out (.intro (f s) s))⟩

theorem map (h : Mirrors g a b) (k : α → β) : Mirrors g (k <$> a) (k <$> b) := by
  rw [← bind_pure_comp, ← bind_pure_comp]
  exact h.bind fun v => .pure (k v)

theorem ite {p : Prop} [Decidable p] (ht : p → Mirrors g a b) (he : ¬p → Mirrors g a' b') :
    Mirrors g (if p then a else a') (if p then b else b') := by
  split
  · next h => exact ht h
  · next h => exact he h

theorem forM {γ : Type} {f : γ → ExceptT ε (StateM S) PUnit} {f' : γ → ExceptT ε (StateM T) PUnit}
    (l : List γ) (h : ∀ v, Mirrors g (f v) (f' v)) : Mirrors g (l.forM f) (l.forM f') := by
  induction l with
  | nil => exact .pure _
  | cons v l ih => exact (h v).bind fun _ => ih

end Mirrors

variable {M N σ : Type} {g : M → N}

/-- Each access to a memory runs the same on what `g` shows of the memory. -/
structure Mirrored [Memory M] [Memory N] (g : M → N) : Prop where
  read (offset len : Nat) : Mirrors g (Memory.read offset len) (Memory.read offset len)
  write (offset : Nat) (data : Bytes) : Mirrors g (Memory.write offset data) (Memory.write offset data)
  touch (offset : Nat) : Mirrors g (Memory.touch offset) (Memory.touch offset)
  invalidate (offset : Nat) : Mirrors g (Memory.invalidate offset) (Memory.invalidate offset)
  loadControl (offset : Nat) : Mirrors g (Memory.loadControl offset) (Memory.loadControl offset)
  storeControl (offset : Nat) (byte : UInt8) :
    Mirrors g (Memory.storeControl offset byte) (Memory.storeControl offset byte)

namespace Host

/-- The host as it is seen through `g`. -/
def through (g : M → N) (host : Host M) : Host N where
  memory := g host.memory
  config := host.config
  config_ok := host.config_ok
  counters := host.counters
  claimed := host.claimed

theorem mirrors_onMemory {a : Access M α} {b : Access N α} (h : Mirrors g a b) :
    Mirrors (through g) (onMemory a) (onMemory b) :=
  .of_ends fun host => by
    have hseen : Ends b (host.through g).memory _ _ := h.out (.intro a host.memory)
    exact ⟨_, _, ends_onMemory (.intro a host.memory), ends_onMemory hseen⟩

theorem mirrors_onGate [Memory M] [Memory N] (hg : Mirrored g) (core : Nat) (f : Gate → α × Gate) :
    Mirrors (through g) (onGate core f : Access (Host M) α) (onGate core f) := by
  have gate : Mirrors (through g) (gate core : Access (Host M) Gate) (gate core) :=
    .get_bind fun _ => (mirrors_onMemory (hg.loadControl _)).bind fun _ => .pure _
  have store (gate : Gate) :
      Mirrors (through g) (setGate core gate : Access (Host M) Unit) (setGate core gate) :=
    .get_bind fun _ => (mirrors_onMemory (hg.storeControl ..)).bind fun _ => .modify fun _ => rfl
  exact gate.bind fun _ => (store _).bind fun _ => .pure _

end Host

namespace Exchange

/-- The exchange as it is seen through `g`. -/
def through (g : M → N) (x : Exchange M) : Exchange N := ⟨x.host.through g, x.owner⟩

/-- A call as it is seen through `g`. -/
def seen (g : M → N) (q : α × σ × Exchange M) : α × σ × Exchange N := (q.1, q.2.1, q.2.2.through g)

theorem mirrors_onHost {a : Access (Host M) α} {b : Access (Host N) α}
    (h : Mirrors (Host.through g) a b) : Mirrors (through g) (onHost a) (onHost b) :=
  .of_ends fun x => ⟨_, _, ends_onHost (.intro a x.host),
    ends_onHost (x := x.through g) (h.out (.intro a x.host))⟩

theorem mirrors_onMemory {a : Access M α} {b : Access N α} (h : Mirrors g a b) :
    Mirrors (through g) (onMemory a) (onMemory b) :=
  mirrors_onHost (Host.mirrors_onMemory h)

theorem mirrors_count (f : Stats → Stats) :
    Mirrors (through g) (count f : Step M Unit) (count f) := .modify fun _ => rfl

section Sections

variable [Memory M] [Memory N] (hg : Mirrored g)
include hg

theorem mirrors_poll : Mirrors (through g) (poll : Step M (Option Received)) poll := by
  have fill (start : Nat) (data : Bytes) :
      Mirrors (through g) (fillBuffer start data : Step M Unit) (fillBuffer start data) :=
    .modify fun _ => rfl
  refine .get_bind fun x => ((mirrors_onMemory (hg.read ..)).map _).bind fun line =>
    .bind (.modify fun _ => rfl) fun _ => .ite (fun _ => .ite (fun _ => .throw _) fun _ => ?_)
      fun _ => (mirrors_count _).bind fun _ => .pure _
  refine (fill _ _).bind fun _ => .ite (fun _ => ?_) fun _ => .get_bind fun _ => .pure _
  exact (mirrors_onMemory (hg.read ..)).bind fun _ => (fill _ _).bind fun _ =>
    .get_bind fun _ => .pure _

theorem mirrors_ringDoorbell : Mirrors (through g) (ringDoorbell : Step M Unit) ringDoorbell :=
  .bind (.modify fun _ => rfl) fun _ => .get_bind fun _ => mirrors_onMemory (hg.touch _)

theorem mirrors_writeStaged (d : Descriptor) (line : Line) :
    Mirrors (through g) (writeStaged d line : Step M Unit) (writeStaged d line) :=
  have write {offset : Nat} {data : Bytes} :
      Mirrors (through g) (onMemory (Memory.write offset data) : Step M Unit)
        (onMemory (Memory.write offset data)) :=
    mirrors_onMemory (hg.write ..)
  .get_bind fun _ => .ite (fun _ => write.bind fun _ => write) fun _ => write

theorem mirrors_send (d : Descriptor) :
    Mirrors (through g) (send d : Step M (Except EncodeError Unit)) (send d) := by
  refine .get_bind fun x => ?_
  have hconfig : (x.through g).host.config = x.host.config := rfl
  rw [hconfig]
  cases encodeStaged x.host.config.format d with
  | ok line =>
    exact (mirrors_writeStaged hg d line).bind fun _ => (mirrors_ringDoorbell hg).bind fun _ =>
      .pure _
  | error e => exact (mirrors_ringDoorbell hg).bind fun _ => .pure _

theorem mirrors_guarded {a : Step M α} {b : Step N α} (h : Mirrors (through g) a b) :
    Mirrors (through g) (guarded a) (guarded b) := by
  refine .of_ends fun x => ?_
  have hend : Ends a x _ _ := .intro a x
  generalize ((ExceptT.run a).run x).1 = r at hend
  generalize ((ExceptT.run a).run x).2 = y at hend
  have leave : Ends (onHost (Host.onGate y.owner.core fun g => ((), g.leave))) (y.through g) _ _ :=
    (mirrors_onHost (Host.mirrors_onGate hg _ _)).out (.intro _ y)
  refine ⟨_, _, ends_guarded_leave hend, ?_⟩
  exact (ends_guarded_leave (h.out hend)).trans (congrArg (r, ·) (congrArg Prod.snd leave))

end Sections

/-! ## Calls -/

theorem mirrors_checkCore : Mirrors (through g) (checkCore : Step M Unit) checkCore := by
  refine .get_bind fun x => ?_
  have hcore : (x.through g).host.coreError? (x.through g).owner.core =
    x.host.coreError? x.owner.core := rfl
  rw [hcore]
  cases x.host.coreError? x.owner.core with
  | some e => exact .throw _
  | none => exact .pure _

theorem mirrors_resync (next : Parity) :
    Mirrors (through g) (resync next : Step M Unit) (resync next) :=
  mirrors_checkCore.bind fun _ => .modify fun _ => rfl

theorem mirrors_prepare (kind : TransactionKind) :
    Mirrors (through g) (prepare kind : Step M Descriptor) (prepare kind) :=
  .of_ends fun x => ⟨_, _, ends_prepare x kind, ends_prepare (x.through g) kind⟩

section Calls

variable [Memory M] [Memory N] (hg : Mirrored g) {p : SpinPolicy σ} {s : σ}
include hg

theorem enter_through (x : Exchange M) : (x.through g).enter p s = seen g (x.enter p s) := by
  have spin : Access.run (Host.onGate (x.through g).owner.core
      fun g => (((g.enter p s).1, (g.enter p s).2.1), (g.enter p s).2.2)) (x.through g).host = _ :=
    (Host.mirrors_onGate hg x.owner.core _).out (.intro _ x.host)
  rw [enter_run, enter_run]
  dsimp only
  rw [spin]
  rfl

theorem entering_through {a : Step M α} {b : Step N α} (h : Mirrors (through g) a b)
    (x : Exchange M) : (x.through g).entering p s b = seen g (x.entering p s a) := by
  unfold entering
  rw [enter_through hg]
  obtain ⟨r, t, y⟩ := x.enter p s
  cases r with
  | error e => rfl
  | ok _ =>
    have hrun : Step.run b (y.through g) = _ := h.out (.intro a y)
    dsimp only [seen]
    rw [hrun]
    rfl

theorem receiveWith_through (x : Exchange M) :
    (x.through g).receiveWith p s = seen g (x.receiveWith p s) := by
  have entered : Mirrors (through g) (receiveEntered : Step M (Option Received))
      receiveEntered := by
    refine (mirrors_guarded hg (mirrors_poll hg)).bind fun r => ?_
    cases r with
    | none => exact .pure _
    | some received => exact (mirrors_count _).bind fun _ => .pure _
  unfold receiveWith
  have hcore : (x.through g).host.coreError? (x.through g).owner.core =
    x.host.coreError? x.owner.core := rfl
  rw [hcore]
  cases x.host.coreError? x.owner.core with
  | some e => rfl
  | none => exact entering_through hg entered x

theorem transmitStaged_through (x : Exchange M) (d : Descriptor) :
    (x.through g).transmitStaged p s d = seen g (x.transmitStaged p s d) := by
  have entered : Mirrors (through g) (transmitEntered d : Step M Unit) (transmitEntered d) := by
    refine (mirrors_guarded hg (mirrors_send hg d)).bind fun r => ?_
    cases r with
    | ok _ => exact mirrors_count _
    | error e => exact (mirrors_count _).bind fun _ => .throw _
  unfold transmitStaged
  have hhost : (x.through g).host.coreError? (x.through g).owner.core =
      x.host.coreError? x.owner.core ∧ (x.through g).host.config = x.host.config := ⟨rfl, rfl⟩
  rw [hhost.1, hhost.2]
  cases x.host.coreError? x.owner.core with
  | some e => rfl
  | none =>
    dsimp only
    split
    · rfl
    · exact entering_through hg entered x

theorem transmitWith_through (x : Exchange M) (d : Descriptor) :
    (x.through g).transmitWith p s d = seen g (x.transmitWith p s d) := by
  unfold transmitWith
  rw [transmitStaged_through hg]
  obtain ⟨r, t, y⟩ := x.transmitStaged p s d
  rcases r with (_ | _ | _) | _ <;> rfl

theorem mirrors_drain (q : SpinPolicy Unit) (fuel drained : Nat) :
    Mirrors (through g) (drain q fuel drained : Step M Nat) (drain q fuel drained) := by
  have receive : Mirrors (through g) (receive q : Step M (Option Received)) (receive q) :=
    .of_ends fun x => ⟨_, _, .intro (receive q) x,
      congrArg (fun q : Except Stop (Option Received) × Unit × Exchange N => (q.1, q.2.2))
        (receiveWith_through hg (p := q) (s := ()) x)⟩
  induction fuel generalizing drained with
  | zero => exact .throw _
  | succ fuel ih =>
    refine receive.bind fun r => ?_
    cases r with
    | none => exact .pure _
    | some received => exact ih _

theorem mirrors_bringUp (q : SpinPolicy Unit) (fuel : Nat) :
    Mirrors (through g) (bringUp q fuel : Step M Nat) (bringUp q fuel) := by
  have invalidate : Mirrors (through g) (invalidateLines : Step M Unit) invalidateLines :=
    .get_bind fun _ => .forM _ fun _ => mirrors_onMemory (hg.invalidate _)
  exact mirrors_checkCore.bind fun _ => invalidate.bind fun _ => mirrors_drain hg q fuel 0

end Calls

end Exchange

/-- **Seen through another memory**, a call comes to the same, and leaves what is seen of what it
leaves. -/
theorem Call.make_through [Memory M] [Memory N] (hg : Mirrored g) (x : Exchange M) (call : Call) :
    call.make (x.through g) = ((call.make x).1, (call.make x).2.through g) := by
  cases call with
  | receive p t =>
    exact congrArg (fun q : Except Stop (Option Received) × _ × Exchange N =>
      (Outcome.ofCall .received q.1, q.2.2)) (Exchange.receiveWith_through hg x)
  | transmit p t d =>
    exact congrArg (fun q : Except Stop Unit × _ × Exchange N =>
      (Outcome.ofCall (fun _ => .done) q.1, q.2.2)) (Exchange.transmitWith_through hg x d)
  | prepare kind =>
    exact congrArg (fun q : Except Stop Descriptor × Exchange N =>
      (Outcome.ofCall .staged q.1, q.2)) ((Exchange.mirrors_prepare kind).out (.intro _ x))
  | resync next =>
    exact congrArg (fun q : Except Stop Unit × Exchange N =>
      (Outcome.ofCall (fun _ => .done) q.1, q.2)) ((Exchange.mirrors_resync next).out (.intro _ x))
  | bringUp p fuel =>
    exact congrArg (fun q : Except Stop Nat × Exchange N => (Outcome.ofCall .drained q.1, q.2))
      ((Exchange.mirrors_bringUp hg p fuel).out (.intro _ x))

/-! ## Memories that stand for others -/

namespace Traced

theorem mirrors_onInner (a : Access M α) : Mirrors inner (onInner a) a :=
  .of_ends fun t => ⟨_, _, ends_onInner (.intro a t.inner), .intro a t.inner⟩

theorem mirrors_logged (e : LogEntry) (a : Access M α) :
    Mirrors inner (do record e; onInner a) a :=
  .of_ends fun t => ⟨_, _, .bind (.modify _ t) (ends_onInner (.intro a t.inner)), .intro a t.inner⟩

/-- Nothing but the log is added. -/
theorem mirrored [Memory M] : Mirrored (inner : Traced M → M) where
  read _ _ := mirrors_logged ..
  write _ _ := mirrors_logged ..
  touch _ := mirrors_logged ..
  invalidate _ := mirrors_logged ..
  loadControl _ := mirrors_onInner _
  storeControl _ _ := mirrors_onInner _

end Traced

namespace Backing

theorem mirrors_access_device (onPlain : Access Region α) (onDevice : Access (Nic Region) α) :
    Mirrors device onDevice (access onPlain onDevice) :=
  .of_ends fun d => ⟨_, _, .intro onDevice d, ends_access_device (.intro onDevice d)⟩

theorem mirrored_device : Mirrored device where
  read _ _ := mirrors_access_device ..
  write _ _ := mirrors_access_device ..
  touch _ := mirrors_access_device ..
  invalidate _ := mirrors_access_device ..
  loadControl _ := mirrors_access_device ..
  storeControl _ _ := mirrors_access_device ..

end Backing
end LineExchange
