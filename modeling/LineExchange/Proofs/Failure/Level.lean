import LineExchange.Proofs.Isolation.Scoped

/-!
# LineExchange.Proofs.Failure.Level

States that are level: they differ at most in what is counted of failed attempts, namely how often
gates were tried in vain and transmits given up, and in whether a transmit buffer is there. No call
looks at any of these. So a call comes to the same on level states and leaves them level
(`Call.level`).
-/

namespace LineExchange

variable {S M α σ : Type}

/-- The scope of all that `R` tells apart. -/
def Scope.upTo (R : S → S → Prop) : Scope S where
  Holds _ := True
  Own := R
  Rest _ _ := True
  refl _ := trivial
  trans _ _ := trivial

theorem Confined.upTo {β : Type} {R : S → S → Prop} {f : S → β × S}
    (h : ∀ s t, R s t → (f s).1 = (f t).1 ∧ R (f s).2 (f t).2) : Confined (.upTo R) f :=
  ⟨fun _ _ => trivial, fun _ _ => trivial, fun s t _ _ => h s t⟩

theorem Confined.same {β : Type} {R : S → S → Prop} {f : S → β × S} (h : Confined (.upTo R) f)
    {s t : S} (hst : R s t) : (f s).1 = (f t).1 ∧ R (f s).2 (f t).2 :=
  h.own s t trivial trivial hst

/-- Entries and exits, without the failed attempts. -/
def Counters.passages (c : Counters) : Nat × Nat := (c.entries, c.exits)

/-- Statistics without the transmits that were given up. -/
def Stats.completed (s : Stats) : Stats := { s with aborted := 0 }

namespace Gate

/-- Two gates differ at most in how often they were tried in vain. -/
structure Level (g g' : Gate) : Prop where
  byte : g.byte = g'.byte
  passages : g.counters.passages = g'.counters.passages

variable {p : SpinPolicy σ} {g g' : Gate}

theorem Level.isOpen (h : Level g g') : g.isOpen = g'.isOpen := by
  simp only [Gate.isOpen, h.byte]

theorem Level.leave (h : Level g g') : Level g.leave g'.leave := by
  obtain ⟨hentries, hexits⟩ := Prod.mk.inj h.passages
  exact ⟨congrArg (ControlByte.setBusy · false) h.byte,
    Prod.ext hentries (congrArg (· + 1) hexits)⟩

theorem Level.entered (h : Level g g') : Level g.entered g'.entered := by
  obtain ⟨hentries, hexits⟩ := Prod.mk.inj h.passages
  exact ⟨congrArg (ControlByte.setBusy · true) h.byte,
    Prod.ext (congrArg (· + 1) hentries) hexits⟩

theorem Level.spinFrom_open (h : Level g g') (hopen : g.isOpen = true) (fuel failed : Nat) (s : σ) :
    let q := spinFrom p fuel failed g s
    let q' := spinFrom p fuel failed g' s
    (q.1, q.2.1) = (q'.1, q'.2.1) ∧ Level q.2.2 q'.2.2 := by
  rw [Gate.spinFrom_open hopen, Gate.spinFrom_open (h.isOpen.symm.trans hopen)]
  exact ⟨rfl, h.entered.byte, h.entered.passages⟩

theorem Level.spinFrom (fuel failed : Nat) (s : σ) (h : Level g g') :
    let q := spinFrom p fuel failed g s
    let q' := spinFrom p fuel failed g' s
    (q.1, q.2.1) = (q'.1, q'.2.1) ∧ Level q.2.2 q'.2.2 := by
  induction fuel generalizing failed g g' s with
  | zero =>
    cases hopen : g.isOpen with
    | true => exact h.spinFrom_open hopen ..
    | false =>
      simp only [Gate.spinFrom, tryEnter, hopen, h.isOpen.symm.trans hopen]
      exact ⟨rfl, h⟩
  | succ fuel ih =>
    cases hopen : g.isOpen with
    | true => exact h.spinFrom_open hopen ..
    | false =>
      -- the bytes are the same, so the policy is told the same
      cases hk : p.keepSpinning (failed + 1) s g.byte with | mk again rest =>
      obtain ⟨s', b⟩ := rest
      rw [spinFrom_closed again hopen hk,
        spinFrom_closed again (h.isOpen.symm.trans hopen) (h.byte ▸ hk)]
      cases again with
      | true => exact ih (failed + 1) s' ⟨rfl, h.passages⟩
      | false => exact ⟨rfl, rfl, h.passages⟩

end Gate

namespace Host

variable {h h' : Host M}

/-- Two hosts differ at most in how often gates were tried in vain. -/
structure Level (h h' : Host M) : Prop where
  memory : h.memory = h'.memory
  config : h.config = h'.config
  claimed : h.claimed = h'.claimed
  passages : h.counters.map Counters.passages = h'.counters.map Counters.passages

theorem Level.refl (h : Host M) : Level h h := ⟨rfl, rfl, rfl, rfl⟩

theorem Level.symm (l : Level h h') : Level h' h :=
  ⟨l.memory.symm, l.config.symm, l.claimed.symm, l.passages.symm⟩

theorem Level.trans {h'' : Host M} (l : Level h h') (l' : Level h' h'') : Level h h'' :=
  ⟨l.memory.trans l'.memory, l.config.trans l'.config, l.claimed.trans l'.claimed,
    l.passages.trans l'.passages⟩

theorem Level.countersOf (l : Level h h') (core : Nat) :
    (h.countersOf core).passages = (h'.countersOf core).passages := by
  have hget (k : Host M) : (k.countersOf core).passages =
      (k.counters.map Counters.passages).getD core (0, 0) := by
    simp only [Host.countersOf, Array.getD_eq_getD_getElem?, Array.getElem?_map]
    cases k.counters[core]? <;> rfl
  rw [hget, hget, l.passages]

theorem Level.coreError? (l : Level h h') (core : Nat) :
    h.coreError? core = h'.coreError? core := by
  simp only [Host.coreError?, l.config]

theorem Level.isClaimed (l : Level h h') (core : Nat) : h.isClaimed core = h'.isClaimed core := by
  simp only [Host.isClaimed, l.claimed]

theorem level_onMemory (a : Access M α) : Local (.upTo Level) (onMemory a) := by
  refine Confined.upTo ?_
  intro h h' l
  have hrun (k : Host M) : (ExceptT.run (onMemory a)).run k =
      ((Access.run a k.memory).1, { k with memory := (Access.run a k.memory).2 }) := rfl
  rw [hrun, hrun, l.memory]
  exact ⟨rfl, rfl, l.config, l.claimed, l.passages⟩

variable [Memory M]

theorem Level.gateOf (l : Level h h') (core : Nat) : (h.gateOf core).Level (h'.gateOf core) := by
  refine ⟨?_, l.countersOf core⟩
  simp only [Host.gateOf, workerAt, l.memory, l.config]

theorem Level.withGate (l : Level h h') {g g' : Gate} (lg : g.Level g') (core : Nat) :
    Level (h.withGate core g) (h'.withGate core g') := by
  refine ⟨?_, l.config, l.claimed, ?_⟩
  · simp only [Host.withGate, workerAt, l.memory, l.config, lg.byte]
  · simp only [Host.withGate, Array.map_setIfInBounds, l.passages, lg.passages]

/-- A step that cannot tell level gates apart cannot do so on level hosts. -/
theorem level_onGate [LawfulMemory M] (core : Nat) {f : Gate → α × Gate}
    (hf : Confined (.upTo Gate.Level) f) :
    Local (.upTo Level) (onGate core f : Access (Host M) α) := by
  refine Confined.upTo ?_
  intro h h' l
  have hat : h.workerAt core = h'.workerAt core := by simp only [workerAt, l.config]
  rcases Nat.lt_or_ge (h.workerAt core) (Memory.size h.memory) with hin | hout
  · have hin' : h'.workerAt core < Memory.size h'.memory := by rwa [← hat, ← l.memory]
    have hrun : (ExceptT.run (onGate core f)).run h = _ := ends_onGate f hin
    have hrun' : (ExceptT.run (onGate core f)).run h' = _ := ends_onGate f hin'
    obtain ⟨heq, lg⟩ := hf.same (l.gateOf core)
    rw [hrun, hrun', heq]
    exact ⟨rfl, l.withGate lg core⟩
  · obtain ⟨e, he⟩ := LawfulMemory.load_outside _ _ hout
    have stays {k : Host M} (hload : Ends (Memory.loadControl (k.workerAt core)) k.memory
        (.error e) k.memory) : (ExceptT.run (onGate core f)).run k = (.error e, k) :=
      Ends.bind_error (.bind (.get k) (.bind_error (ends_onMemory hload)))
    rw [stays he, stays (by rwa [← hat, ← l.memory])]
    exact ⟨rfl, l⟩

end Host

/-! ## Calls -/

/-- Two owners differ at most in how many transmits were given up and in the transmit buffer. -/
structure Owner.Level (o o' : Owner) : Prop where
  core : o.core = o'.core
  next : o.next = o'.next
  rxBuffer : o.rxBuffer = o'.rxBuffer
  stats : o.stats.completed = o'.stats.completed

theorem Owner.Level.refl (o : Owner) : o.Level o := ⟨rfl, rfl, rfl, rfl⟩

theorem Owner.Level.symm {o o' : Owner} (l : o.Level o') : o'.Level o :=
  ⟨l.core.symm, l.next.symm, l.rxBuffer.symm, l.stats.symm⟩

theorem Owner.Level.trans {o o' o'' : Owner} (l : o.Level o') (l' : o'.Level o'') : o.Level o'' :=
  ⟨l.core.trans l'.core, l.next.trans l'.next, l.rxBuffer.trans l'.rxBuffer,
    l.stats.trans l'.stats⟩

namespace Exchange

/-- Two exchanges differ at most in what is counted of failed attempts and in the transmit
buffer. -/
structure Level (x y : Exchange M) : Prop where
  host : x.host.Level y.host
  owner : x.owner.Level y.owner

abbrev Levels (a : Step M α) : Prop := Local (.upTo Level) a

theorem confined_level {β : Type} {f : Host M → β × Host M}
    (hf : Confined (.upTo Host.Level) f) : Confined (.upTo Level) fun x : Exchange M =>
      ((f x.host).1, { x with host := (f x.host).2 }) := by
  refine Confined.upTo ?_
  intro x y l
  obtain ⟨heq, lh⟩ := hf.same l.host
  exact ⟨heq, lh, l.owner⟩

theorem level_onHost {a : Access (Host M) α} (ha : Local (.upTo Host.Level) a) :
    Levels (onHost a) :=
  Confined.map (confined_level ha) (Except.mapError Stop.fault)

theorem level_onMemory (a : Access M α) : Levels (onMemory a) :=
  level_onHost (Host.level_onMemory a)

theorem level_setOwner {f : Owner → Owner} (hf : ∀ o o', o.Level o' → (f o).Level (f o')) :
    Levels (modify fun x => { x with owner := f x.owner } : Step M PUnit) :=
  .modify (fun _ _ => trivial) (fun _ _ => trivial) fun _ _ _ _ l => ⟨l.host, hf _ _ l.owner⟩

theorem level_count {f : Stats → Stats}
    (hf : ∀ s s', s.completed = s'.completed → (f s).completed = (f s').completed) :
    Levels (count f : Step M Unit) :=
  level_setOwner (f := fun o => { o with stats := f o.stats })
    fun _ _ l => ⟨l.core, l.next, l.rxBuffer, hf _ _ l.stats⟩

theorem level_countAborted :
    Levels (count fun s => { s with aborted := s.aborted + 1 } : Step M Unit) :=
  level_count fun _ _ h => h

theorem level_toggle (d : Direction) : Levels (toggle d : Step M Unit) :=
  level_setOwner (f := fun o => { o with next := o.next.toggle d })
    fun _ _ l => ⟨l.core, congrArg (·.toggle d) l.next, l.rxBuffer, l.stats⟩

theorem level_fillBuffer (start : Nat) (data : Bytes) :
    Levels (fillBuffer start data : Step M Unit) :=
  level_setOwner (f := fun o => { o with rxBuffer := o.rxBuffer.patch start data })
    fun _ _ l => ⟨l.core, l.next, congrArg (·.patch start data) l.rxBuffer, l.stats⟩

theorem level_get_bind {f : Exchange M → Step M α} (same : ∀ x y, x.Level y → f x = f y)
    (hf : ∀ x, Levels (f x)) : Levels (get >>= f) :=
  .get_bind (fun x y _ _ l => same x y l) fun x _ => hf x

theorem level_checkCore : Levels (checkCore : Step M Unit) := by
  refine level_get_bind ?_ ?_
  · intro x y l
    rw [l.host.coreError?, l.owner.core]
  · intro x
    split
    · exact .throw _
    · exact .pure _

theorem level_resync (next : Parity) : Levels (resync next : Step M Unit) :=
  level_checkCore.bind fun _ =>
    level_setOwner (f := fun o => { o with next }) fun _ _ l => ⟨l.core, rfl, l.rxBuffer, l.stats⟩

theorem level_prepare (kind : TransactionKind) : Levels (prepare kind : Step M Descriptor) := by
  refine Confined.upTo ?_
  intro x y l
  have hrun (z : Exchange M) : (ExceptT.run (prepare kind)).run z = _ := ends_prepare z kind
  rw [hrun, hrun, l.host.config]
  exact ⟨rfl, l.host, l.owner.core, l.owner.next, l.owner.rxBuffer, l.owner.stats⟩

theorem same_core_level (x y : Exchange M) (_ _ : True) (l : x.Level y) :
    x.owner.core = y.owner.core := l.owner.core

theorem same_config_level (x y : Exchange M) (_ _ : True) (l : x.Level y) :
    x.host.config = y.host.config := l.host.config

variable [Memory M]

theorem level_poll : Levels (poll : Step M (Option Received)) := by
  refine level_get_bind ?_ ?_
  · intro x y l
    simp only [rxLimit, Owner.rxCapacity, l.host.config, l.owner.core, l.owner.next,
      l.owner.rxBuffer]
  · intro x
    have finish (len : Nat) (t : Transaction) : Levels (get >>= fun z : Exchange M =>
        pure (some (Received.mk t (z.owner.rxBuffer.slice 0 len))) : Step M _) := by
      refine level_get_bind ?_ fun _ => .pure _
      intro z z' l
      rw [l.owner.rxBuffer]
    refine (Local.map (level_onMemory _) _).bind fun line => (level_toggle .rx).bind fun _ => ?_
    dsimp only
    split
    · split
      · exact .throw _
      · refine (level_fillBuffer 0 _).bind fun _ => ?_
        split
        · exact (level_onMemory _).bind fun data =>
            (level_fillBuffer _ data).bind fun _ => finish _ _
        · exact finish _ _
    · refine (level_count ?_).bind fun _ => .pure _
      intro s s' hs
      simp_all [Stats.completed]

theorem level_writeStaged (d : Descriptor) (line : Line) :
    Levels (writeStaged d line : Step M Unit) := by
  refine level_get_bind ?_ ?_
  · intro x y l
    rw [l.host.config, l.owner.core, l.owner.next]
  · intro x
    dsimp only
    split
    · exact (level_onMemory _).bind fun _ => level_onMemory _
    · exact level_onMemory _

theorem level_ringDoorbell : Levels (ringDoorbell : Step M Unit) := by
  refine (level_toggle .tx).bind fun _ => level_get_bind ?_ fun _ => level_onMemory _
  intro x y l
  rw [l.host.config, l.owner.core, l.owner.next]

theorem level_send (d : Descriptor) : Levels (send d : Step M (Except EncodeError Unit)) := by
  refine level_get_bind ?_ ?_
  · intro x y l
    rw [l.host.config]
  · intro x
    split
    · exact (level_writeStaged d _).bind fun _ => level_ringDoorbell.bind fun _ => .pure _
    · exact level_ringDoorbell.bind fun _ => .pure _

theorem level_invalidateLines : Levels (invalidateLines : Step M Unit) := by
  refine level_get_bind ?_ fun _ => .forM fun _ _ => level_onMemory _
  intro x y l
  rw [l.host.config, l.owner.core]

theorem level_guarded {body : Step Backing α} (hbody : Levels body) : Levels (guarded body) := by
  refine local_guarded_of same_core_level hbody fun x _ => level_onHost ?_
  exact Host.level_onGate _ (Confined.upTo fun g g' l => ⟨rfl, l.leave⟩)

theorem level_receiveEntered : Levels (receiveEntered : Step Backing (Option Received)) := by
  refine (level_guarded level_poll).bind fun r => ?_
  split
  · exact .pure _
  · refine (level_count ?_).bind fun _ => .pure _
    intro s s' hs
    simp_all [Stats.completed]

theorem level_transmitEntered (d : Descriptor) :
    Levels (transmitEntered d : Step Backing Unit) := by
  refine (level_guarded (level_send d)).bind fun r => ?_
  split
  · refine level_count ?_
    intro s s' hs
    simp_all [Stats.completed]
  · exact level_countAborted.bind fun _ => .throw _

section Calls

variable (p : SpinPolicy σ) (s : σ)

theorem level_entering {rest : Step Backing α} (hrest : Levels rest) :
    Confined (.upTo Level) fun x : Exchange Backing => paired (x.entering p s rest) := by
  have tries : Confined (.upTo Gate.Level) fun g : Gate =>
      (((g.enter p s).1, (g.enter p s).2.1), (g.enter p s).2.2) :=
    Confined.upTo fun g g' l => l.spinFrom p.followed 0 s
  refine confined_entering_of (confined_enter_of same_core_level ?_) hrest
  intro x _
  exact confined_level (Host.level_onGate _ tries)

theorem level_receiveWith :
    Confined (.upTo Level) fun x : Exchange Backing => paired (x.receiveWith p s) :=
  confined_receiveWith_of same_core_level same_config_level
    (level_entering p s level_receiveEntered)

theorem level_transmitWith (d : Descriptor) :
    Confined (.upTo Level) fun x : Exchange Backing => paired (x.transmitWith p s d) := by
  have staged : Confined (.upTo Level)
      fun x : Exchange Backing => paired (x.transmitStaged p s d) :=
    confined_transmitStaged_of same_core_level same_config_level level_countAborted
      fun _ _ _ => level_entering p s (level_transmitEntered d)
  refine confined_transmitWith_of ?_ staged
  intro v
  exact Confined.upTo fun _ _ l =>
    ⟨rfl, l.host, l.owner.core, l.owner.next, l.owner.rxBuffer, l.owner.stats⟩

end Calls

theorem level_bringUp (p : SpinPolicy Unit) (fuel : Nat) :
    Levels (bringUp p fuel : Step Backing Nat) := by
  have receives : Levels (receive p : Step Backing (Option Received)) :=
    Confined.map (level_receiveWith p ()) Prod.fst
  exact level_checkCore.bind fun _ => level_invalidateLines.bind fun _ =>
    local_drain_of receives fuel 0

end Exchange

/-- A call comes to the same on level exchanges, and leaves them level. -/
theorem Call.level (call : Call) :
    Confined (.upTo Exchange.Level) fun x : Exchange Backing => call.make x := by
  cases call with
  | receive p t =>
    exact Confined.map (Exchange.level_receiveWith p t) fun r =>
      Outcome.ofCall .received r.1
  | prepare kind => exact Confined.map (Exchange.level_prepare kind) (Outcome.ofCall .staged)
  | transmit p t d =>
    exact Confined.map (Exchange.level_transmitWith p t d) fun r =>
      Outcome.ofCall (fun _ => .done) r.1
  | resync next => exact Confined.map (Exchange.level_resync next) (Outcome.ofCall fun _ => .done)
  | bringUp p fuel => exact Confined.map (Exchange.level_bringUp p fuel) (Outcome.ofCall .drained)

end LineExchange
