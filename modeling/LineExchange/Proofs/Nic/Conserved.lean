import LineExchange.Proofs.Nic.Ledger

/-!
# LineExchange.Proofs.Nic.Conserved

The statistics of an owner at a station reconcile with the counters of its gate, and with the queue
of the device if there is one.

* `Station.Serving`: a station whose memory serves its cores; every operation keeps it.
* `Station.turn`: an operation as the owner of a core sees it. `Station.follows`: an owner that is
  alone at its core goes on turn by turn as the station does, and no call breaks off.
* `Station.settles_step`, `Station.settles_after`: packets that were queued for a core, those of
  `Station.heard` among them, are still pending, or a receive has told of them, each once and in
  turn.
* `Station.statistics_reconcile`: all of it.
-/

namespace LineExchange

variable {α : Type} {c : Config} {core : Nat}

theorem Call.counters_make {M : Type} [Memory M] [LawfulMemory M] {x : Exchange M}
    (hcounters : x.host.counters.size = x.host.config.numCores) (call : Call) :
    (call.make x).2.host.counters.size = x.host.counters.size := by
  cases call with
  | receive p t => exact (Exchange.passes_receive hcounters).1.visits.counters_size
  | transmit p t d => exact (Exchange.passes_transmit hcounters d).visits.counters_size
  | bringUp p fuel => exact (Exchange.visits_bringUp hcounters fuel).1.counters_size
  | prepare kind => rw [make_prepare]
  | resync next =>
    rw [make_resync]
    obtain ⟨-, hrun⟩ | ⟨e, -, hrun⟩ := Exchange.run_resync next x
    · rw [hrun]
    · rw [hrun]

/-- The settings of a host never change. -/
theorem Host.eq_of_parts {M : Type} {h h' : Host M} (hconfig : h'.config = h.config) :
    { h with memory := h'.memory, counters := h'.counters, claimed := h'.claimed } = h' := by
  obtain ⟨_, _, _, _, _⟩ := h
  obtain ⟨_, _, _, _, _⟩ := h'
  cases hconfig
  rfl

theorem Host.counters_onGate {M : Type} [Memory M] (n : Nat) (f : Gate → α × Gate) :
    Keeps (fun h : Host M => h.counters.size = n) (onGate core f) := by
  have memory {β : Type} (a : Access M β) :
      Keeps (fun h : Host M => h.counters.size = n) (onMemory a) := .onPart fun _ _ _ _ h => h
  have store (g : Gate) : Keeps (fun h : Host M => h.counters.size = n) (setGate core g) :=
    .get_bind fun _ _ => (memory _).bind fun _ =>
      .modify fun _ h => Array.size_setIfInBounds.trans h
  have load : Keeps (fun h : Host M => h.counters.size = n) (gate core) :=
    .get_bind fun _ _ => (memory _).bind fun _ => .pure _
  exact load.bind fun _ => (store _).bind fun _ => .pure _

namespace Station

variable {s : Station}

/-! ## Stations that serve -/

/-- A station whose memory serves its cores, and whose owners are on cores that are mapped. -/
structure Serving (c : Config) (s : Station) : Prop where
  tidy : s.Tidy c
  memory : s.host.memory.Serves c
  counters : s.host.counters.size = c.numCores
  mapped : ∀ core o, s.owners core = some o → core < c.numCores

theorem counters_onGate (say : α → Outcome) (f : Gate → α × Gate) :
    (s.onGate core say f).2.host.counters.size = s.host.counters.size := by
  unfold onGate
  split
  · rfl
  · exact (Host.counters_onGate _ f).out (.intro _ s.host) rfl

theorem mapped_claim {next : Parity} {o : Owner}
    (h : (s.claim core next).2.owners core = some o) :
    s.owners core = some o ∨ core < s.host.config.numCores := by
  cases hcore : s.host.coreError? core with
  | none => exact .inr (Host.lt_of_coreError? hcore)
  | some e =>
    rw [claim_eq, Access.run, Host.claim_run, hcore] at h
    exact .inl h

theorem host_claim (s : Station) (core : Nat) (next : Parity) :
    (s.claim core next).2.host = s.host ∨
      (s.claim core next).2.host = s.host.setClaimed core true := by
  have hsettle (r : Except Fault (Except ExchangeError Owner)) (t : Station) :
      (settle core r t).2.host = t.host := by
    unfold settle
    split <;> rfl
  rw [claim_eq, hsettle, Access.run, Host.claim_run]
  unfold Host.claimed?
  split
  · exact .inl rfl
  · split
    · exact .inl rfl
    · split
      · exact .inr rfl
      · exact .inl rfl

theorem host_drop (core : Nat) (hs : s.Tidy c) : (s.drop core).2.host = s.host ∨
    (s.drop core).2.host = s.host.release core := by
  unfold drop
  split
  · exact .inl rfl
  · next o ho =>
    dsimp only
    rw [hs.owner core o ho]
    exact .inr rfl

theorem host_hold : (s.hold core).2.host = (s.onGate core .held attempt).2.host := by
  rw [hold_eq]
  unfold keep
  split <;> rfl

theorem Serving.counters_step (h : s.Serving c) (op : Op) :
    (s.step op).2.host.counters.size = s.host.counters.size := by
  have made (o : Owner) (call : Call) :
      (call.make ⟨s.host, o⟩).2.host.counters.size = s.host.counters.size :=
    call.counters_make (h.counters.trans (congrArg Config.numCores h.tidy.host.config).symm)
  cases op with
  | claim core next =>
    rcases host_claim s core next with hhost | hhost
    · exact congrArg (·.counters.size) hhost
    · exact congrArg (·.counters.size) hhost
  | drop core =>
    rcases host_drop core h.tidy with hhost | hhost
    · exact congrArg (·.counters.size) hhost
    · exact congrArg (·.counters.size) hhost
  | call core call =>
    show (s.call core call).2.host.counters.size = _
    unfold Station.call
    split
    · rfl
    · exact made _ call
  | visit o call => exact made o call
  | setReady core v => exact counters_onGate _ _
  | hold core => exact (congrArg (·.counters.size) host_hold).trans (counters_onGate _ _)
  | leave core =>
    show (s.leave core).2.host.counters.size = _
    unfold leave
    split
    · rfl
    · exact counters_onGate _ _
  | grant core v => rfl
  | inject core t payload => rfl
  | setLoopback core v => rfl
  | takeSent core => rfl

theorem Serving.step (hl : c.layout.Ordered) (h : s.Serving c) (op : Op) :
    (s.step op).2.Serving c := by
  have hstep := confined_step hl op
  refine ⟨hstep.holds s h.tidy, serves_step hl h.tidy h.memory op,
    (h.counters_step op).trans h.counters, ?_⟩
  · intro k o ho
    by_cases hk : k = op.core
    · subst hk
      cases came_step op ho with
      | kept ho' => exact h.mapped _ _ ho'
      | claimed core =>
        rcases mapped_claim ho with ho' | hlt
        · exact h.mapped core o ho'
        · rwa [h.tidy.host.config] at hlt
      | called ho' _ => exact h.mapped _ _ ho'
    · rw [← (hstep.rest s h.tidy k hk).owner] at ho
      exact h.mapped k o ho

theorem Serving.after (hl : c.layout.Ordered) (h : s.Serving c) (ops : List Op) :
    (s.after ops).Serving c := by
  induction ops generalizing s with
  | nil => exact h
  | cons op ops ih => exact ih (h.step hl op)

theorem Opened.serving (h : s.Opened c) (hword : Memory.size s.host.memory < wordMax) :
    s.Serving c := by
  have htidy := h.tidy
  cases h with
  | @plain r host hopen =>
    obtain ⟨hmemory, rfl, hcounters, -, hsize⟩ := Host.of_open? hopen
    rw [hmemory] at hword
    refine ⟨htidy, ?_, hcounters ▸ Array.size_replicate, nofun⟩
    rw [hmemory]
    exact host.config.layout.fits_of_requiredSize host.ordered hsize hword
  | @device r d host hstart hopen =>
    obtain ⟨hmemory, -, hcounters, -⟩ := Host.of_open? hopen
    obtain ⟨hl, -, -⟩ := sound_open hstart hopen
    refine ⟨htidy, ?_, hcounters ▸ Array.size_replicate, nofun⟩
    rw [hmemory]
    exact (Nic.counts_start hl hstart).1

end Station

/-! ## An owner that is alone -/

namespace Op

/-- The call that an operation is for the owner of a core, if it is one of its own. -/
def ownCall? (core : Nat) : Op → Option Call
  | call k c => if k = core then some c else none
  | _ => none

/-- Whether someone is at work on the core besides its owner, or the owner changes. -/
def intrudes : Op → Bool
  | claim .. => true
  | drop _ => true
  | visit .. => true
  | hold _ => true
  | leave _ => true
  | _ => false

theorem eq_of_ownCall? {op : Op} {call : Call} (h : op.ownCall? core = some call) :
    op = .call core call := by
  cases op with
  | call k c =>
    have hcall : (if k = core then some c else none) = some call := h
    split at hcall
    · next hk => rw [hk, Option.some.inj hcall]
    · cases hcall
  | _ => cases h

/-- The operation leaves the owner of a core alone. What the device does, it may do. -/
def Spares (core : Nat) (op : Op) : Prop := op.core = core → op.intrudes = false

end Op

namespace Station

variable {s : Station} {o : Owner}

/-- An operation as the owner of a core sees it. -/
def turn (s : Station) (core : Nat) (op : Op) : Turn Backing :=
  match op.ownCall? core with
  | some call => .call call
  | none =>
    let host := (s.step op).2.host
    .others host.memory host.counters host.claimed

/-- A run as the owner of a core sees it. -/
def turns (core : Nat) : Station → List Op → List (Turn Backing)
  | _, [] => []
  | s, op :: ops => s.turn core op :: turns core (s.step op).2 ops

theorem step_call (ho : s.owners core = some o) (call : Call) :
    (s.step (.call core call)).2 = { s with
      host := (call.make ⟨s.host, o⟩).2.host
      owners := Function.update s.owners core (some (call.make ⟨s.host, o⟩).2.owner) } :=
  congrArg Prod.snd (step_call_eq ho call)

theorem countersOf_setReady (hcore : core < s.host.counters.size) (v : Bool) :
    (s.step (.setReady core v)).2.host.countersOf core = s.host.countersOf core := by
  show (s.onGate core _ fun g => ((), g.setReady v)).2.host.countersOf core = _
  unfold onGate
  split
  · rfl
  · unfold onHost Access.run
    rcases Nat.lt_or_ge (s.host.workerAt core) (Memory.size s.host.memory) with hin | hout
    · have hend := Host.ends_onGate (fun g => ((), g.setReady v)) hin
      rw [hend]
      exact (Host.countersOf_withGate hcore core).trans (if_pos rfl)
    · obtain ⟨f, hend⟩ := Host.ends_onGate_outside (fun g => ((), g.setReady v)) hout
      rw [hend]

/-- What others do leaves the owner and the counters of its gate as they are. -/
theorem Serving.others (hl : c.layout.Ordered) (h : s.Serving c) (ho : s.owners core = some o)
    {op : Op} (hspares : op.Spares core) (hnone : op.ownCall? core = none) :
    (s.step op).2.owners core = some o ∧
      (s.step op).2.host.countersOf core = s.host.countersOf core := by
  by_cases hcore : op.core = core
  · have hmild := hspares hcore
    cases op with
    | claim => cases hmild
    | drop => cases hmild
    | visit => cases hmild
    | hold => cases hmild
    | leave => cases hmild
    | call k call =>
      have hcall : (if k = core then some call else none) = none := hnone
      rw [if_pos (show k = core from hcore)] at hcall
      cases hcall
    | setReady k v =>
      obtain rfl : k = core := hcore
      refine ⟨(congrFun (owners_onGate (s := s) _ _) k).trans ho, countersOf_setReady ?_ v⟩
      exact (h.mapped k o ho).trans_eq h.counters.symm
    | grant k v => exact ⟨ho, rfl⟩
    | inject k t payload => exact ⟨ho, rfl⟩
    | setLoopback k v => exact ⟨ho, rfl⟩
    | takeSent k => exact ⟨ho, rfl⟩
  · have hrest := (confined_step hl op).rest s h.tidy core (Ne.symm hcore)
    exact ⟨hrest.owner.symm.trans ho, hrest.host.countersOf.symm⟩

/-- What the receives of an operation come to. -/
def receivesOf (s : Station) : Op → List (Except Stop (Option Received))
  | .call core call =>
    match s.owners core with
    | some o => call.receives ⟨s.host, o⟩
    | none => []
  | .visit o call => call.receives ⟨s.host, o⟩
  | _ => []

theorem receivesOf_transmit {σ : Type} {p : SpinPolicy σ} {t : σ} {d : Descriptor} :
    s.receivesOf (.call core (.transmit p t d)) = [] := by
  rw [receivesOf]
  cases s.owners core <;> rfl

theorem receivesOf_of_received (ho : s.owners core = some o) {σ : Type} {p : SpinPolicy σ} {t : σ}
    {v : Option Received} (h : (s.step (.call core (.receive p t))).1 = .received v) :
    s.receivesOf (.call core (.receive p t)) = [.ok v] := by
  rw [step_call_eq ho] at h
  rw [receivesOf, ho]
  exact congrArg (fun r => [r]) (Outcome.ok_of_received h)

/-- What the receives on a core come to in a run. -/
def heard (core : Nat) : Station → List Op → List (Except Stop (Option Received))
  | _, [] => []
  | s, op :: ops =>
    (if op.core = core then s.receivesOf op else []) ++ heard core (s.step op).2 ops

/-- An operation is a turn of the owner of a core, who goes on from `o` to `o'`: nobody else used
the gate, and the call broke off in no direction, if it was one. -/
structure Turned (s : Station) (core : Nat) (op : Op) (o o' : Owner) : Prop where
  owner : (s.step op).2.owners core = some o'
  take : (s.turn core op).take ⟨s.host, o⟩ = ⟨(s.step op).2.host, o'⟩
  alone : Exchange.Alone ⟨s.host, o⟩ [s.turn core op]
  whole : ∀ d, (s.turn core op).breaks ⟨s.host, o⟩ d = false
  receives : Exchange.receives ⟨s.host, o⟩ [s.turn core op] =
    if op.core = core then s.receivesOf op else []

theorem Serving.turned_call (h : s.Serving c) (ho : s.owners core = some o) (call : Call) :
    s.Turned core (.call core call) o (call.make ⟨s.host, o⟩).2.owner := by
  have hstep := step_call ho call
  have hturn : s.turn core (.call core call) = .call call := by
    unfold turn
    rw [show (Op.call core call).ownCall? core = some call from if_pos rfl]
  constructor
  case owner =>
    rw [hstep]
    exact Function.update_self ..
  case take =>
    rw [hturn, hstep]
    rfl
  case alone =>
    rw [hturn]
    trivial
  case whole =>
    intro d
    rw [hturn]
    exact call.whole_make (x := ⟨s.host, o⟩) (h.tidy.host.config ▸ h.memory) d
  case receives =>
    rw [hturn, if_pos (show (Op.call core call).core = core from rfl), receivesOf, ho]
    exact List.append_nil _

theorem Serving.turned_others (hl : c.layout.Ordered) (h : s.Serving c)
    (ho : s.owners core = some o) {op : Op} (hspares : op.Spares core)
    (hnone : op.ownCall? core = none) : s.Turned core op o o := by
  obtain ⟨ho', hcounters⟩ := h.others hl ho hspares hnone
  have hconfig : (s.step op).2.host.config = s.host.config :=
    (h.step hl op).tidy.host.config.trans h.tidy.host.config.symm
  have hturn : s.turn core op = .others (s.step op).2.host.memory (s.step op).2.host.counters
      (s.step op).2.host.claimed := by
    unfold turn
    rw [hnone]
  constructor
  case owner => exact ho'
  case take =>
    rw [hturn, ← Host.eq_of_parts hconfig]
    rfl
  case alone =>
    rw [hturn]
    refine ⟨h.counters_step op, ?_, trivial⟩
    show (s.step op).2.host.countersOf o.core = s.host.countersOf o.core
    rw [h.tidy.owner core o ho]
    exact hcounters
  case whole =>
    rw [hturn]
    exact fun d => rfl
  case receives =>
    rw [hturn]
    split
    · next hcore =>
      cases op with
      | call k call =>
        have hcall : (if k = core then some call else none) = none := hnone
        rw [if_pos (show k = core from hcore)] at hcall
        cases hcall
      | visit o' call => cases hspares hcore
      | _ => rfl
    · rfl

/-- What spares the owner of a core is a turn of it. -/
theorem Serving.turned (hl : c.layout.Ordered) (h : s.Serving c) (ho : s.owners core = some o)
    {op : Op} (hspares : op.Spares core) : ∃ o', s.Turned core op o o' := by
  cases hown : op.ownCall? core with
  | some call =>
    cases Op.eq_of_ownCall? hown
    exact ⟨_, h.turned_call ho call⟩
  | none => exact ⟨o, h.turned_others hl ho hspares hown⟩

/-- An owner that is alone goes on turn by turn as the station does, and none of its calls breaks
off. -/
theorem Serving.follows (hl : c.layout.Ordered) (h : s.Serving c) (ho : s.owners core = some o)
    {ops : List Op} (hspares : ∀ op ∈ ops, op.Spares core) :
    let x : Exchange Backing := ⟨s.host, o⟩
    let turns := s.turns core ops
    ∃ o', (s.after ops).owners core = some o' ∧
      Exchange.after x turns = ⟨(s.after ops).host, o'⟩ ∧ Exchange.Alone x turns ∧
      ∀ d, Exchange.broken d x turns = 0 := by
  induction ops generalizing s o with
  | nil => exact ⟨o, ho, rfl, trivial, fun _ => rfl⟩
  | cons op ops ih =>
    obtain ⟨o₁, hturned⟩ := h.turned hl ho (hspares op (.head ops))
    obtain ⟨o', ho', hafter, halone, hbroken⟩ :=
      ih (h.step hl op) hturned.owner fun op' hop' => hspares op' (.tail op hop')
    rw [← hturned.take] at hafter halone hbroken
    refine ⟨o', ho', hafter, Exchange.alone_cons.2 ⟨hturned.alone, halone⟩, fun d => ?_⟩
    show (Turn.breaks _ d _).toNat + _ = 0
    rw [hturned.whole]
    exact (Nat.zero_add _).trans (hbroken d)

theorem Serving.receives_turns (hl : c.layout.Ordered) (h : s.Serving c)
    (ho : s.owners core = some o) {ops : List Op} (hspares : ∀ op ∈ ops, op.Spares core) :
    Exchange.receives ⟨s.host, o⟩ (s.turns core ops) = heard core s ops := by
  induction ops generalizing s o with
  | nil => rfl
  | cons op ops ih =>
    obtain ⟨o', hturned⟩ := h.turned hl ho (hspares op (.head ops))
    rw [turns, Exchange.receives_cons, hturned.receives, hturned.take,
      ih (h.step hl op) hturned.owner fun op' hop' => hspares op' (.tail op hop'), heard]

end Station

/-! ## The queue of a device -/

/-- Whether all went well and there is nothing to tell. -/
def Outcome.isDone : Outcome → Bool
  | done => true
  | _ => false

theorem Host.On.alike {st : Stock} {h h' : Host Backing} (hh : h.On c (Nic.Holds c core st))
    (hconfig : h'.config = c) (ha : h.Alike c core h') : h'.On c (Nic.Holds c core st) := by
  obtain ⟨d, hmem, hd⟩ := hh.device
  have hmemory := ha.memory
  rw [hmem] at hmemory
  refine ⟨hconfig, ?_⟩
  generalize h'.memory = b at hmemory ⊢
  cases hmemory with
  | device hdevice => exact ⟨_, rfl, hd.alike hdevice⟩

theorem Carries.packet_eq {cap : Nat} {raw : RawTransaction} {p : Packet}
    (h : Carries c.format cap raw p) : raw.packet c = p := by
  rw [RawTransaction.packet, RawTransaction.announced, h.header]
  exact congrArg (Packet.mk p.transaction) h.payload

namespace Station

variable {s : Station} {o : Owner} {st : Stock} {a : Ports}

/-- What the device holds for a core, which is nothing if there is no device. -/
def stock (s : Station) (core : Nat) : Stock :=
  ((s.host.memory.device? core).map (·.stock)).getD {}

/-- The packets that are queued for a core. -/
def pending (s : Station) (core : Nat) : List Packet := (s.stock core).packets s.host.config

/-- The packets of a core that are sent in a call and come back, as they do in loopback. -/
def returned (s : Station) (core : Nat) (op : Op) : List Packet :=
  if (s.stock core).loopback then
    ((s.step op).2.stock core).sent.drop (s.stock core).sent.length
  else []

/-- The packets that an operation queues for a core. -/
def queuedBy (s : Station) (core : Nat) : Op → List Packet
  | .inject k t payload =>
    if k = core ∧ (s.step (.inject k t payload)).1.isDone then
      [⟨s.host.config.format.wireForm t, payload⟩]
    else []
  | .call k call => s.returned core (.call k call)
  | .visit o call => s.returned core (.visit o call)
  | _ => []

/-- The packets that are queued for a core in a run. -/
def queued (core : Nat) : Station → List Op → List Packet
  | _, [] => []
  | s, op :: ops => s.queuedBy core op ++ queued core (s.step op).2 ops

theorem stock_eq (h : s.host.On c (Nic.Holds c core st)) : s.stock core = st := by
  obtain ⟨d, hmem, hd⟩ := h.device
  unfold stock
  rw [hmem]
  exact congrArg (·.getD {}) hd.stock

theorem pending_eq (h : s.host.On c (Nic.Holds c core st)) : s.pending core = st.packets c := by
  rw [pending, stock_eq h, h.config]

/-- A device that behaves as the ports holds what they hold. -/
theorem Tracks.stock (h : s.Tracks c a) (hcore : core < c.numCores) :
    ∃ raws, s.stock core = ⟨raws, (a core).sent, (a core).loopback⟩ ∧
      List.Forall₂ (Carries c.format c.layout.payloadCapacity) raws (a core).queue := by
  obtain ⟨d, hmem, hd⟩ := h.device
  obtain ⟨raws, hstock, hcarries⟩ := hd.stocks core hcore
  refine ⟨raws, ?_, hcarries⟩
  unfold Station.stock
  rw [hmem]
  exact congrArg (·.getD {}) hstock

theorem Tracks.pending (h : s.Tracks c a) (hcore : core < c.numCores) :
    s.pending core = (a core).queue := by
  obtain ⟨raws, hstock, hcarries⟩ := h.stock hcore
  rw [Station.pending, hstock, h.config]
  have hsame : List.Forall₂ Eq (raws.map (·.packet c)) (a core).queue :=
    List.forall₂_map_left_iff.2 (hcarries.imp fun _ _ hraw => hraw.packet_eq)
  rwa [List.forall₂_eq_eq_eq] at hsame

theorem isDone_injected (r : Except EncodeError Unit) :
    (Answer.injected r).outcome.isDone = r.isOk := by
  cases r <;> rfl

theorem returned_of_same {op : Op} (h : (s.step op).2.stock core = s.stock core) :
    s.returned core op = [] := by
  rw [returned, h, List.drop_length, ite_self]

/-- An access to the device. -/
theorem on_onDevice {P : Nic Region → Prop} (say : α → Outcome) {a : Access (Nic Region) α}
    {Q : α → Nic Region → Prop} (ha : Meets P a Q Never) (hs : s.host.On c P) :
    ∃ v, (s.onDevice say a).1 = say v ∧ (s.onDevice say a).2.host.On c (Q v) := by
  have said : Meets P ((some ∘ say) <$> a) (fun r d => ∃ v, r = some (say v) ∧ Q v d) Never :=
    ha.map _ fun v _ hd => ⟨v, rfl, hd⟩
  obtain ⟨r, hr, hon⟩ := on_onHost (·.getD .absent) (Host.meets_access (pure none) said) hs
  obtain ⟨d, hmem, v, rfl, hd⟩ := hon.device
  exact ⟨v, hr, hon.config, d, hmem, hd⟩

theorem holds_onGate (say : α → Outcome) (f : Gate → α × Gate)
    (hs : s.host.On c (Nic.Holds c core st)) :
    (s.onGate core say f).2.host.On c (Nic.Holds c core st) := by
  unfold onGate
  split
  · exact hs
  · obtain ⟨v, -, hon⟩ := on_onHost say (Host.holds_onGate f) hs
    exact hon

/-- A call deals out packets of its core. -/
theorem holds_make (hs : s.host.On c (Nic.Holds c core st)) (ho : o.core = core) (call : Call)
    (op : Op) (hop : (s.step op).2.host = (call.make ⟨s.host, o⟩).2.host) :
    ∃ st', (s.step op).2.host.On c (Nic.Holds c core st') ∧
      Settles c (call.receives ⟨s.host, o⟩) (st.packets c) (s.returned core op)
        (st'.packets c) := by
  obtain ⟨st', hy, -, sent, hsent, hsettles⟩ :=
    Call.left (x := ⟨s.host, o⟩) ⟨hs, ho⟩ call
  have hon : (s.step op).2.host.On c (Nic.Holds c core st') := hop ▸ hy.host
  refine ⟨st', hon, ?_⟩
  rw [returned, stock_eq hs, stock_eq hon, hsent, List.drop_left]
  exact hsettles

theorem stock_of_alike {t : Station} (h : s.host.Alike c core t.host) :
    t.stock core = s.stock core := by
  have hmemory := h.memory
  unfold stock
  generalize s.host.memory = b at hmemory ⊢
  generalize t.host.memory = b' at hmemory ⊢
  cases hmemory with
  | plain _ => rfl
  | device hd => exact congrArg (fun k : Option NicCore => (k.map (·.stock)).getD {}) hd.state.symm

theorem queuedBy_inject (s : Station) (core : Nat) (t : Transaction) (payload : Bytes) :
    s.queuedBy core (.inject core t payload) =
      if (s.step (.inject core t payload)).1.isDone then
        [⟨s.host.config.format.wireForm t, payload⟩]
      else [] := by
  simp only [queuedBy, true_and]

/-- What is done on another core queues nothing. -/
theorem queuedBy_other {op : Op} (hne : op.core ≠ core)
    (hstock : (s.step op).2.stock core = s.stock core) : s.queuedBy core op = [] := by
  cases op with
  | inject k t payload => exact if_neg fun h => hne h.1
  | call k call => exact returned_of_same hstock
  | visit o call => exact returned_of_same hstock
  | _ => rfl

/-- An operation on a core settles what is queued for it. -/
theorem settles_own (h : s.Serving c) {op : Op}
    (hs : s.host.On c (Nic.Holds c op.core st)) :
    ∃ st', (s.step op).2.host.On c (Nic.Holds c op.core st') ∧
      Settles c (s.receivesOf op) (st.packets c) (s.queuedBy op.core op) (st'.packets c) := by
  have ha : c.format.Accepted := Config.accepted_of_check (hs.config ▸ s.host.config_ok)
  cases op with
  | claim core next =>
    refine ⟨st, ?_, .refl _ rfl⟩
    rcases host_claim s core next with hhost | hhost
    · exact hhost ▸ hs
    · exact hhost ▸ ⟨hs.config, hs.device⟩
  | drop core =>
    refine ⟨st, ?_, .refl _ rfl⟩
    rcases host_drop core h.tidy with hhost | hhost
    · exact hhost ▸ hs
    · exact hhost ▸ ⟨hs.config, hs.device⟩
  | call core call =>
    dsimp only [Op.core] at hs ⊢
    cases ho : s.owners core with
    | none =>
      have hstep : (s.step (.call core call)).2 = s := by
        show (s.call core call).2 = s
        unfold Station.call
        rw [ho]
      refine ⟨st, hstep.symm ▸ hs, ?_⟩
      have hqueued : s.queuedBy core (.call core call) = [] :=
        returned_of_same (congrArg (·.stock core) hstep)
      have hreceives : s.receivesOf (.call core call) = [] := by rw [receivesOf, ho]
      rw [hqueued, hreceives]
      exact .refl _ rfl
    | some o =>
      have hstep := step_call ho call
      obtain ⟨st', hon, hsettles⟩ := holds_make hs (h.tidy.owner core o ho) call
        (.call core call) (by rw [hstep])
      have hreceives : s.receivesOf (.call core call) = call.receives ⟨s.host, o⟩ := by
        rw [receivesOf, ho]
      exact ⟨st', hon, hreceives ▸ hsettles⟩
  | visit o call => exact holds_make hs rfl call _ rfl
  | setReady core v => exact ⟨st, holds_onGate _ _ hs, .refl _ rfl⟩
  | hold core =>
    refine ⟨st, ?_, .refl _ rfl⟩
    show (s.hold core).2.host.On c (Nic.Holds c core st)
    rw [host_hold]
    exact holds_onGate _ _ hs
  | leave core =>
    refine ⟨st, ?_, .refl _ rfl⟩
    show (s.leave core).2.host.On c (Nic.Holds c core st)
    unfold leave
    split
    · exact hs
    · exact holds_onGate (s := { s with guards := _ }) _ _ hs
  | grant core v =>
    obtain ⟨-, -, hon⟩ := on_onDevice (fun _ => .done) (Nic.Holds.setReady v) hs
    exact ⟨st, hon, .refl _ rfl⟩
  | inject core t payload =>
    dsimp only [Op.core] at hs ⊢
    obtain ⟨r, hr, hconfig, d, hmem, st', hd, hput⟩ :=
      on_onDevice (fun r => (Answer.injected r).outcome) (Nic.Holds.inject ha t payload) hs
    rw [← step_inject] at hr hconfig hmem
    refine ⟨st', ⟨hconfig, d, hmem, hd⟩, ?_⟩
    have hqueued : s.queuedBy core (.inject core t payload) =
        if r.isOk then [⟨c.format.wireForm t, payload⟩] else [] := by
      rw [queuedBy_inject, hr, isDone_injected, hs.config]
    rw [hqueued, hput]
    exact ⟨[], rfl, .nil⟩
  | setLoopback core v =>
    obtain ⟨-, -, hconfig, d, hmem, st', hd, hsame⟩ :=
      on_onDevice (fun _ => .done) (Nic.Holds.setLoopback v) hs
    exact ⟨st', ⟨hconfig, d, hmem, hd⟩, hsame ▸ .refl _ rfl⟩
  | takeSent core =>
    obtain ⟨-, -, hconfig, d, hmem, st', hd, hsame⟩ :=
      on_onDevice .packets Nic.Holds.takeSent hs
    exact ⟨st', ⟨hconfig, d, hmem, hd⟩, hsame ▸ .refl _ rfl⟩

/-- **An operation settles what is queued for a core.** -/
theorem settles_step (h : s.Serving c) (hs : s.host.On c (Nic.Holds c core st)) (op : Op) :
    ∃ st', (s.step op).2.host.On c (Nic.Holds c core st') ∧
      Settles c (if op.core = core then s.receivesOf op else []) (st.packets c)
        (s.queuedBy core op) (st'.packets c) := by
  have hl : c.layout.Ordered := hs.config ▸ s.host.ordered
  by_cases hcore : op.core = core
  · subst hcore
    rw [if_pos rfl]
    exact settles_own h hs
  · have hrest := ((confined_step hl op).rest s h.tidy core (Ne.symm hcore)).host
    have hconfig := (h.step hl op).tidy.host.config
    rw [if_neg hcore, queuedBy_other hcore (stock_of_alike hrest)]
    exact ⟨st, hs.alike hconfig hrest, .refl _ rfl⟩

/-- What is queued for a core is still pending after a run, or receives told of it. -/
theorem settles_after (h : s.Serving c) (hs : s.host.On c (Nic.Holds c core st)) (ops : List Op) :
    ∃ st', (s.after ops).host.On c (Nic.Holds c core st') ∧
      Settles c (heard core s ops) (st.packets c) (s.queued core ops) (st'.packets c) := by
  induction ops generalizing s st with
  | nil => exact ⟨st, hs, .refl _ rfl⟩
  | cons op ops ih =>
    obtain ⟨st', hs', hsettles⟩ := settles_step h hs op
    obtain ⟨st'', hs'', hsettles'⟩ := ih (h.step (hs.config ▸ s.host.ordered) op) hs'
    exact ⟨st'', hs'', hsettles.trans hsettles'⟩

/-- A new device holds nothing. -/
theorem Opened.holds (h : s.Opened c) (hword : Memory.size s.host.memory < wordMax)
    (hcore : core < c.numCores) {d : Nic Region} (hmem : s.host.memory = .device d) :
    s.host.On c (Nic.Holds c core {}) := by
  cases h with
  | @plain r host hopen =>
    rw [(Host.of_open? hopen).1] at hmem
    cases hmem
  | @device r d' host hstart hopen =>
    obtain ⟨hmemory, rfl, -, -, hsize⟩ := Host.of_open? hopen
    have hl := host.ordered
    obtain ⟨-, hfresh⟩ :=
      (Meets.forM_all fun _ => Nic.Fresh.setReady).out (Nic.ends_start hstart) ⟨rfl, rfl, rfl⟩
    have hstocked := Nic.stocked_start hstart
    rw [hmemory] at hword
    have hfits := host.config.layout.fits_of_requiredSize hl hsize hword core hcore
    refine ⟨rfl, d', hmemory, hstocked.layout, hstocked.format, hfits, ?_, nofun⟩
    rw [Nic.stockOf, hfresh.cores, Array.getElem?_replicate, if_pos hcore]
    rfl

/-- If there is a device in the end, it was there at the start. -/
theorem exists_device_of_after (h : s.Opened c) {ops : List Op} {d : Nic Region}
    (hmem : (s.after ops).host.memory = .device d) : ∃ d', s.host.memory = .device d' := by
  cases h with
  | @plain r host hopen =>
    have htidy : Tidy c { host } := (Opened.plain hopen).tidy
    have hmemory : host.memory = .plain r := (Host.of_open? hopen).1
    obtain ⟨-, r', hplain, -⟩ :=
      plain_after (htidy.host.config ▸ host.ordered) ops htidy hmemory
    rw [hmem] at hplain
    cases hplain
  | device hstart hopen => exact ⟨_, (Host.of_open? hopen).1⟩

/-- Receives have told of a packet where they received something or found it too large. -/
theorem countP_told (x : Exchange Backing) (turns : List (Turn Backing)) :
    (Exchange.receives x turns).countP Exchange.told =
      (Exchange.growth x turns).received +
        (Exchange.errors x turns).countP ExchangeError.isOverflow := by
  rw [(Exchange.errors_after x turns).overflow]
  show _ = 0 + _ + _
  rw [Nat.zero_add]
  refine countP_split fun r _ => ?_
  rcases r with (e | _ | _) | _ | _ <;> first | rfl | cases e <;> rfl

/-- **The statistics reconcile.** Take any run of an owner whose gate nobody else uses, on any
memory, under any policies and whatever others do to the memory, in which no call breaks off. Then
the entries of the gate are what was received, the empty polls, what was transmitted, and the
errors for too much payload on arrival and for what cannot be sent; and the other statistics are
what the results tell (`Exchange.Reconciled`).

At a station no call breaks off, so this holds of each owner there from any time on, as long as it
is alone at its core. If there is a device, then of the packets that are pending at first and those
that are queued later, by injection or in loopback, each is either still pending or was told of by
one receive, in turn: it was received and counted, or reported as too large. -/
theorem statistics_reconcile :
    (∀ {M : Type} [Memory M] [LawfulMemory M] (x : Exchange M) (turns : List (Turn M)),
      x.host.counters.size = x.host.config.numCores → Exchange.Alone x turns →
      (∀ d, Exchange.broken d x turns = 0) →
      Exchange.Reconciled x (Exchange.after x turns) (Exchange.got x turns)
        ((Exchange.transmits x turns).countP Exchange.wentOut) (Exchange.errors x turns)
        (Exchange.growth x turns)) ∧
    ∀ {c : Config} {s₀ : Station}, s₀.Opened c → Memory.size s₀.host.memory < wordMax →
      ∀ (before ops : List Op) {core : Nat} {o : Owner},
        let s := s₀.after before
        let s' := s.after ops
        let x : Exchange Backing := ⟨s.host, o⟩
        let turns := s.turns core ops
        s.owners core = some o → (∀ op ∈ ops, op.Spares core) →
        (∃ o', s'.owners core = some o' ∧
          Exchange.Reconciled x ⟨s'.host, o'⟩ (Exchange.got x turns)
            ((Exchange.transmits x turns).countP Exchange.wentOut) (Exchange.errors x turns)
            (Exchange.growth x turns)) ∧
        ∀ d, s.host.memory = .device d →
          Settles c (Exchange.receives x turns) (s.pending core) (s.queued core ops)
            (s'.pending core) ∧
          (s.pending core).length + (s.queued core ops).length =
            (Exchange.growth x turns).received +
              (Exchange.errors x turns).countP ExchangeError.isOverflow +
              (s'.pending core).length := by
  refine ⟨fun x turns hcounters halone hwhole =>
    Exchange.reconciled_after hcounters halone hwhole, ?_⟩
  intro c s₀ hopened hword before ops core o s s' x turns ho hspares
  have hl : c.layout.Ordered := hopened.tidy.host.config ▸ s₀.host.ordered
  have h₀ := hopened.serving hword
  have h : s.Serving c := h₀.after hl before
  constructor
  · obtain ⟨o', ho', hafter, halone, hwhole⟩ := h.follows hl ho hspares
    have hcounters : x.host.counters.size = x.host.config.numCores :=
      h.counters.trans (congrArg Config.numCores h.tidy.host.config).symm
    have hreconciled := Exchange.reconciled_after hcounters halone hwhole
    rw [hafter] at hreconciled
    exact ⟨o', ho', hreconciled⟩
  · intro d hmem
    obtain ⟨d₀, hmem₀⟩ := exists_device_of_after hopened hmem
    have hcore : core < c.numCores := h.mapped core o ho
    obtain ⟨st, hs, -⟩ := settles_after h₀ (hopened.holds hword hcore hmem₀) before
    obtain ⟨st', hs', hsettles⟩ := settles_after h hs ops
    rw [← pending_eq hs, ← pending_eq hs', ← h.receives_turns hl ho hspares] at hsettles
    exact ⟨hsettles, hsettles.length_eq.trans (congrArg (· + _) (countP_told x turns))⟩

/-- Something to send. -/
def loopedCall : Transaction := .call ⟨0x55aa, 7, .take (.zeros 0)⟩

/-- Two packets are queued, one from outside and one in loopback, and one is received. -/
def looped : List Command :=
  [.inject 0 loopedCall (.zeros 100), .setLoopback 0 true,
    .transmit 0 3 ⟨loopedCall, .zeros 20⟩, .receive 0 3]

theorem answers_looped : (Ports.answers {} (fun _ => {}) looped).map Answer.outcome =
    [.done, .done, .done, .received (some ⟨({} : Format).wireForm loopedCall, .zeros 100⟩)] := rfl

theorem queue_looped : (Ports.after {} (fun _ => {}) looped 0).queue =
    [⟨({} : Format).wireForm loopedCall, .zeros 20⟩] := rfl

/-- A call is received, the second line is empty, and a send cannot be encoded and one is too long.
And at a device two packets are queued, one from outside and one in loopback, of which one is
received and one still pending. -/
theorem statistics_reconcile_loopback :
    (let p : SpinPolicy Unit := (SpinLimit.attempts 3).policy
      let x : Exchange Region := ⟨.waitingCall, .synced 0 Exchange.narrow {}⟩
      let turns : List (Turn Region) := [.call (.receive p ()), .call (.receive p ()),
        .call (.transmit p () ⟨.error 9, .zeros 5⟩), .call (.transmit p () ⟨.error 9, .zeros 500⟩)]
      (Exchange.growth x turns = { received := 1, emptyPolls := 1, aborted := 2 } ∧
        Exchange.errors x turns =
          [.unsupportedTransmit (.unsupportedKind .error), .payloadTooLarge 500 192] ∧
        ((Exchange.after x turns).host.countersOf 0).entries = 3) ∧
      Exchange.Reconciled x (Exchange.after x turns) (Exchange.got x turns)
        ((Exchange.transmits x turns).countP Exchange.wentOut) (Exchange.errors x turns)
        (Exchange.growth x turns)) ∧
    ∃ s : Station, s.Opened {} ∧
      let packet (n : Nat) : Packet := ⟨({} : Format).wireForm loopedCall, .zeros n⟩
      let received : Received := ⟨({} : Format).wireForm loopedCall, .zeros 100⟩
      let p : SpinPolicy Unit := (SpinLimit.attempts 3).policy
      let ops : List Op := [.inject 0 loopedCall (.zeros 100), .setLoopback 0 true,
        .call 0 (.transmit p () ⟨loopedCall, .zeros 20⟩), .call 0 (.receive p ())]
      let o : Owner := .synced 0 {} {}
      let s₁ := s.after [.claim 0 {}]
      let x : Exchange Backing := ⟨s₁.host, o⟩
      let turns := s₁.turns 0 ops
      s₁.owners 0 = some o ∧ s₁.pending 0 = [] ∧
        (s₁.queued 0 ops = [packet 100, packet 20] ∧
          Exchange.receives x turns = [.ok (some received)] ∧
          (s₁.after ops).pending 0 = [packet 20]) ∧
        Settles {} (Exchange.receives x turns) (s₁.pending 0) (s₁.queued 0 ops)
          ((s₁.after ops).pending 0) ∧
        (Exchange.growth x turns).received = 1 ∧
        (Exchange.errors x turns).countP ExchangeError.isOverflow = 0 := by
  constructor
  · intro p x turns
    have hevaluated : (Exchange.growth x turns = { received := 1, emptyPolls := 1, aborted := 2 } ∧
        Exchange.errors x turns =
          [.unsupportedTransmit (.unsupportedKind .error), .payloadTooLarge 500 192] ∧
        ((Exchange.after x turns).host.countersOf 0).entries = 3) ∧
        Exchange.broken .rx x turns = 0 ∧ Exchange.broken .tx x turns = 0 := by
      decide +kernel
    obtain ⟨hnumbers, hrx, htx⟩ := hevaluated
    have hwhole : ∀ d, Exchange.broken d x turns = 0
      | .rx => hrx
      | .tx => htx
    exact ⟨hnumbers, statistics_reconcile.1 x turns rfl trivial hwhole⟩
  · have hr : ({} : Config).layout.regionSize 1 = some 0x10000 := rfl
    obtain ⟨d, host, hstart, hopen⟩ := exists_device (c := {}) rfl (by decide) hr
    have hopened : Opened {} { host } := .device hstart hopen
    have hsize : Memory.size d = 0x10000 := (Nic.size_start hstart).trans (Bytes.size_zeros _)
    have hword : Memory.size host.memory < wordMax := by
      rw [(Host.of_open? hopen).1]
      exact hsize.trans_lt (by decide)
    refine ⟨{ host }, hopened, ?_⟩
    intro packet received p ops o s₁ x turns
    have hspares : ∀ op ∈ ops, op.Spares 0 := by
      intro op hop
      simp only [ops, List.mem_cons, List.not_mem_nil, or_false] at hop
      rcases hop with rfl | rfl | rfl | rfl <;> exact fun _ => rfl
    obtain ⟨s₀, hclaim, ho, ht, -⟩ := claim_new hr hstart hopen (by decide) 0 (by decide) {}
    have hs₁ : s₁ = s₀ := by simp only [s₁, after, List.foldl, hclaim]
    rw [← hs₁] at ho ht
    have hops : List.Forall₂ (Command.Means 0) looped ops :=
      .cons ⟨rfl, rfl⟩ (.cons ⟨rfl, rfl⟩ (.cons ⟨rfl, rfl⟩ (.cons ⟨rfl, rfl⟩ .nil)))
    obtain ⟨houtcomes, ht'⟩ := tracks_after ht 0 (by decide) (ho ▸ rfl) hops
    have hbefore : s₁.pending 0 = [] := ht.pending (by decide)
    have hafter : (s₁.after ops).pending 0 = [packet 20] :=
      (ht'.pending (by decide)).trans queue_looped
    have hl : ({} : Config).layout.Ordered := (sound_open hstart hopen).1
    have h : s₁.Serving {} := (hopened.serving hword).after hl [.claim 0 {}]
    have hreceives : Exchange.receives x turns = [.ok (some received)] := by
      let s₃ := s₁.after (ops.take 3)
      have hspares₃ : ∀ op ∈ ops.take 3, op.Spares 0 :=
        fun op hop => hspares op (List.mem_of_mem_take hop)
      obtain ⟨o₃, ho₃, -⟩ := h.follows hl ho hspares₃
      have hpoll : (s₃.step (.call 0 (.receive p ()))).1 = .received (some received) :=
        Option.some.inj (congrArg List.getLast? (houtcomes.trans answers_looped))
      refine (h.receives_turns hl ho hspares).trans ?_
      simp only [ops, heard, Op.core, if_true, List.append_nil]
      exact (congrArg (· ++ s₃.receivesOf _) receivesOf_transmit).trans
        (receivesOf_of_received ho₃ hpoll)
    obtain ⟨⟨o', ho', hreconciled⟩, hdevice⟩ :=
      statistics_reconcile.2 hopened hword [.claim 0 {}] ops ho hspares
    obtain ⟨d₁, hmem, -⟩ := ht.device
    obtain ⟨hsettles, hcount⟩ := hdevice d₁ hmem
    have hreceived : (Exchange.growth x turns).received = 1 :=
      hreconciled.received.trans (congrArg (fun rs => (rs.filterMap Exchange.gotOf).length) hreceives)
    have hqueued : s₁.queued 0 ops = [packet 100, packet 20] := by
      rw [hreceives, hbefore, hafter] at hsettles
      exact hsettles.of_received
    have hoverflow : (Exchange.errors x turns).countP ExchangeError.isOverflow = 0 := by
      rw [hbefore, hafter, hqueued, hreceived] at hcount
      have hsum : 2 = 1 + (Exchange.errors x turns).countP ExchangeError.isOverflow + 1 := hcount
      omega
    exact ⟨ho, hbefore, ⟨hqueued, hreceives, hafter⟩, hsettles, hreceived, hoverflow⟩

end Station
end LineExchange
