import LineExchange.Proofs.Meets
import LineExchange.Proofs.Ownership.Claims

/-!
# LineExchange.Proofs.Ownership.Runs

Whatever is done with the owners of a bench.

* `Bench.Move`, `Bench.run`: claiming, sharing and dropping, calls through any name on any host, and
  what else is done to a memory.
* `Bench.same_make`: using an owner changes no name, no owner's core and no flag.
* `Bench.tidy_step`, `Bench.tidy_run`: every move keeps a bench tidy, so every run does.
* `Bench.Tidy.run_claim`, `Bench.Tidy.run_dropSlot`, `Bench.Tidy.run_share`: what a tidy bench
  answers.
* `Bench.one_owner_per_core`: what this says of every run.
-/

namespace LineExchange
namespace Bench

variable {b : Bench} {id t : Nat} {slot : String}

/-! ## Calls -/

section Calls

variable {α β : Type}

/-- Which descriptors are staged does not matter. -/
theorem same_stage (g : Named Descriptor → Named Descriptor) :
    Keeps (Same b) (modify fun b => { b with descriptors := g b.descriptors } : Bench.Call PUnit) :=
  .modify fun _ h => ⟨h.slots, h.place, h.books⟩

theorem same_present (what : String) (a : Option α) : Keeps (Same b) (present what a) := by
  cases a with
  | none => exact .throw _
  | some v => exact .pure v

theorem same_accepted (r : Except ExchangeError α) : Keeps (Same b) (accepted r) := by
  cases r with
  | ok v => exact .pure v
  | error e => exact .throw _

/-- The bench after a call by an owner on a host. -/
def resumed (b : Bench) (t id : Nat) (h : HeldOwner) (x : Exchange BenchMemory) : Bench :=
  { b with
    hosts := b.hosts.setIfInBounds t x.host
    owners := b.owners.setIfInBounds id (some { h with owner := x.owner }) }

theorem same_resumed {h : HeldOwner} {host : Host BenchMemory} {x : Exchange BenchMemory}
    (hh : b.owners[id]?.join = some h) (ht : b.hosts[t]? = some host)
    (hx : Exchange.Stays ⟨host, h.owner⟩ x) : Same b (b.resumed t id h x) := by
  constructor
  case slots => rfl
  case place =>
    intro j
    simp only [place?, resumed, Array.getElem?_setIfInBounds]
    split
    · next heq =>
      subst heq
      rw [hh]
      split
      · exact congrArg (fun core => some (h.host, core)) hx.core
      · next hout => simp [hout] at hh
    · rfl
  case books =>
    intro t'
    exact books_setHost_of_eq ht (Prod.ext hx.host.config hx.host.claimed) t'

/-- What is looked up is on the bench, or the call ends. -/
theorem meets_found {P : Bench → Prop} {what : String} (hP : ∀ b', P b' → Same b b')
    (look : Bench → Option α) : Meets P (do present what (look (← get)))
      (fun v b' => look b' = some v ∧ P b') fun _ => Same b := by
  refine .of_ends fun b' hb' => ?_
  cases hlook : look b' with
  | none => exact ⟨.error (.missing what), b', .bind (.get b') (hlook ▸ .throw _ b'), hP b' hb'⟩
  | some v => exact ⟨.ok v, b', .bind (.get b') (hlook ▸ .pure v b'), hlook, hb'⟩

theorem same_exchange {f : Exchange BenchMemory → Except Stop α × β × Exchange BenchMemory}
    (hf : ∀ x : Exchange BenchMemory, x.Stays (f x).2.2) : Keeps (Same b) (exchange t slot f) := by
  -- what is looked up is still there when the call is over, so it is carried along
  have meets : Meets (Same b) (exchange t slot f) (fun _ => Same b) fun _ => Same b := by
    refine .bind (meets_found (fun _ h => h) (·.slots.get? slot)) fun id => ?_
    refine .bind (meets_found (fun _ h => h.2) (·.owners[id]?.join)) fun h => ?_
    refine .bind (meets_found (fun _ h => h.2.2) (·.hosts[t]?)) fun host => ?_
    have hstays := hf ⟨host, h.owner⟩
    generalize f ⟨host, h.owner⟩ = q at hstays ⊢
    obtain ⟨r, v, x⟩ := q
    have keep {E : BenchError → Bench → Prop} : Meets (fun b' => b'.hosts[t]? = some host ∧
        b'.owners[id]?.join = some h ∧ b'.slots.get? slot = some id ∧ Same b b')
        (modify fun b => b.resumed t id h x) (fun _ => Same b) E :=
      .modify fun b' ⟨ht, hh, _, hb⟩ => hb.trans (same_resumed hh ht hstays)
    cases r with
    | ok v => exact keep.bind fun _ => .pure fun _ h => h
    | error e =>
      cases e with
      | refused e => exact keep.bind fun _ => .pure fun _ h => h
      | fault f => exact keep.bind fun _ => .throw fun _ h => h
      | endless => exact .throw fun _ h => h.2.2.2
  constructor
  intro b' r b'' hend hb
  have hpost := meets.out hend hb
  cases r with
  | ok v => exact hpost
  | error e => exact hpost

theorem same_step {a : Exchange.Step BenchMemory α} (ha : ∀ x, Keeps (Exchange.Stays x) a) :
    Keeps (Same b) (step t slot a) := by
  refine (same_exchange fun x => ?_).bind fun r => same_accepted _
  exact (ha x).out (.intro a x) (.refl x)

theorem stays_apply (p : Patience) (x : Exchange BenchMemory)
    {f : {σ : Type} → SpinPolicy σ → σ → Except Stop α × σ × Exchange BenchMemory}
    (hf : ∀ {σ : Type} (p : SpinPolicy σ) (s : σ), x.Stays (f p s).2.2) :
    x.Stays (p.apply f).2.2 := by
  cases p with
  | limit l => exact hf (l.policy.atMost SpinLimit.patience) ()
  | counting stop readyAt => exact hf (.counting stop readyAt) []

theorem same_receive (w : Option Patience) : Keeps (Same b) (receive t slot w) :=
  same_exchange fun x => stays_apply _ x fun _ _ => Exchange.stays_receiveWith x

theorem same_prepare (kind : TransactionKind) (desc : String) :
    Keeps (Same b) (prepare t slot kind desc) :=
  (same_step fun _ => Exchange.stays_prepare kind).bind fun _ =>
    (same_stage (·.insert desc _)).bind fun _ => .pure _

theorem same_transmit (desc : String) (w : Option Patience) :
    Keeps (Same b) (transmit t slot desc w) := by
  have descriptor : Keeps (Same b) (descriptor desc) :=
    .get_bind fun _ _ => same_present _ _
  have discard : Keeps (Same b) (discardDescriptor desc) :=
    .get_bind fun _ _ => (same_stage (·.erase desc)).bind fun _ => .pure _
  exact descriptor.bind fun d => discard.bind fun _ =>
    same_exchange fun x => stays_apply _ x fun _ _ => Exchange.stays_transmitWith x d

theorem same_send (tx : Transaction) (payload : Bytes) (w : Option Patience) :
    Keeps (Same b) (send t slot tx payload w) := by
  refine same_exchange fun x => ?_
  cases hr : Exchange.Step.run (Exchange.prepare tx.kind) x with
  | mk r y =>
    have hy : x.Stays y := (Exchange.stays_prepare tx.kind).out hr (.refl x)
    cases r with
    | error e => exact hy
    | ok d => exact hy.trans (stays_apply _ y fun _ _ => Exchange.stays_transmitWith y _)

theorem same_resync (next : Parity) : Keeps (Same b) (resync t slot next) :=
  same_step fun _ => Exchange.stays_resync next

theorem same_bringUp : Keeps (Same b) (bringUp t slot) := by
  have host : Keeps (Same b) (Bench.host t) := .get_bind fun _ _ => same_present _ _
  have owner : Keeps (Same b) (owner slot) :=
    .bind (.get_bind fun _ _ => same_present _ _) fun _ =>
      .bind (.get_bind fun _ _ => same_present _ _) fun _ => .pure _
  refine owner.bind fun o => host.bind fun h => ?_
  split
  · exact .bind (.throw _) fun _ => same_step fun _ => Exchange.stays_bringUp _ _
  · exact same_step fun _ => Exchange.stays_bringUp _ _

/-- What else is done to the memory of a host. -/
theorem same_onTrace (a : Access BenchMemory α) : Keeps (Same b) (onTrace t a) := by
  constructor
  intro b' r b'' hend hb
  cases ht : b'.hosts[t]? with
  | none =>
    obtain ⟨-, rfl⟩ := hend.unique (Ends.bind_error (ends_host_missing ht))
    exact hb
  | some host =>
    have hmemory := (Host.keeps_onMemory a).out (.intro _ host) (.refl host)
    obtain ⟨-, rfl⟩ := hend.unique (ends_onHost ht (.intro _ host))
    refine hb.trans ⟨rfl, fun _ => rfl, books_setHost_of_eq ht ?_⟩
    exact Prod.ext hmemory.config hmemory.claimed

end Calls

/-! ## Runs -/

/-- What can be done with owners. -/
inductive Move where
  | claim (t core : Nat) (next : Parity) (slot : String)
  /-- Another name for an owner. -/
  | share (slot second : String)
  | drop (slot : String)
  | receive (t : Nat) (slot : String) (w : Option Patience)
  | prepare (t : Nat) (slot : String) (kind : TransactionKind) (desc : String)
  | transmit (t : Nat) (slot desc : String) (w : Option Patience)
  | send (t : Nat) (slot : String) (tx : Transaction) (payload : Bytes) (w : Option Patience)
  | resync (t : Nat) (slot : String) (next : Parity)
  | bringUp (t : Nat) (slot : String)
  /-- Something else is done to the memory of a host. -/
  | meanwhile (t : Nat) (a : Access BenchMemory Unit)

namespace Move

def make : Move → Bench.Call Unit
  | claim t core next slot => Bench.claim t core next slot
  | share slot second => Bench.share slot second
  | drop slot => do let _ ← Bench.dropSlot slot
  | receive t slot w => do let _ ← Bench.receive t slot w
  | prepare t slot kind desc => do let _ ← Bench.prepare t slot kind desc
  | transmit t slot desc w => do let _ ← Bench.transmit t slot desc w
  | send t slot tx payload w => do let _ ← Bench.send t slot tx payload w
  | resync t slot next => Bench.resync t slot next
  | bringUp t slot => do let _ ← Bench.bringUp t slot
  | meanwhile t a => Bench.onTrace t a

/-- Whether an owner is only used, and none comes or goes. -/
def IsUse : Move → Prop
  | claim .. | share .. | drop .. => False
  | _ => True

end Move

def run (b : Bench) (moves : List Move) : Bench := moves.foldl (fun b m => (m.make.run b).2) b

theorem same_make {m : Move} (h : m.IsUse) : Keeps (Same b) m.make := by
  cases m with
  | claim | share | drop => exact h.elim
  | receive t slot w => exact (same_receive w).bind fun _ => .pure _
  | prepare t slot kind desc => exact (same_prepare kind desc).bind fun _ => .pure _
  | transmit t slot desc w => exact (same_transmit desc w).bind fun _ => .pure _
  | send t slot tx payload w => exact (same_send tx payload w).bind fun _ => .pure _
  | resync t slot next => exact same_resync next
  | bringUp t slot => exact same_bringUp.bind fun _ => .pure _
  | meanwhile t a => exact same_onTrace a

theorem tidy_step (h : Tidy none b) (m : Move) : Tidy none (m.make.run b).2 := by
  have use (hm : m.IsUse) : Tidy none (m.make.run b).2 :=
    ((same_make hm).out (.intro m.make b) (.refl b)).tidy h
  have ended {a : Bench.Call Unit} {r : Except BenchError Unit} {b' : Bench}
      (hend : Ends a b r b') (hb' : Tidy none b') : Tidy none (a.run b).2 :=
    (congrArg Prod.snd hend).symm ▸ hb'
  cases m with
  | claim t core next slot =>
    cases ht : b.hosts[t]? with
    | none => exact ended (.bind_error (.bind_error (ends_host_missing ht))) h
    | some host =>
      obtain ⟨r, b', hend, hclaimed⟩ := ends_claim h ht core next slot
      exact ended hend (h.claimed ht hclaimed)
  | share slot second =>
    cases hid : b.slots.get? slot with
    | none => exact ended (ends_share_missing hid) h
    | some id =>
      obtain ⟨b', hend, hrenamed⟩ := ends_share h second hid
      obtain ⟨k, hk⟩ := h.valid slot id hid
      exact ended hend ((h.weaken _).renamed hk hrenamed)
  | drop slot =>
    cases hid : b.slots.get? slot with
    | none => exact ended ((ends_dropSlot_missing hid).bind (.pure _ _)) h
    | some id =>
      obtain ⟨b', hend, hreleased⟩ := ends_dropSlot h hid
      exact ended (hend.bind (.pure _ _)) ((h.erase hid).released hreleased)
  | receive | prepare | transmit | send | resync | bringUp | meanwhile => exact use trivial

theorem tidy_run (h : Tidy none b) (moves : List Move) : Tidy none (b.run moves) := by
  induction moves generalizing b with
  | nil => exact h
  | cons m moves ih => exact ih (tidy_step h m)

theorem tidy_ofHosts {hosts : List (Host BenchMemory)}
    (h : ∀ host ∈ hosts, ∃ m c, Host.open? m c = .ok host) : Tidy none (ofHosts hosts) := by
  have fresh {t : Nat} {host : Host BenchMemory} (ht : (ofHosts hosts).hosts[t]? = some host) :
      host.claimed = .replicate host.config.numCores false := by
    have hmem : host ∈ hosts := List.mem_of_getElem? (by simpa [ofHosts] using ht)
    obtain ⟨m, c, hopen⟩ := h host hmem
    obtain ⟨-, hconfig, -, hclaimed, -⟩ := Host.of_open? hopen
    rw [hclaimed, hconfig]
  have hplace (id : Nat) : (ofHosts hosts).place? id = none := by simp [place?, ofHosts]
  constructor
  case distinct => exact .nil
  case valid =>
    intro slot id hid
    cases hid
  case sizes =>
    intro t q hq
    obtain ⟨host, ht, rfl⟩ := Option.map_eq_some_iff.1 hq
    simp [Host.books, fresh ht]
  case flags =>
    intro t core
    refine iff_of_false ?_ (by simp [hplace])
    cases ht : (ofHosts hosts).hosts[t]? with
    | none => simp [flag, books?, ht]
    | some host =>
      rw [flag_eq ht, Host.isClaimed, fresh ht, Array.getD_eq_getD_getElem?,
        Array.getElem?_replicate]
      split <;> simp
  all_goals simp [hplace]

/-! ## Answers on a tidy bench -/

/-- How a claim is answered. -/
theorem Tidy.run_claim (h : Tidy none b) {host : Host BenchMemory} (ht : b.hosts[t]? = some host)
    (core : Nat) (next : Parity) (slot : String) :
    let y := (claim t core next slot).run b
    (host.config.numCores ≤ core →
      y = (.error (.refused (.invalidCore core host.config.numCores)), b)) ∧
    (core < host.config.numCores → b.flag t core = true →
      y = (.error (.refused (.coreInUse core)), b)) ∧
    (core < host.config.numCores → b.flag t core = false → host.config.HasRoom →
      y.1 = .ok () ∧ y.2.slots.get? slot = some b.owners.size ∧
      (∃ o, y.2.owners[b.owners.size]? = some (some ⟨t, o⟩) ∧ o.core = core ∧
        o.next = next ∧ o.stats = {}) ∧
      (b.slots.get? slot = none → ∀ t' core',
        y.2.flag t' core' = if (t', core') = (t, core) then true else b.flag t' core')) ∧
    (core < host.config.numCores → b.flag t core = false → ¬host.config.HasRoom →
      y = (.error (.fault .outOfStorage), b)) := by
  obtain ⟨r, b', hend, hclaimed⟩ := ends_claim h ht core next slot
  have hrun : (claim t core next slot).run b = (r, b') := hend
  dsimp only
  rw [hrun]
  cases hclaimed with
  | invalid hcore =>
    exact ⟨fun _ => rfl, fun hlt => absurd hcore (Nat.not_le.2 hlt),
      fun hlt => absurd hcore (Nat.not_le.2 hlt), fun hlt => absurd hcore (Nat.not_le.2 hlt)⟩
  | taken hcore htaken =>
    refine ⟨fun hle => absurd hcore (Nat.not_lt.2 hle), fun _ _ => rfl, ?_, ?_⟩
    all_goals
      intro _ hfree
      cases htaken.symm.trans hfree
  | granted _ hcore hfree hroom hrenamed =>
    obtain ⟨hslot, howner, hflag⟩ := h.after_claim ht hcore hrenamed
    refine ⟨fun hle => absurd hcore (Nat.not_lt.2 hle), ?_, ?_, fun _ _ h => absurd hroom h⟩
    · intro _ htaken
      cases htaken.symm.trans hfree
    · exact fun _ _ _ => ⟨rfl, hslot, ⟨_, howner, rfl, rfl, rfl⟩, hflag⟩
  | noRoom hcore hfree hroom =>
    refine ⟨fun hle => absurd hcore (Nat.not_lt.2 hle), ?_, fun _ _ h => absurd h hroom,
      fun _ _ _ => rfl⟩
    intro _ htaken
    cases htaken.symm.trans hfree

/-- What is left when a name is taken away. -/
theorem Tidy.run_dropSlot (h : Tidy none b) {k : Nat × Nat} (hid : b.slots.get? slot = some id)
    (hk : b.place? id = some k) :
    let y := (dropSlot slot).run b
    y.1 = .ok true ∧ ∀ t core, y.2.flag t core =
      if (t, core) = k ∧ id ∉ (b.slots.erase slot).values then false else b.flag t core := by
  obtain ⟨b', hend, hreleased⟩ := ends_dropSlot h hid
  have hrun : (dropSlot slot).run b = (.ok true, b') := hend
  dsimp only
  rw [hrun]
  exact ⟨rfl, (h.erase hid).flag_released hk hreleased⟩

/-- An owner gets a name that was free. -/
theorem Tidy.run_share (h : Tidy none b) {second : String} (hid : b.slots.get? slot = some id)
    (hsecond : b.slots.get? second = none) :
    let y := (share slot second).run b
    y.1 = .ok () ∧ y.2.slots.get? second = some id ∧
      ∀ t core, y.2.flag t core = b.flag t core := by
  obtain ⟨b', hend, hrenamed⟩ := ends_share h second hid
  have hrun : (share slot second).run b = (.ok (), b') := hend
  dsimp only
  rw [hrun]
  refine ⟨rfl, ?_, hrenamed.same_flag hsecond⟩
  rw [hrenamed.slots, Named.get?_insert, if_pos rfl]

/-- **One owner per core.** On any memory a claim ends as `Host.Claimed` tells, and no call changes
a flag. Whatever is done with the owners of a bench: an owner is alive as long as it has a name, no
core has two that are alive, and its flag is set exactly as long as it has one. A claim is refused
if the core is not mapped or has an owner, and then nothing changes; else it makes an owner with the
parities asked for, provided that there can be storage for its buffers. Taking a name away clears
the flag of that owner's core if it was the last name, and no other flag. A new name changes no
flag, nor does anything that an owner is used for. -/
theorem one_owner_per_core :
    (∀ (M : Type) [Memory M],
      (∀ (host : Host M) (core : Nat) (next : Parity), ∃ r host',
        Ends (Host.claim core next) host r host' ∧ Host.Claimed core next host r host') ∧
      ∀ (x : Exchange M) (call : LineExchange.Call), x.Stays (call.make x).2) ∧
    ∀ hosts : List (Host BenchMemory),
      (∀ host ∈ hosts, ∃ m c, Host.open? m c = .ok host) → ∀ moves : List Move,
      let b := (ofHosts hosts).run moves
      (∀ id, (∃ name, b.slots.get? name = some id) ↔ ∃ k, b.place? id = some k) ∧
      (∀ id id' k, b.place? id = some k → b.place? id' = some k → id = id') ∧
      (∀ t core, b.flag t core = true ↔ ∃! id, b.place? id = some (t, core)) ∧
      (∀ t host core next slot, b.hosts[t]? = some host →
        let y := (claim t core next slot).run b
        (host.config.numCores ≤ core →
          y = (.error (.refused (.invalidCore core host.config.numCores)), b)) ∧
        (core < host.config.numCores → b.flag t core = true →
          y = (.error (.refused (.coreInUse core)), b)) ∧
        (core < host.config.numCores → b.flag t core = false → host.config.HasRoom →
          y.1 = .ok () ∧ y.2.slots.get? slot = some b.owners.size ∧
          (∃ o, y.2.owners[b.owners.size]? = some (some ⟨t, o⟩) ∧ o.core = core ∧
            o.next = next ∧ o.stats = {}) ∧
          (b.slots.get? slot = none → ∀ t' core',
            y.2.flag t' core' = if (t', core') = (t, core) then true else b.flag t' core')) ∧
        (core < host.config.numCores → b.flag t core = false → ¬host.config.HasRoom →
          y = (.error (.fault .outOfStorage), b))) ∧
      (∀ slot id k, b.slots.get? slot = some id → b.place? id = some k →
        let y := (dropSlot slot).run b
        y.1 = .ok true ∧ ∀ t core, y.2.flag t core =
          if (t, core) = k ∧ id ∉ (b.slots.erase slot).values then false else b.flag t core) ∧
      (∀ slot second id, b.slots.get? slot = some id → b.slots.get? second = none →
        let y := (share slot second).run b
        y.1 = .ok () ∧ y.2.slots.get? second = some id ∧
          ∀ t core, y.2.flag t core = b.flag t core) ∧
      ∀ m : Move, m.IsUse → ∀ t core, (m.make.run b).2.flag t core = b.flag t core := by
  constructor
  · intro M _
    exact ⟨fun host core next => Host.ends_claim core next host, Exchange.stays_make⟩
  intro hosts hopen moves b
  have h : Tidy none b := tidy_run (tidy_ofHosts hopen) moves
  refine ⟨h.alive_iff, h.unique, h.flag_iff, ?_, ?_, ?_, ?_⟩
  · intro t host core next slot ht
    exact h.run_claim ht core next slot
  · intro slot id k hid hk
    exact h.run_dropSlot hid hk
  · intro slot second id hid hsecond
    exact h.run_share hid hsecond
  · intro m hm t core
    exact ((same_make hm).out (.intro m.make b) (.refl b)).flag t core

/-- A core is claimed, and cannot be claimed again until its owner has lost both of its names. -/
theorem one_owner_per_core_shared : ∃ host : Host BenchMemory,
    Host.open? { inner := .plain (Region.zeros 0x10000) } {} = .ok host ∧
      let owned := (ofHosts [host]).run [.claim 0 0 {} "a", .share "a" "b"]
      let left := (ofHosts [host]).run [.claim 0 0 {} "a", .share "a" "b", .drop "a"]
      let free := (ofHosts [host]).run [.claim 0 0 {} "a", .share "a" "b", .drop "a", .drop "b"]
      owned.flag 0 0 = true ∧
        (claim 0 0 ⟨true, true⟩ "c").run owned = (.error (.refused (.coreInUse 0)), owned) ∧
        (claim 0 1 {} "c").run owned = (.error (.refused (.invalidCore 1 1)), owned) ∧
        ((dropSlot "b").run left).2.flag 0 0 = false ∧
        ((claim 0 0 ⟨true, true⟩ "c").run free).1 = .ok () := by
  have hsize : ({} : Config).regionSize ≤
      Memory.size ({ inner := .plain (Region.zeros 0x10000) } : BenchMemory) := by
    have hplain (r : Region) : Memory.size ({ inner := .plain r } : BenchMemory) = r.bytes.size :=
      rfl
    rw [hplain, Region.zeros, Bytes.size_zeros]
    decide
  obtain ⟨host, hopen⟩ := Host.exists_open? rfl hsize
  refine ⟨host, hopen, ?_⟩
  have hopened : ∀ h ∈ [host], ∃ m c, Host.open? m c = .ok h := by
    intro h hmem
    obtain rfl := List.mem_singleton.1 hmem
    exact ⟨_, _, hopen⟩
  have exact := one_owner_per_core.2 [host] hopened
  obtain ⟨hmemory, hconfig, hcounters, hclaimed, -⟩ := Host.of_open? hopen
  obtain rfl : host = ⟨{ inner := .plain (Region.zeros 0x10000) }, {}, rfl,
      .replicate 1 {}, .replicate 1 false⟩ := by
    cases host
    dsimp only at hmemory hconfig hcounters hclaimed
    subst hmemory hconfig hcounters hclaimed
    rfl
  intro owned left free
  have onDefault {b : Bench} (hb : b.hosts[0]?.map (·.config) = some ({} : Config)) :
      ∃ host, b.hosts[0]? = some host ∧ host.config = ({} : Config) :=
    Option.map_eq_some_iff.1 hb
  obtain ⟨_, hhost, hdefault⟩ := onDefault (b := owned) (by decide +kernel)
  obtain ⟨_, hhost', hdefault'⟩ := onDefault (b := free) (by decide +kernel)
  obtain ⟨-, -, hflag, hclaim, -⟩ := exact [.claim 0 0 {} "a", .share "a" "b"]
  obtain ⟨-, -, -, -, hdrop, -⟩ := exact [.claim 0 0 {} "a", .share "a" "b", .drop "a"]
  obtain ⟨-, -, -, hagain, -⟩ := exact [.claim 0 0 {} "a", .share "a" "b", .drop "a", .drop "b"]
  have htaken : owned.flag 0 0 = true := by decide +kernel
  have hleft := (hdrop "b" 0 (0, 0) (by decide +kernel) (by decide +kernel)).2 0 0
  rw [if_pos (by decide +kernel)] at hleft
  have hfirst := hclaim 0 _ 0 ⟨true, true⟩ "c" hhost
  have hother := hclaim 0 _ 1 {} "c" hhost
  have hlast := hagain 0 _ 0 ⟨true, true⟩ "c" hhost'
  rw [hdefault] at hfirst hother
  rw [hdefault'] at hlast
  exact ⟨htaken, hfirst.2.1 Nat.one_pos htaken, hother.1 (Nat.le_refl 1), hleft,
    (hlast.2.2.1 Nat.one_pos (by decide +kernel) (by decide)).1⟩

end Bench
end LineExchange
