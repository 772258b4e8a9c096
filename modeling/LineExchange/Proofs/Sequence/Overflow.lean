import LineExchange.Proofs.Memory.Account
import LineExchange.Proofs.Ownership.Calls
import LineExchange.Proofs.Parity.Alternation
import LineExchange.Proofs.Sequence.Calls
import LineExchange.Proofs.Sequence.Whole

/-!
# LineExchange.Proofs.Sequence.Overflow

What owners access in each of their calls, and what this comes to over a run. On a host with a
traced memory owners of any cores make calls in turn, and between them anything may happen behind
the log (`HostTurn`).

* `Layout.writtenIn_transmitLog`: of the overflow bytes of a core, a transmit writes those of its
  payload if it is accepted and is one of this core, and else none.
* `HostTurn.bytesWritten_take`, `Host.bytesWritten_after`: what is logged of them is what accepted
  transmits had to send there.
* `Host.whole_of_serves`: on a memory that serves the cores no transmit breaks off.
* `Exchange.access_sequence`: the accesses of each call, one after the other.
-/

namespace LineExchange

open Exchange (Logs Logged pollLog transmitLog overflowWrite broke)

variable {M σ : Type}

/-! ## Bytes written -/

theorem Exchange.Logs.bytesWritten {x y : Exchange (Traced M)} {es : List LogEntry}
    (h : x.Logs y es) (r : Range) :
    y.host.memory.bytesWritten r = x.host.memory.bytesWritten r + writtenIn r es := by
  rw [Traced.bytesWritten_eq, Traced.bytesWritten_eq, h, writtenIn_append]

theorem writtenIn_pollLog (r : Range) (l : Layout) (core : Nat) (parity : Bool) (limit : Nat)
    (found : Option Header) : writtenIn r (pollLog l core parity limit found) = 0 := by
  cases found with
  | none => rfl
  | some h =>
    unfold pollLog
    rw [Option.elim_some]
    split <;> rfl

namespace Layout

/-- The overflow bytes of a core that its transmits write. -/
def txOverflow (l : Layout) (core : Nat) : Range :=
  ⟨l.overflowAt core .tx, l.overflowAt core .tx + l.overflowSize⟩

variable {l : Layout} (hl : l.Ordered)
include hl

/-- A write to some part of a window meets the overflow bytes of a core only if it is there. -/
theorem countWithin_part (core other : Nat) (p : Part) {len : Nat} (hlen : len ≤ p.len l) :
    (l.txOverflow core).countWithin (l.partAt other p) len =
      if other = core ∧ p = .overflow .tx then len else 0 := by
  split
  · next h =>
    obtain ⟨rfl, rfl⟩ := h
    exact Range.countWithin_inside (Nat.le_refl _) (Nat.add_le_add_left hlen _)
  · next h =>
    have apart := l.partAt_apart hl (Classical.not_and_iff_not_or_not.1 h)
    refine Range.countWithin_apart (apart.imp (fun h => ?_) fun h => h)
    exact Nat.le_trans (Nat.add_le_add_left hlen _) h

theorem writtenIn_overflowWrite {core other len : Nat} (hlen : len ≤ l.payloadCapacity) :
    writtenIn (l.txOverflow core) (overflowWrite l other len) =
      if other = core then len - inlineSize else 0 := by
  have hcap := l.payloadCapacity_eq hl
  unfold overflowWrite
  split
  · have hrest : len - inlineSize ≤ l.overflowSize := by omega
    have hpart := l.countWithin_part hl core other (.overflow .tx) hrest
    simp only [and_true] at hpart
    exact (Nat.add_zero _).trans hpart
  · next hfew =>
    rw [Nat.sub_eq_zero_of_le (Nat.not_lt.1 hfew), ite_self]
    rfl

/-- Of the overflow bytes of a core, an accepted transmit writes those of its payload. -/
theorem writtenIn_transmitLog {core other len : Nat} (parity : Bool) {r : Except Stop Unit}
    (hlen : r = .ok () → len ≤ l.payloadCapacity) :
    writtenIn (l.txOverflow core) (transmitLog l other parity len r) =
      if other = core ∧ r = .ok () then len - inlineSize else 0 := by
  rcases r with (e | _ | _) | _
  · rw [if_neg nofun]
    cases e <;> rfl
  · rw [if_neg nofun]
    rfl
  · rw [if_neg nofun]
    rfl
  · have hcontrol := l.countWithin_part hl core other (.control .tx parity) (Nat.le_refl _)
    rw [if_neg nofun] at hcontrol
    have hrest : writtenIn (l.txOverflow core)
        [.write (l.controlAt other .tx parity) lineSize,
          .touch (l.controlAt other .tx !parity)] = 0 := hcontrol
    simp only [transmitLog, writtenIn_append, writtenIn_overflowWrite hl (hlen rfl), hrest,
      and_true, Nat.add_zero]

end Layout

/-! ## Calls -/

namespace Exchange

variable [Memory M] {x : Exchange (Traced M)} {p : SpinPolicy σ} {s : σ}

/-- A receive writes nothing, whatever it comes to. -/
theorem bytesWritten_receive (x : Exchange (Traced M)) (p : SpinPolicy σ) (s : σ) (r : Range) :
    (x.receiveWith p s).2.2.host.memory.bytesWritten r = x.host.memory.bytesWritten r := by
  by_cases h : x.Enters p s
  · rw [(logs_receive h).bytesWritten r, writtenIn_pollLog]
    rfl
  · exact (logs_receive_none h).bytesWritten r

theorem fits_of_transmit {N : Type} [Memory N] {x : Exchange N} {d : Descriptor}
    (h : (x.transmitWith p s d).1 = .ok ()) :
    d.payload.size ≤ x.host.config.layout.payloadCapacity := by
  rw [fst_transmitWith] at h
  unfold transmitStaged at h
  split at h
  · cases h
  · dsimp only at h
    split at h
    · cases h
    · next hfits => exact Nat.not_lt.1 hfits

/-- Nothing is written. -/
def Unwritten (r : Range) (n : Nat) (x : Exchange (Traced M)) : Prop :=
  x.host.memory.bytesWritten r = n

variable {r : Range} {n : Nat}

theorem unwritten_drain (q : SpinPolicy Unit) (fuel drained : Nat) :
    Keeps (Unwritten r n) (drain q fuel drained : Step (Traced M) Nat) := by
  have receive : Keeps (Unwritten r n) (receive q : Step (Traced M) (Option Received)) := by
    constructor
    intro x _ y hend hx
    have hy : y = (x.receiveWith q ()).2.2 := (congrArg Prod.snd hend).symm
    rw [hy]
    exact (bytesWritten_receive x q () r).trans hx
  induction fuel generalizing drained with
  | zero => exact .throw _
  | succ fuel ih =>
    refine receive.bind fun r => ?_
    cases r with
    | none => exact .pure _
    | some received => exact ih _

theorem unwritten_bringUp (q : SpinPolicy Unit) (fuel : Nat) :
    Keeps (Unwritten r n) (bringUp q fuel : Step (Traced M) Nat) := by
  have checkCore : Keeps (Unwritten r n) (checkCore : Step (Traced M) Unit) := by
    refine .get_bind fun x _ => ?_
    split
    · exact .throw _
    · exact .pure _
  have invalidate : Keeps (Unwritten r n) (invalidateLines : Step (Traced M) Unit) := by
    refine .get_bind fun _ _ => .forM fun _ _ => ⟨fun {x _ y} hend hx => ?_⟩
    have hlog := Logged.of_post ((Logged.access _ _).out hend rfl)
    exact (Logs.bytesWritten hlog r).trans hx
  exact checkCore.bind fun _ => invalidate.bind fun _ => unwritten_drain q fuel 0

end Exchange

namespace Call

variable [Memory M]

/-- Bytes of payload that the call sends through the overflow bytes of its core. -/
def overflowSent (x : Exchange M) : Call → Nat
  | .transmit p t d =>
    if (x.transmitWith p t d).1 = .ok () then d.payload.size - inlineSize else 0
  | _ => 0

/-- **One call.** Of the overflow bytes of a core, those of accepted payloads are written. -/
theorem bytesWritten_make (x : Exchange (Traced M)) {call : Call} (h : call.breaks x .tx = false)
    (core : Nat) :
    let r := x.host.config.layout.txOverflow core
    (call.make x).2.host.memory.bytesWritten r = x.host.memory.bytesWritten r +
      if x.owner.core = core then call.overflowSent x else 0 := by
  intro r
  have none : (if x.owner.core = core then 0 else 0) = 0 := ite_self 0
  cases call with
  | receive p t => exact (Exchange.bytesWritten_receive x p t r).trans (congrArg (_ + ·) none).symm
  | prepare kind =>
    have hend := Exchange.ends_prepare x kind
    have hmade : ((Call.prepare kind).make x).2.host = x.host :=
      congrArg (fun q : Except Stop Descriptor × Exchange (Traced M) => q.2.host) hend
    rw [hmade]
    exact (congrArg (_ + ·) none).symm
  | resync next =>
    have hmade : ((Call.resync next).make x).2.host = x.host := by
      obtain ⟨-, hrun⟩ | ⟨e, -, hrun⟩ := Exchange.run_resync next x <;> rw [make_resync, hrun]
    rw [hmade]
    exact (congrArg (_ + ·) none).symm
  | bringUp p fuel =>
    have kept := (Exchange.unwritten_bringUp (r := r) p fuel).out (.intro _ x) rfl
    exact kept.trans (congrArg (_ + ·) none).symm
  | transmit p t d =>
    have hwritten := (Exchange.logs_transmit rfl (Exchange.ne_fault_of_broke h)).bytesWritten r
    rw [x.host.config.layout.writtenIn_transmitLog x.host.ordered _ Exchange.fits_of_transmit]
      at hwritten
    rw [ite_and] at hwritten
    exact hwritten

/-- On a memory that serves the cores, no transmit breaks off. -/
theorem unbroken_of_serves {x : Exchange (Traced Backing)} (call : Call)
    (h : x.host.memory.inner.Serves x.host.config) : call.breaks x .tx = false := by
  cases call with
  | transmit p t d =>
    have hwhole := Exchange.transmitWith_whole (x := x.through Traced.inner) h p t d
    have hseen : ((x.through Traced.inner).transmitWith p t d).1 = (x.transmitWith p t d).1 :=
      congrArg (fun q : Except Stop Unit × _ × Exchange Backing => q.1)
        (Exchange.transmitWith_through Traced.mirrored x d)
    rw [hseen] at hwhole
    show broke (x.transmitWith p t d).1 = false
    rcases hr : (x.transmitWith p t d).1 with (_ | f | _) | _
    · rfl
    · exact absurd hr (hwhole f)
    · rfl
    · rfl
  | _ => rfl

end Call

/-! ## Runs -/

/-- The host with these instead of what it had. Settings never change. -/
def Host.replaced (host : Host M) (memory : M) (counters : Array Counters)
    (claimed : Array Bool) : Host M :=
  { host with memory, counters, claimed }

/-- What happens to a host in turn: an owner makes a call, or others are at work. -/
inductive HostTurn (M : Type) : Type 1 where
  | call (o : Owner) (c : Call)
  /-- The memory behind the log, the counters and the claims are now these. -/
  | others (inner : M) (counters : Array Counters) (claimed : Array Bool)

namespace HostTurn

variable [Memory M]

def take (host : Host (Traced M)) : HostTurn M → Host (Traced M)
  | call o c => (c.make ⟨host, o⟩).2.host
  | others inner counters claimed =>
    host.replaced { host.memory with inner } counters claimed

/-- Bytes of payload that are sent through the overflow bytes of a core. -/
def overflowSent (core : Nat) (host : Host (Traced M)) : HostTurn M → Nat
  | call o c => if o.core = core then c.overflowSent ⟨host, o⟩ else 0
  | others .. => 0

/-- No transmit breaks off. -/
def Whole (host : Host (Traced M)) : HostTurn M → Prop
  | call o c => c.breaks ⟨host, o⟩ .tx = false
  | others .. => True

theorem config_take (host : Host (Traced M)) (t : HostTurn M) :
    (t.take host).config = host.config := by
  cases t with
  | call o c => exact (Exchange.stays_make ⟨host, o⟩ c).host.config
  | others => rfl

theorem bytesWritten_take {host : Host (Traced M)} {t : HostTurn M} (h : t.Whole host)
    (core : Nat) :
    let r := host.config.layout.txOverflow core
    (t.take host).memory.bytesWritten r =
      host.memory.bytesWritten r + t.overflowSent core host := by
  cases t with
  | call o c => exact c.bytesWritten_make ⟨host, o⟩ h core
  | others => rfl

end HostTurn

namespace Host

variable [Memory M]

/-- The host after some turns. -/
def after : Host (Traced M) → List (HostTurn M) → Host (Traced M) := List.foldl HostTurn.take

/-- Bytes of accepted payloads that went through the overflow bytes of a core. -/
def overflowSent (core : Nat) : Host (Traced M) → List (HostTurn M) → Nat
  | _, [] => 0
  | host, t :: turns => t.overflowSent core host + overflowSent core (t.take host) turns

/-- No transmit of the run breaks off. -/
def Whole : Host (Traced M) → List (HostTurn M) → Prop
  | _, [] => True
  | host, t :: turns => t.Whole host ∧ Whole (t.take host) turns

/-- **A run.** Of the overflow bytes of a core, those of accepted payloads are written. -/
theorem bytesWritten_after {host : Host (Traced M)} {turns : List (HostTurn M)}
    (h : host.Whole turns) (core : Nat) :
    let r := host.config.layout.txOverflow core
    (host.after turns).memory.bytesWritten r =
      host.memory.bytesWritten r + host.overflowSent core turns := by
  induction turns generalizing host with
  | nil => rfl
  | cons t turns ih =>
    obtain ⟨hfirst, hrest⟩ := h
    have first := HostTurn.bytesWritten_take hfirst core
    have rest := ih hrest
    rw [t.config_take host] at rest
    dsimp only at first rest ⊢
    rw [first] at rest
    exact rest.trans (Nat.add_assoc ..)

/-- On a memory that serves the cores, and that others leave so, no transmit breaks off. -/
theorem whole_of_serves {host : Host (Traced Backing)} {turns : List (HostTurn Backing)}
    (h : host.memory.inner.Serves host.config)
    (hothers : ∀ inner counters claimed, .others inner counters claimed ∈ turns →
      inner.Serves host.config) : host.Whole turns := by
  induction turns generalizing host with
  | nil => trivial
  | cons t turns ih =>
    have hconfig := t.config_take host
    have later (hserves : (t.take host).memory.inner.Serves host.config) :
        (t.take host).Whole turns := by
      rw [← hconfig] at hserves
      refine ih hserves fun inner counters claimed hmem => ?_
      rw [hconfig]
      exact hothers inner counters claimed (.tail _ hmem)
    cases t with
    | call o c =>
      let x : Exchange (Traced Backing) := ⟨host, o⟩
      have hmade : (c.make (x.through Traced.inner)).2.host.memory =
          (c.make x).2.host.memory.inner :=
        congrArg (·.2.host.memory) (c.make_through Traced.mirrored x)
      refine ⟨c.unbroken_of_serves (x := x) h, later ?_⟩
      have hserves := c.serves_make (x := x.through Traced.inner) h
      rw [hmade] at hserves
      exact hserves
    | others inner counters claimed =>
      exact ⟨trivial, later (hothers inner counters claimed (.head _))⟩

end Host

namespace Exchange

theorem controlAt_not_ne (l : Layout) (core : Nat) (d : Direction) (parity : Bool) :
    l.controlAt core d (!parity) ≠ l.controlAt core d parity := by
  intro h
  have hline : l.parityAt? core d (l.controlAt core d !parity) = some !parity :=
    l.parityAt?_controlAt _
  rw [h, l.parityAt?_controlAt] at hline
  exact Bool.not_ne_self parity (Option.some.inj hline).symm

/-- **The access sequence of each exchange.** On a traced memory of any kind, a receive that enters
reads the control line that comes next, and then the overflow bytes iff the line is valid and
announces any that fit. An accepted transmit writes the overflow bytes of its payload, if it has
any, then the control line that comes next, and last touches the other one. That is all that a
transmit of what cannot be sent does. A call that does not enter makes no access that is logged.

In a run of calls by owners of any cores, whatever happens behind the log in between, what is
logged of writes to the overflow bytes of a core is what accepted transmits on it had to put there,
unless a transmit broke off. On a memory that serves the cores none does, and a memory that a host
was opened on is one. -/
theorem access_sequence :
    (∀ {M σ : Type} [Memory M] (x : Exchange (Traced M)) (p : SpinPolicy σ) (s : σ),
      let r := x.receiveWith p s
      (x.Enters p s → x.Logs r.2.2 (pollLog x.host.config.layout x.owner.core x.owner.next.rx
        x.rxLimit (x.enter p s).2.2.nextHeader?)) ∧
      (¬x.Enters p s → x.Logs r.2.2 []) ∧
      ∀ e : Stop, e.Outside → r.1 = .error e → x.Logs r.2.2 []) ∧
    (∀ {M σ : Type} [Memory M] (x : Exchange (Traced M)) (p : SpinPolicy σ) (s : σ)
        (d : Descriptor),
      let r := x.transmitWith p s d
      let control := x.host.config.layout.controlAt x.owner.core .tx
      (r.1 = .ok () → x.Logs r.2.2
        (overflowWrite x.host.config.layout x.owner.core d.payload.size ++
          [.write (control x.owner.next.tx) lineSize, .touch (control !x.owner.next.tx)])) ∧
      (∀ e, r.1 = .error (.refused (.unsupportedTransmit e)) →
        x.Logs r.2.2 [.touch (control !x.owner.next.tx)]) ∧
      (∀ e : Stop, e.Outside → r.1 = .error e → x.Logs r.2.2 []) ∧
      control (!x.owner.next.tx) ≠ control x.owner.next.tx) ∧
    (∀ {M : Type} [Memory M] (host : Host (Traced M)) (turns : List (HostTurn M)),
      host.Whole turns → ∀ core,
        let overflow := host.config.layout.txOverflow core
        (host.after turns).memory.bytesWritten overflow =
          host.memory.bytesWritten overflow + host.overflowSent core turns) ∧
    (∀ (host : Host (Traced Backing)) (turns : List (HostTurn Backing)),
      host.memory.inner.Serves host.config →
      (∀ inner counters claimed, .others inner counters claimed ∈ turns →
        inner.Serves host.config) → host.Whole turns) ∧
    ∀ (c : Config) (b : Backing) (host : Host (Traced Backing)),
      Host.open? { inner := b } c = .ok host → Memory.size b < wordMax →
      (∀ d, b = .device d → ∃ r, Nic.start r c = .ok (.ok d)) →
        host.memory.inner.Serves host.config := by
  refine ⟨fun x p s => ⟨logs_receive, logs_receive_none, fun e he hr => ?_⟩,
    fun x p s d => ⟨fun hr => ?_, fun e hr => ?_, fun e he hr => ?_, controlAt_not_ne _ _ _ _⟩,
    fun host turns h core => Host.bytesWritten_after h core,
    fun host turns h hothers => Host.whole_of_serves h hothers,
    fun c b host hopen hword hnew => Host.serves_of_open? hopen hword hnew⟩
  · exact logs_receive_outside he hr
  · exact logs_transmit hr nofun
  · exact logs_transmit hr nofun
  · have hlogs := logs_transmit hr (by cases he <;> nofun)
    rw [(outside_transmit he ..).2] at hlogs
    exact hlogs

/-- On a memory that serves the cores, the checks decide what a transmit comes to. -/
theorem answered_of_serves {σ : Type} {x : Exchange (Traced Backing)}
    (h : x.host.memory.inner.Serves x.host.config)
    (hin : x.host.workerAt x.owner.core < Memory.size x.host.memory)
    (hcore : x.host.coreError? x.owner.core = none)
    (hidle : ControlByte.LetsIn (x.host.gateOf x.owner.core).byte) (p : SpinPolicy σ) (s : σ)
    (d : Descriptor) : Answered x.host.config d (x.transmitWith p s d).1 := by
  have hwhole : broke (x.transmitWith p s d).1 = false :=
    (Call.transmit p s d).unbroken_of_serves h
  obtain hanswered | ⟨fault, hfault, -⟩ := answered_or_fault hin hcore hidle p s d
  · exact hanswered
  · exact absurd hfault (ne_fault_of_broke hwhole fault)

/-- The region where a call waits, with a trace of the accesses to it. -/
def waiting : Traced Backing where
  inner := .plain .waitingCall

/-- The host that is opened on it. -/
def waitingHost : Host (Traced Backing) := .fresh waiting narrow check_narrow

theorem open_waitingHost : Host.open? waiting narrow = .ok waitingHost :=
  Host.open_fresh check_narrow (by decide +kernel)

/-- A call is received, and one is sent. Then others put the region back as it was. -/
theorem access_sequence_narrow :
    let x : Exchange (Traced Backing) := ⟨waitingHost, .synced 0 narrow {}⟩
    let p := (SpinLimit.attempts 3).policy
    let call : Descriptor := ⟨.call ⟨0x55aa, 7, .take (.zeros 0)⟩, .zeros 100⟩
    let turns := [.call x.owner (.transmit p () call), .others waiting.inner #[{}] #[true]]
    x.Logs (x.receiveWith p ()).2.2 [.read 0 128, .read 0x100 36] ∧
      x.Logs (x.transmitWith p () call).2.2 [.write 0x280 36, .write 0x180 128, .touch 0x200] ∧
      (waitingHost.after turns).memory.bytesWritten ⟨0x280, 0x300⟩ = 36 := by
  intro x p call turns
  obtain ⟨received, sent, written, whole, serves⟩ := access_sequence
  have hserves : waiting.inner.Serves narrow :=
    serves narrow waiting.inner waitingHost open_waitingHost (by decide +kernel) nofun
  have hwhole : waitingHost.Whole turns := by
    refine whole waitingHost turns hserves fun inner counters claimed hmem => ?_
    rcases List.mem_cons.1 hmem with h | h
    · cases h
    · cases List.mem_singleton.1 h
      exact hserves
  have henter : x.Enters p () := ⟨rfl, by decide +kernel⟩
  have hpoll : pollLog narrow.layout 0 false x.rxLimit (x.enter p ()).2.2.nextHeader? =
      [.read 0 128, .read 0x100 36] := by decide +kernel
  have hsend : overflowWrite narrow.layout 0 call.payload.size ++
      [.write (narrow.layout.controlAt 0 .tx false) lineSize,
        .touch (narrow.layout.controlAt 0 .tx true)] =
      [.write 0x280 36, .write 0x180 128, .touch 0x200] := by decide +kernel
  have hsends : narrow.format.Sends call.transaction :=
    (by decide +kernel : (InlineBytes.take (.zeros 0)).len ≤ narrow.format.argsSize)
  have hok : (x.transmitWith p () call).1 = .ok () := by
    have hanswered := answered_of_serves (x := x) hserves (by decide +kernel) rfl
      ⟨by decide +kernel, by decide +kernel⟩ p () call
    exact hanswered.ok_iff.2 ⟨by decide +kernel, hsends⟩
  have hbytes := written waitingHost turns hwhole 0
  have hcore : x.owner.core = 0 := rfl
  have hlen : call.payload.size - inlineSize = 36 := by decide +kernel
  have hsum : waitingHost.overflowSent 0 turns = 36 := by
    unfold turns Host.overflowSent HostTurn.overflowSent Call.overflowSent
    dsimp only
    rw [if_pos hcore, if_pos hok, hlen]
    exact Nat.add_zero 36
  refine ⟨?_, ?_, ?_⟩
  · rw [← hpoll]
    exact (received x p ()).1 henter
  · rw [← hsend]
    exact (sent x p () call).1 hok
  · have hrange : waitingHost.config.layout.txOverflow 0 = ⟨0x280, 0x300⟩ := by decide +kernel
    rw [hrange, hsum] at hbytes
    exact hbytes

end Exchange
end LineExchange
