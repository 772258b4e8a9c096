import LineExchange.Memory.Sparse
import LineExchange.Proofs.Bounds.Calls
import LineExchange.Proofs.Link.Refines
import LineExchange.Proofs.Parity.InStep

/-!
# LineExchange.Proofs.Bounds.Stays

Runs of a host behind the fence. A call on a core whose control byte lies in the region never meets
the fence; on a core that is not mapped it is refused before anything is accessed
(`Fenced.serve_eq`). So where the last control byte lies in the region, runs answer the same with
the fence and without (`Fenced.answers_eq`). A host that could be opened has its last control byte
elsewhere only at the top of all addresses (`Fenced.top_of_le`), and then a poll there leaves the
region (`Fenced.poll_strays`). The device reaches its region only within bounds: at a station on a
device no operation on a mapped core breaks off (`Station.whole_step`).
-/

namespace LineExchange

namespace Fenced

open Exchange (Step)

variable {M α : Type} [Memory M] {stray : Stop} {c : Config} {core n size : Nat}

/-- A host with the settings `c` on a region of `n` bytes. -/
structure On (c : Config) (n : Nat) (h : Host M) : Prop where
  config : h.config = c
  region : Memory.size h.memory = n

theorem At.on {x : Exchange M} (hx : At c core n size x) : On c n x.host := ⟨hx.config, hx.region⟩

theorem On.at {x : Exchange M} (hx : On c n x.host) :
    At c x.owner.core n x.owner.rxBuffer.size x := ⟨hx.config, rfl, hx.region, rfl⟩

/-- Where the control byte of the last core lies in the region, those of all cores do. -/
theorem placed (hcheck : c.check = .ok ()) (hlast : c.layout.workerAt (c.numCores - 1) < n)
    (hn : n ≤ wordMax) (hcore : core < c.numCores) : Placed c core n := by
  have hbase : c.layout.coreBase core ≤ c.layout.coreBase (c.numCores - 1) :=
    Nat.mul_le_mul_right _ (by omega)
  exact ⟨Config.ordered_of_check hcheck, Config.accepted_of_check hcheck, hcore,
    Nat.lt_of_le_of_lt (Nat.add_le_add_right hbase _) hlast, hn⟩

/-- The size that is needed is not known where the last control byte lies beyond a region that was
accepted. The largest word is asked for then, and the region has it. -/
theorem top_of_le (hcheck : c.check = .ok ()) (hsize : c.regionSize ≤ n) (hn : n ≤ wordMax)
    (hlast : n ≤ c.layout.workerAt (c.numCores - 1)) :
    n = wordMax ∧ c.layout.regionSize c.numCores = none := by
  unfold Config.regionSize Layout.requiredSize at hsize
  cases hr : c.layout.regionSize c.numCores with
  | none =>
    rw [hr] at hsize
    exact ⟨Nat.le_antisymm hn hsize, rfl⟩
  | some r =>
    rw [hr] at hsize
    have hcores : 0 < c.numCores := Config.numCores_pos_of_check hcheck
    have hworker := c.layout.fits_of_regionSize (Config.ordered_of_check hcheck) hr hsize
      (c.numCores - 1) (Nat.sub_one_lt_of_lt hcores) .worker
    exact absurd (Layout.lt_of_line_le hworker) (Nat.not_lt.2 hlast)

theorem keeps_prepare (kind : TransactionKind) :
    Keeps (On (M := M) c n ∘ Exchange.host) (Exchange.prepare kind : Step M Descriptor) := by
  refine .get_bind fun x hx => .bind (.set hx) fun _ => ?_
  split
  · exact .pure _
  · exact .throw _

variable [LawfulMemory M]

theorem make_mapped {x : Exchange M} (h : Placed c x.owner.core n) (hx : On c n x.host)
    (call : Call) : make stray x call = call.make x ∧ On c n (call.make x).2.host := by
  have hat := hx.at
  cases call with
  | receive p s =>
    obtain ⟨heq, hy⟩ := same_receiveWith stray h hat p s
    exact ⟨congrArg (fun q : Except Stop (Option Received) × _ × Exchange M =>
      (Outcome.ofCall .received q.1, q.2.2)) heq, hy.on⟩
  | prepare kind => exact ⟨rfl, (keeps_prepare kind).out (.intro _ x) hx⟩
  | transmit p s d =>
    obtain ⟨heq, hy⟩ := same_transmitWith stray h hat p s d
    exact ⟨congrArg (fun q : Except Stop Unit × _ × Exchange M =>
      (Outcome.ofCall (fun _ => .done) q.1, q.2.2)) heq, hy.on⟩
  | resync next =>
    have hab : Agrees (At c x.owner.core n x.owner.rxBuffer.size)
        (resync stray next : Step M Unit) (Exchange.resync next) := agrees_resync h next
    exact ⟨congrArg (fun q : Except Stop Unit × Exchange M =>
      (Outcome.ofCall (fun _ => .done) q.1, q.2)) (hab.same x hat),
      (hab.keeps.out (.intro _ x) hat).on⟩
  | bringUp p fuel =>
    have hab : Agrees (At c x.owner.core n x.owner.rxBuffer.size)
        (bringUp stray p fuel : Step M Nat) (Exchange.bringUp p fuel) := agrees_bringUp h p fuel
    exact ⟨congrArg (fun q : Except Stop Nat × Exchange M => (Outcome.ofCall .drained q.1, q.2))
      (hab.same x hat), (hab.keeps.out (.intro _ x) hat).on⟩

omit [LawfulMemory M] in
/-- A call on a core that is not mapped accesses nothing, with the fence or without. -/
theorem make_unmapped {x : Exchange M} {e : ExchangeError}
    (he : x.host.coreError? x.owner.core = some e) (hx : On c n x.host) (call : Call) :
    make stray x call = call.make x ∧ On c n (call.make x).2.host := by
  have refused {β : Type} {f : PUnit → Step M β} :
      Ends (Exchange.checkCore >>= f) x (.error (.refused e)) x :=
    .bind_error (Exchange.ends_checkCore_refused he)
  have same {β : Type} {f g : PUnit → Step M β} :
      Step.run (checkCore stray >>= f) x = Step.run (Exchange.checkCore >>= g) x :=
    (Ends.bind_error refused).trans refused.symm
  have stays {β : Type} {f : PUnit → Step M β} :
      On c n (Step.run (Exchange.checkCore >>= f) x).2.host := by
    have hrun : Step.run (Exchange.checkCore >>= f) x = (.error (.refused e), x) := refused
    rw [hrun]
    exact hx
  cases call with
  | receive p s =>
    unfold make Call.make receiveWith Exchange.receiveWith
    rw [he]
    exact ⟨rfl, hx⟩
  | prepare kind => exact ⟨rfl, (keeps_prepare kind).out (.intro _ x) hx⟩
  | transmit p s d =>
    unfold make Call.make transmitWith Exchange.transmitWith transmitStaged Exchange.transmitStaged
    rw [he]
    exact ⟨rfl, hx⟩
  | resync next =>
    exact ⟨congrArg (fun q : Except Stop Unit × Exchange M =>
      (Outcome.ofCall (fun _ => .done) q.1, q.2)) same, stays⟩
  | bringUp p fuel =>
    exact ⟨congrArg (fun q : Except Stop Nat × Exchange M => (Outcome.ofCall .drained q.1, q.2))
      same, stays⟩

variable (stray) in
/-- A host is asked for something, with the fence and without. -/
theorem serve_eq (h : ∀ core, core < c.numCores → Placed c core n) {host : Host M}
    (hh : On c n host) (a : Ask) :
    serve stray host a = a.serve host ∧ On c n (a.serve host).2 := by
  cases a with
  | call o call =>
    have same : make stray ⟨host, o⟩ call = call.make ⟨host, o⟩ ∧
        On c n (call.make ⟨host, o⟩).2.host := by
      cases he : host.coreError? o.core with
      | none => exact make_mapped (h _ (hh.config ▸ Host.lt_of_coreError? he)) hh call
      | some e => exact make_unmapped he hh call
    exact ⟨congrArg (fun q : Outcome × Exchange M => (q.1, q.2.host)) same.1, same.2⟩
  | gate core f =>
    cases he : host.coreError? core with
    | some e =>
      simp only [serve, Ask.serve, he]
      exact ⟨trivial, hh⟩
    | none =>
      have hplaced := h core (hh.config ▸ Host.lt_of_coreError? he)
      have hin : InRegion host.memory (host.workerAt core) 1 := by
        rw [Host.workerAt, hh.config]
        exact hplaced.worker_inRegion hh.region
      have hlt : host.workerAt core < Memory.size host.memory := hin.1
      have hrun : Access.run (Host.onGate core fun g => ((), f g)) host =
          (.ok (), host.withGate core (f (host.gateOf core))) := Host.ends_onGate _ hlt
      simp only [serve, Ask.serve, he, if_pos hin, hrun]
      exact ⟨trivial, hh.config, (LawfulMemory.size_stored _ hlt).trans hh.region⟩

theorem answers_eq (h : ∀ core, core < c.numCores → Placed c core n) {host : Host M}
    (hh : On c n host) (asks : List Ask) :
    Ask.answers (serve stray) host asks = Ask.answers Ask.serve host asks := by
  induction asks generalizing host with
  | nil => rfl
  | cons a asks ih =>
    obtain ⟨heq, hh'⟩ := serve_eq stray h hh a
    unfold Ask.answers
    rw [heq]
    dsimp only
    rw [ih hh']

/-- A poll on a core whose control byte lies beyond the region is stopped by the fence, and without
it breaks off. -/
theorem poll_strays {host : Host M} {o : Owner} {σ : Type} (hcore : host.coreError? o.core = none)
    (hout : Memory.size host.memory ≤ host.workerAt o.core) (p : SpinPolicy σ) (t : σ) :
    (serve .endless host (.call o (.receive p t))).1 = .endless ∧
      ∃ f, (Ask.serve host (.call o (.receive p t))).1 = .fault f := by
  constructor
  · have hfenced : receiveWith .endless p t ⟨host, o⟩ = (.error .endless, t, ⟨host, o⟩) := by
      unfold receiveWith locate entering
      rw [hcore]
      dsimp only
      split
      · exact if_neg fun hin => Nat.not_lt.2 hout hin.1
      · rfl
    simp only [serve, make, hfenced, Outcome.ofCall]
  · obtain ⟨f, hf⟩ := Exchange.enter_outside (x := ⟨host, o⟩) (p := p) (s := t) hout
    have hcall : Exchange.receiveWith p t ⟨host, o⟩ = (.error (.fault f), t, ⟨host, o⟩) := by
      unfold Exchange.receiveWith Exchange.entering
      rw [hcore]
      dsimp only
      rw [hf]
    exact ⟨f, by simp only [Ask.serve, Call.make, hcall, Outcome.ofCall]⟩

/-- Runs answer the same with the fence and without exactly if the last control byte lies in the
region. -/
theorem answers_eq_iff {host : Host M} (hh : On c n host) (hcheck : c.check = .ok ())
    (hn : n ≤ wordMax) :
    (∀ (stray : Stop) (asks : List Ask),
      Ask.answers (serve stray) host asks = Ask.answers Ask.serve host asks) ↔
    c.layout.workerAt (c.numCores - 1) < n := by
  constructor
  · intro same
    refine Nat.lt_of_not_le fun hlast => ?_
    have hcores : 0 < c.numCores := Config.numCores_pos_of_check hcheck
    have hcore : host.coreError? (c.numCores - 1) = none := by
      rw [Host.coreError?, hh.config, if_pos (Nat.sub_one_lt_of_lt hcores)]
    have hout : Memory.size host.memory ≤ host.workerAt (c.numCores - 1) := by
      rw [Host.workerAt, hh.config, hh.region]
      exact hlast
    let o : Owner := .synced (c.numCores - 1) c {}
    obtain ⟨hfenced, f, hfault⟩ := poll_strays (o := o) hcore hout SpinLimit.unbounded.policy ()
    have hsame := congrArg (fun q : List Outcome × Host M => q.1)
      (same .endless [.call o (.receive SpinLimit.unbounded.policy ())])
    simp only [Ask.answers, hfenced, hfault] at hsame
    cases hsame
  · intro hlast stray asks
    exact answers_eq (fun core hcore => placed hcheck hlast hn hcore) hh asks

end Fenced

namespace Station

variable {c : Config} {s : Station}

/-- On a device, no operation on a mapped core breaks off. -/
theorem whole_step (hl : c.layout.Ordered) (h : s.Sound c) {op : Op}
    (hcore : op.core < c.numCores) : (s.step op).1.Whole := by
  have made {o : Owner} (ho : o.core < c.numCores) (call : Call) :
      (call.make ⟨s.host, o⟩).1.Whole := by
    obtain ⟨t, hs⟩ := h.counts ho
    have hx : Exchange.Paced c o.core ⟨o.next, t⟩ ⟨s.host, o⟩ := ⟨hs, rfl, rfl⟩
    exact (Call.paced hx call).1
  cases hop : op.isCall with
  | false =>
    obtain ⟨t, hs⟩ := h.counts hcore
    exact (counts_step hl hop hs).1
  | true =>
    cases op with
    | call core call =>
      change (s.call core call).1.Whole
      unfold Station.call
      split
      · exact nofun
      · next o ho => exact made ((h.tidy.owner core o ho).symm ▸ hcore) call
    | visit o call => exact made hcore call
    | _ => cases hop

end Station

namespace Fenced

/-- **When the engine stays in the region.** Take a host that was opened on any memory, whatever it
holds and answers; its size is a word. Whatever owners then ask of it, by calls or on the gates, it
answers the same behind the fence exactly if the control byte of the last core lies in the region:
then every access ends within the region and at a word, and every slice and every copy is within its
buffer. The byte lies elsewhere only if the size that is needed is no word. Then the largest word is
asked for, and a memory of just that size is taken although no memory is large enough.

And on a device in front of a region, whatever was done before, no operation on a mapped core
breaks off. So the device stays within its region as well, which faults on any other access. -/
theorem never_strays (c : Config) :
    (∀ {M : Type} [Memory M] [LawfulMemory M] {memory : M} {host : Host M},
      Host.open? memory c = .ok host → Memory.size memory ≤ wordMax →
      ((∀ (stray : Stop) (asks : List Ask),
          Ask.answers (serve stray) host asks = Ask.answers Ask.serve host asks) ↔
        c.layout.workerAt (c.numCores - 1) < Memory.size memory) ∧
      (Memory.size memory ≤ c.layout.workerAt (c.numCores - 1) →
        Memory.size memory = wordMax ∧ c.layout.regionSize c.numCores = none)) ∧
    (∀ {r : Region} {d : Nic Region} {host : Host Backing}, Nic.start r c = .ok (.ok d) →
      Host.open? (.device d) c = .ok host → ∀ (ops : List Op) (op : Op), op.core < c.numCores →
        ((({ host } : Station).after ops).step op).1.Whole) := by
  constructor
  · intro M _ _ memory host hopen hword
    obtain ⟨hmemory, hconfig, -, -, hsize⟩ := Host.of_open? hopen
    have hcheck : c.check = .ok () := hconfig ▸ host.config_ok
    exact ⟨answers_eq_iff ⟨hconfig, congrArg Memory.size hmemory⟩ hcheck hword,
      top_of_le hcheck hsize hword⟩
  · intro r d host hstart hopen ops op hcore
    obtain ⟨hl, hsound, -⟩ := Station.sound_open hstart hopen
    exact Station.whole_step hl (hsound.after hl ops) hcore

/-- Settings for two cores with one overflow line each, whose last control byte is at 0x680. -/
def pair : Config := { Exchange.narrow with numCores := 2 }

theorem check_pair : pair.check = .ok () := by decide

/-- A packet waits at the second core for owners whose buffers are too small for it. They open the
gate, poll, send what is too long and poll on a core that is not there, in a region of just the size
that is needed. A device in front of such a region serves them as well. -/
theorem never_strays_two_cores : ∃ d host,
    let memory : Region := ⟨((Bytes.zeros 0x700).put 0x400 201).put 0x402 1⟩
    let plain : Host Region := .fresh memory pair check_pair
    let o : Owner := .synced 1 { pair with rxBufferSize := 16 } ⟨true, false⟩
    let call : Transaction := .call ⟨0x55aa, 7, .take (.zeros 0)⟩
    let poll : Call := .receive (SpinLimit.attempts 3).policy ()
    let send : Call := .transmit (SpinLimit.attempts 3).policy () ⟨call, .zeros 0x1000⟩
    let asks : List Ask := [.gate 1 (·.setReady true), .call o poll, .call o send,
      .call { o with core := 2 } poll]
    Host.open? memory pair = .ok plain ∧ pair.layout.workerAt 1 < Memory.size memory ∧
      (Ask.answers (serve .endless) plain asks).1 =
        [.done, .refused (.overflowExceeded 100 16), .refused (.payloadTooLarge 0x1000 192),
          .refused (.invalidCore 2 2)] ∧
      Nic.start (Region.zeros 0x700) pair = .ok (.ok d) ∧
      Host.open? (Backing.device d) pair = .ok host ∧
      ((({ host } : Station).after [.inject 1 call (.zeros 100)]).step (.visit o poll)).1.Whole := by
  obtain ⟨d, host, hstart, hopen⟩ :=
    Station.exists_device (r := 0x700) check_pair (by decide) (by decide)
  refine ⟨d, host, ?_⟩
  intro memory plain o call poll send asks
  have hplain : Host.open? memory pair = .ok plain := Host.open_fresh check_pair (by decide +kernel)
  have hlast : pair.layout.workerAt 1 < Memory.size memory := by decide +kernel
  have hword : Memory.size memory ≤ wordMax := by decide +kernel
  have hanswers : (Ask.answers Ask.serve plain asks).1 =
      [.done, .refused (.overflowExceeded 100 16), .refused (.payloadTooLarge 0x1000 192),
        .refused (.invalidCore 2 2)] := by
    decide +kernel
  obtain ⟨hasks, hops⟩ := never_strays pair
  have same : Ask.answers (serve .endless) plain asks = Ask.answers Ask.serve plain asks :=
    (hasks hplain hword).1.2 hlast .endless asks
  exact ⟨hplain, hlast, (congrArg Prod.fst same).trans hanswers, hstart, hopen,
    hops hstart hopen _ _ (by decide)⟩

/-- Settings for three cores that are 2^63 bytes apart. No region is large enough for them. -/
def farApart : Config where
  layout := { stride := 0x8000000000000000 }
  numCores := 3

theorem check_farApart : farApart.check = .ok () := by decide

/-- **A host that strays.** A lawful memory whose size is the largest word is taken for cores that
need more. The base of the last core is no word, and a poll there leaves the region. -/
theorem strays_at_the_top :
    let memory : Sparse := { size := wordMax }
    let host : Host Sparse := .fresh memory farApart check_farApart
    let poll : Ask := .call (.synced 2 farApart {}) (.receive SpinLimit.unbounded.policy ())
    LawfulMemory Sparse ∧ Host.open? memory farApart = .ok host ∧
      farApart.layout.regionSize 3 = none ∧ wordMax < farApart.layout.coreBase 2 ∧
      (Ask.answers (serve .endless) host [poll]).1 = [.endless] ∧
      (Ask.answers Ask.serve host [poll]).1 =
        [.fault (.outsideRegion (farApart.layout.workerAt 2) 1 wordMax)] := by
  intro memory host poll
  have hopen : Host.open? memory farApart = .ok host := Host.open_fresh check_farApart (by decide)
  exact ⟨inferInstance, hopen, by decide, by decide, by decide +kernel, by decide +kernel⟩

end Fenced
end LineExchange
