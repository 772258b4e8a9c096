import LineExchange.Exchange.BringUp
import LineExchange.Exchange.Transmit
import LineExchange.Memory.Trace
import LineExchange.Proofs.Exchange.Section
import LineExchange.Proofs.Meets
import Mathlib.Logic.Function.Iterate

/-!
# LineExchange.Proofs.Exchange.Watch

Calls on any memory at all, watched from the accesses that they make. Nothing is asked of the
memory: it may answer what it likes, change as it likes, and fault at any access.

* `Watch`: what can be told of a memory from the accesses so far. Of every memory nothing need be
  told (`Watch.blind`); a traced one has them in its log (`Watch.log`).
* `Exchange.Watched`: where an owner under watch stands. One rule for each thing that a call does.
* `Exchange.Made`: how a call ends that made so many exchanges and these accesses. A call that
  broke off may have gone on to the next line once more.
-/

namespace LineExchange

variable {M : Type}

/-- What can be told of a memory from the accesses made to it so far. Accesses to control bytes
are not among them, and of an access that faulted nothing is told. -/
structure Watch (M : Type) [Memory M] where
  sees : List LogEntry → M → Prop
  read (es : List LogEntry) (offset len : Nat) :
    Meets (sees es) (Memory.read offset len) (fun _ => sees (es ++ [.read offset len]))
      fun _ _ => True
  write (es : List LogEntry) (offset : Nat) (data : Bytes) :
    Meets (sees es) (Memory.write offset data) (fun _ => sees (es ++ [.write offset data.size]))
      fun _ _ => True
  touch (es : List LogEntry) (offset : Nat) :
    Meets (sees es) (Memory.touch offset) (fun _ => sees (es ++ [.touch offset])) fun _ _ => True
  invalidate (es : List LogEntry) (offset : Nat) :
    Meets (sees es) (Memory.invalidate offset) (fun _ => sees (es ++ [.invalidate offset]))
      fun _ _ => True
  load (es : List LogEntry) (offset : Nat) : Keeps (sees es) (Memory.loadControl offset)
  store (es : List LogEntry) (offset : Nat) (byte : UInt8) :
    Keeps (sees es) (Memory.storeControl offset byte)

namespace Watch

/-- Nothing is told of the memory. -/
def blind (M : Type) [Memory M] : Watch M :=
  have any {α : Type} {a : Access M α} :
      Meets (fun _ => True) a (fun _ _ => True) fun _ _ => True :=
    ⟨fun {_ r _} _ _ => by cases r <;> trivial⟩
  { sees := fun _ _ => True
    read := fun _ _ _ => any
    write := fun _ _ _ => any
    touch := fun _ _ => any
    invalidate := fun _ _ => any
    load := fun _ _ => ⟨fun _ _ => trivial⟩
    store := fun _ _ _ => ⟨fun _ _ => trivial⟩ }

variable {α : Type}

theorem logged (before es : List LogEntry) (e : LogEntry) (a : Access M α) :
    Meets (fun t : Traced M => t.log.toList = before ++ es)
      (do Traced.record e; Traced.onInner a)
      (fun _ t => t.log.toList = before ++ (es ++ [e])) fun _ _ => True := by
  refine .bind (Q := fun _ t => t.log.toList = before ++ (es ++ [e])) ?_ fun _ => .of_ends ?_
  · refine .modify fun t ht => ?_
    rw [Array.toList_push, ht, List.append_assoc]
  · intro t ht
    refine ⟨_, _, Traced.ends_onInner (.intro a t.inner), ?_⟩
    cases ((ExceptT.run a).run t.inner).1 with
    | ok _ => exact ht
    | error _ => trivial

theorem unlogged (entries : List LogEntry) (a : Access M α) :
    Keeps (fun t : Traced M => t.log.toList = entries) (Traced.onInner a) :=
  .onPart fun _ _ _ _ h => h

/-- The log of a traced memory, after what was in it before. -/
def log [Memory M] (before : List LogEntry) : Watch (Traced M) where
  sees es t := t.log.toList = before ++ es
  read es offset len := logged before es (.read offset len) _
  write es offset data := logged before es (.write offset data.size) _
  touch es offset := logged before es (.touch offset) _
  invalidate es offset := logged before es (.invalidate offset) _
  load _ _ := unlogged _ _
  store _ _ _ := unlogged _ _

end Watch

namespace Exchange

variable {α β σ : Type} [Memory M]

/-- Where an owner under watch stands: the settings of its host, the line of each direction that
it expects next, and the accesses that were made. -/
structure Watched (w : Watch M) (c : Config) (core size : Nat) (next : Parity)
    (es : List LogEntry) (x : Exchange M) : Prop where
  config : x.host.config = c
  core : x.owner.core = core
  buffer : x.owner.rxBuffer.size = size
  next : x.owner.next = next
  seen : w.sees es x.host.memory

/-- How a call ends that made `n` exchanges in a direction and the accesses `log`. If it broke
off, it may have gone on to the next line once more. -/
structure Made (w : Watch M) (c : Config) (core size : Nat) (next : Parity)
    (es : List LogEntry) (d : Direction) (n : Nat) (log : List LogEntry) (r : Except Stop α)
    (x : Exchange M) : Prop where
  whole : (∀ f, r ≠ .error (.fault f)) →
    Watched w c core size ((Parity.toggle · d)^[n] next) (es ++ log) x
  broken : ∀ f, r = .error (.fault f) →
    ∃ m, n ≤ m ∧ m ≤ n + 1 ∧ x.owner.next = (Parity.toggle · d)^[m] next

variable {w : Watch M} {c : Config} {core size n : Nat} {next : Parity} {d : Direction}
  {es es' log : List LogEntry}

namespace Made

variable {r : Except Stop α} {x : Exchange M}

theorem of_whole (hr : ∀ f, r ≠ .error (.fault f))
    (hx : Watched w c core size ((Parity.toggle · d)^[n] next) (es ++ log) x) :
    Made w c core size next es d n log r x :=
  ⟨fun _ => hx, fun f hf => absurd hf (hr f)⟩

/-- The call ended before its line was used. -/
theorem of_none (hr : ∀ f, r ≠ .error (.fault f)) (hx : Watched w c core size next es x) :
    Made w c core size next es d 0 [] r x :=
  .of_whole hr (by rw [List.append_nil]; exact hx)

theorem of_fault {f : Fault} {m : Nat} (hle : n ≤ m) (hm : m ≤ n + 1)
    (hx : x.owner.next = (Parity.toggle · d)^[m] next) :
    Made w c core size next es d n log (.error (.fault f) : Except Stop α) x :=
  ⟨fun hr => absurd rfl (hr f), fun _ _ => ⟨m, hle, hm, hx⟩⟩

/-- Only whether it broke off matters of a result. -/
theorem of_faults (h : Made w c core size next es d n log r x) {r' : Except Stop β}
    (hr : ∀ f, r = .error (.fault f) ↔ r' = .error (.fault f)) :
    Made w c core size next es d n log r' x :=
  ⟨fun hr' => h.whole fun f hf => hr' f ((hr f).1 hf), fun f hf => h.broken f ((hr f).2 hf)⟩

/-- What was made before counts as well. -/
theorem after {k : Nat} {before : List LogEntry}
    (h : Made w c core size ((Parity.toggle · d)^[k] next) (es ++ before) d n log r x) :
    Made w c core size next es d (k + n) (before ++ log) r x := by
  rw [Nat.add_comm]
  constructor
  · intro hr
    have hx := h.whole hr
    rw [← Function.iterate_add_apply, List.append_assoc] at hx
    exact hx
  · intro f hf
    obtain ⟨m, hle, hm, hx⟩ := h.broken f hf
    rw [← Function.iterate_add_apply] at hx
    exact ⟨m + k, by omega, by omega, hx⟩

end Made

namespace Watched

section Body

variable {E : Stop → Exchange M → Prop}

/-- An access is seen unless it faults, and the owner goes on. -/
theorem meets_access {a : Access M α}
    (ha : Meets (w.sees es) a (fun _ => w.sees es') fun _ _ => True)
    (hE : ∀ f x, x.owner.next = next → E (.fault f) x) :
    Meets (Watched w c core size next es) (onMemory a)
      (fun _ => Watched w c core size next es') E := by
  refine .of_ends ?_
  intro x hx
  refine ⟨_, _, ends_onMemory (.intro a x.host.memory), ?_⟩
  have hpost := ha.out (.intro a x.host.memory) hx.seen
  cases hr : ((ExceptT.run a).run x.host.memory).1 with
  | ok v =>
    rw [hr] at hpost
    exact ⟨hx.config, hx.core, hx.buffer, hx.next, hpost⟩
  | error f => exact hE f _ hx.next

theorem meets_count (f : Stats → Stats) :
    Meets (Watched w c core size next es) (count f : Step M Unit)
      (fun _ => Watched w c core size next es) E :=
  .modify fun _ hx => ⟨hx.config, hx.core, hx.buffer, hx.next, hx.seen⟩

theorem meets_toggle (d : Direction) :
    Meets (Watched w c core size next es) (toggle d : Step M Unit)
      (fun _ => Watched w c core size (next.toggle d) es) E :=
  .modify fun _ hx =>
    ⟨hx.config, hx.core, hx.buffer, congrArg (Parity.toggle · d) hx.next, hx.seen⟩

theorem meets_fillBuffer (start : Nat) (data : Bytes) :
    Meets (Watched w c core size next es) (fillBuffer start data : Step M Unit)
      (fun _ => Watched w c core size next es) E :=
  .modify fun _ hx =>
    ⟨hx.config, hx.core, (Bytes.size_patch ..).trans hx.buffer, hx.next, hx.seen⟩

end Body

/-! ## The gate -/

theorem keeps_onGate (g : Gate → α × Gate) :
    Keeps (fun h : Host M => h.config = c ∧ w.sees es h.memory) (Host.onGate core g) := by
  have memory {β : Type} {a : Access M β} (ha : Keeps (w.sees es) a) :
      Keeps (fun h : Host M => h.config = c ∧ w.sees es h.memory) (Host.onMemory a) :=
    .onPart fun _ _ _ hend hh => ⟨hh.1, ha.out hend hh.2⟩
  have gate : Keeps (fun h : Host M => h.config = c ∧ w.sees es h.memory) (Host.gate core) :=
    .get_bind fun h _ => (memory (w.load es _)).bind fun _ => .pure _
  have store (g : Gate) :
      Keeps (fun h : Host M => h.config = c ∧ w.sees es h.memory) (Host.setGate core g) :=
    .get_bind fun h _ => (memory (w.store es _ _)).bind fun _ => .modify fun _ hh => hh
  exact gate.bind fun _ => (store _).bind fun _ => .pure _

theorem with_host {x : Exchange M} (hx : Watched w c core size next es x) {h : Host M}
    (hh : h.config = c ∧ w.sees es h.memory) : Watched w c core size next es { x with host := h } :=
  ⟨hh.1, hx.core, hx.buffer, hx.next, hh.2⟩

/-- Whether an owner was let in or not, no line was used. -/
theorem enter {x : Exchange M} (hx : Watched w c core size next es x) (p : SpinPolicy σ) (s : σ) :
    Watched w c core size next es (x.enter p s).2.2 ∧
      ∀ e, (x.enter p s).1 = .error e → e.Outside ∨ ∃ f, e = .fault f := by
  have hhost {f : Gate → (SpinResult × σ) × Gate} {r : Except Fault (SpinResult × σ)}
      {host : Host M} (hr : Access.run (Host.onGate x.owner.core f) x.host = (r, host)) :
      Watched w c core size next es { x with host } :=
    hx.with_host ((keeps_onGate f).out hr ⟨hx.config, hx.seen⟩)
  unfold Exchange.enter
  dsimp only
  split
  · next f host hr => exact ⟨hhost hr, fun e he => .inr ⟨f, (Except.error.inj he).symm⟩⟩
  · next t host hr => exact ⟨hhost hr, fun e he => by cases he⟩
  · next attempts t host hr =>
    exact ⟨hhost hr, fun e he => .inl (Except.error.inj he ▸ .handshakeStuck ..)⟩
  · next t host hr => exact ⟨hhost hr, fun e he => .inl (Except.error.inj he ▸ .endless)⟩

end Watched

theorem Made.leave {r : Except Stop α} {x : Exchange M} (h : Made w c core size next es d n log r x)
    (g : Gate → Unit × Gate) :
    Made w c core size next es d n log r
      (Step.run (onHost (Host.onGate x.owner.core g)) x).2 := by
  refine ⟨fun hr => ?_, h.broken⟩
  have hx := h.whole hr
  exact hx.with_host ((Watched.keeps_onGate g).out (.intro _ x.host) ⟨hx.config, hx.seen⟩)

section Calls

/-- A part of a call ends as its result tells: whether it made an exchange, and what accesses. -/
def Tells (w : Watch M) (c : Config) (core size : Nat) (next : Parity) (es : List LogEntry)
    (d : Direction) (made : Except Stop α → Bool) (log : Except Stop α → List LogEntry)
    (a : Step M α) : Prop :=
  Meets (Watched w c core size next es) a
    (fun v => Made w c core size next es d (made (.ok v)).toNat (log (.ok v)) (.ok v))
    fun e => Made w c core size next es d (made (.error e)).toNat (log (.error e))
      (.error e : Except Stop α)

variable {made : Except Stop α → Bool} {log : Except Stop α → List LogEntry} {a : Step M α}

namespace Tells

theorem out (h : Tells w c core size next es d made log a) {x : Exchange M}
    (hx : Watched w c core size next es x) {r : Except Stop α} {y : Exchange M}
    (hend : Ends a x r y) : Made w c core size next es d (made r).toNat (log r) r y := by
  have hpost := Meets.out h hend hx
  cases r with
  | ok v => exact hpost
  | error e => exact hpost

theorem guarded (h : Tells w c core size next es d made log a) :
    Tells w c core size next es d made log (Exchange.guarded a) := by
  refine .of_ends ?_
  intro x hx
  refine ⟨_, _, .intro _ x, ?_⟩
  have hmade := (h.out hx (.intro a x)).leave fun g => ((), g.leave)
  change Post _ _ ((ExceptT.run a).run x).1 _
  cases hr : ((ExceptT.run a).run x).1 with
  | ok v => rw [hr] at hmade; exact hmade
  | error e => rw [hr] at hmade; exact hmade

end Tells

/-- A call enters and goes on, or ends before its line was used. -/
theorem Watched.entering {x : Exchange M} (hx : Watched w c core size next es x)
    (hrest : Tells w c core size next es d made log a)
    (hout : ∀ e : Stop, e.Outside → made (.error e) = false ∧ log (.error e) = [])
    (hfault : ∀ f, made (.error (.fault f)) = false) (p : SpinPolicy σ) (s : σ) :
    let y := x.entering p s a
    Made w c core size next es d (made y.1).toNat (log y.1) y.1 y.2.2 := by
  obtain ⟨henter, hstop⟩ := hx.enter p s
  unfold Exchange.entering
  generalize x.enter p s = q at henter hstop ⊢
  obtain ⟨_ | _, t, y⟩ := q
  · next e =>
    rcases hstop e rfl with he | ⟨f, rfl⟩
    · obtain ⟨hmade, hlog⟩ := hout e he
      dsimp only
      rw [hmade, hlog]
      exact .of_none (fun f hf => by cases Except.error.inj hf; cases he) henter
    · dsimp only
      rw [hfault]
      exact .of_fault (Nat.le_refl 0) (Nat.zero_le 1) henter.next
  · exact hrest.out henter (.intro a y)

end Calls
end Exchange
end LineExchange
