import LineExchange.Proofs.Exchange.Statistics
import LineExchange.Proofs.Ownership.Calls

/-!
# LineExchange.Proofs.Exchange.Reconcile

The statistics of an owner and the counters of its gate agree. They are kept in two places, and
nothing but the results of the calls connects them.

* `Call.entries_make`, `Exchange.entries_after`: the gate counts one entry for each result that
  tells an exchange.
* `Call.errors_make`, `Exchange.errors_after`: which errors are returned, also by bring-ups.
* `Call.coded_make`, `Exchange.coded_after`: the kind of what was received tells whether the code
  of its line was known.
* `Exchange.Reconciled`: what statistics, entries and errors have to do with each other.
* `Exchange.reconciled_after`: so it is after every run of an owner that is alone at its core.
-/

namespace LineExchange

theorem countP_split {α : Type} {p q r : α → Bool} {l : List α}
    (h : ∀ a ∈ l, (p a).toNat = (q a).toNat + (r a).toNat) :
    l.countP p = l.countP q + l.countP r := by
  induction l with
  | nil => rfl
  | cons a l ih =>
    have ha := h a (.head l)
    have hl := ih fun b hb => h b (.tail a hb)
    simp only [countP_cons_toNat]
    omega

theorem countP_singleton_toNat {α : Type} (q : α → Bool) (a : α) : [a].countP q = (q a).toNat := by
  rw [countP_cons_toNat, List.countP_nil, Nat.zero_add]

namespace ExchangeError

def isOverflow : ExchangeError → Bool
  | overflowExceeded .. => true
  | _ => false

def isTooLarge : ExchangeError → Bool
  | payloadTooLarge .. => true
  | _ => false

def isUnsupported : ExchangeError → Bool
  | unsupportedTransmit _ => true
  | _ => false

end ExchangeError

open Exchange
open ExchangeError (isOverflow isTooLarge isUnsupported)

instance : Add Stats where
  add s g := ⟨s.received + g.received, s.emptyPolls + g.emptyPolls, s.errorTagged + g.errorTagged,
    s.transmitted + g.transmitted, s.aborted + g.aborted⟩

theorem Stats.after_eq_add (s : Stats) (rs : List (Except Stop (Option Received)))
    (ts : List (Except Stop Unit)) : s.after rs ts = s + ({} : Stats).after rs ts := by
  show _ = (⟨_, _, _, _, _⟩ : Stats)
  simp only [after, Nat.zero_add]

namespace Exchange

variable {M σ : Type} [Memory M]

/-! ## Entries -/

/-- The entries that a gate has counted went up by this. -/
structure Entered (core n : Nat) (h h' : Host M) : Prop where
  counters : h'.counters.size = h.counters.size
  entries : (h'.countersOf core).entries = (h.countersOf core).entries + n

omit [Memory M] in
theorem Entered.trans {core n k : Nat} {h h' h'' : Host M} (h₁ : Entered core n h h')
    (h₂ : Entered core k h' h'') : Entered core (n + k) h h'' where
  counters := h₂.counters.trans h₁.counters
  entries := by rw [h₂.entries, h₁.entries, Nat.add_assoc]

theorem entered_of_visits {p : SpinPolicy σ} {core n : Nat} {h h' : Host M}
    (v : Visits p core n h h') : Entered core n h h' := ⟨v.counters_size, v.entries⟩

theorem broke_error {α β : Type} (e : Stop) :
    broke (.error e : Except Stop α) = broke (.error e : Except Stop β) := by
  cases e <;> rfl

variable [LawfulMemory M] {x y : Exchange M}

section Calls

variable (hcounters : x.host.counters.size = x.host.config.numCores)
include hcounters

theorem entered_receiveWith (p : SpinPolicy σ) (t : σ) (h : broke (x.receiveWith p t).1 = false) :
    Entered x.owner.core (polled (x.receiveWith p t).1).toNat x.host
      (x.receiveWith p t).2.2.host := by
  rw [polled_receiveWith p t x h]
  exact entered_of_visits (passes_receive hcounters).1.visits

theorem entered_transmitWith (p : SpinPolicy σ) (t : σ) (d : Descriptor)
    (h : broke (x.transmitWith p t d).1 = false) :
    Entered x.owner.core (rang (x.transmitWith p t d).1).toNat x.host
      (x.transmitWith p t d).2.2.host := by
  rw [rang_transmitWith p t x d h]
  exact entered_of_visits (passes_transmit hcounters d).visits

/-- A drain enters once for each of its receives that tells an exchange. -/
theorem Drains.entered {p : SpinPolicy Unit} {fuel drained : Nat}
    {rs : List (Except Stop (Option Received))} {r : Except Stop Nat}
    (h : Drains p fuel drained x rs r y) (hr : broke r = false) :
    Entered x.owner.core (rs.countP polled) x.host y.host := by
  have one {x y : Exchange M} {r : Except Stop (Option Received)}
      (hcounters : x.host.counters.size = x.host.config.numCores) (h : Ends (receive p) x r y)
      (hr : broke r = false) : Entered x.owner.core (polled r).toNat x.host y.host := by
    obtain ⟨rfl, rfl⟩ := ends_receive h
    exact entered_receiveWith hcounters p () hr
  induction h with
  | out drained x => exact ⟨rfl, rfl⟩
  | @failed fuel drained x y e h =>
    rw [countP_singleton_toNat]
    exact one hcounters h ((broke_error e).trans hr)
  | empty h => exact one hcounters h rfl
  | @received fuel drained x y z packet rs r h _ ih =>
    have hone := one hcounters h rfl
    obtain ⟨-, hz⟩ := ends_receive h
    have hstays : x.Stays y := hz ▸ stays_receiveWith x
    have hrest := ih (by rw [hone.counters, hcounters, hstays.host.config]) hr
    rw [hstays.core] at hrest
    rw [countP_cons_toNat, Nat.add_comm]
    exact hone.trans hrest

theorem BringsUp.entered {p : SpinPolicy Unit} {fuel : Nat}
    {rs : List (Except Stop (Option Received))} {r : Except Stop Nat}
    (h : BringsUp p fuel x rs r y) (hr : broke r = false) :
    Entered x.owner.core (rs.countP polled) x.host y.host := by
  cases h with
  | unmapped => exact ⟨rfl, rfl⟩
  | failed h =>
    obtain ⟨f, rfl⟩ := (ends_invalidateLines_owner h).2 _ rfl
    cases hr
  | drained h hdrain =>
    have hz := (keeps_invalidateLines x.host.ordered).out h (.refl x)
    have hrest := hdrain.entered (by rw [hz.counters, hcounters, hz.config]) hr
    rw [hz.core] at hrest
    rw [← Nat.zero_add (rs.countP polled)]
    exact Entered.trans ⟨by rw [hz.counters], by rw [Host.countersOf, hz.counters]; rfl⟩ hrest

end Calls

end Exchange

theorem Call.entries_make {M : Type} [Memory M] [LawfulMemory M] {x : Exchange M}
    (hcounters : x.host.counters.size = x.host.config.numCores) (call : Call)
    (hwhole : ∀ d, call.breaks x d = false) :
    Entered x.owner.core ((call.receives x).countP polled + (call.transmits x).countP rang) x.host
      (call.make x).2.host := by
  cases call with
  | receive p t =>
    have hentered := entered_receiveWith hcounters p t (hwhole .rx)
    rwa [← countP_singleton_toNat polled] at hentered
  | transmit p t d =>
    have hentered := entered_transmitWith hcounters p t d (hwhole .tx)
    rwa [← countP_singleton_toNat rang, ← Nat.zero_add (List.countP ..)] at hentered
  | bringUp p fuel => exact (bringsUp p fuel x).entered hcounters (hwhole .rx)
  | prepare kind =>
    rw [Call.make_prepare]
    exact ⟨rfl, rfl⟩
  | resync next =>
    rw [make_resync]
    obtain ⟨-, hrun⟩ | ⟨e, -, hrun⟩ := run_resync next x
    · rw [hrun]
      exact ⟨rfl, rfl⟩
    · rw [hrun]
      exact ⟨rfl, rfl⟩

/-! ## Errors -/

namespace Exchange

variable {M σ α : Type} [Memory M]

/-- What a receive can come to. -/
inductive ReceiveEnd : Except Stop (Option Received) → Prop where
  | got (r : Option Received) : ReceiveEnd (.ok r)
  | overflow (len capacity : Nat) : ReceiveEnd (.error (.refused (.overflowExceeded len capacity)))
  | stuck (core attempts : Nat) : ReceiveEnd (.error (.refused (.handshakeStuck core attempts)))
  | unmapped (core cores : Nat) : ReceiveEnd (.error (.refused (.invalidCore core cores)))
  | fault (f : Fault) : ReceiveEnd (.error (.fault f))
  | endless : ReceiveEnd (.error .endless)

theorem receiveEnd (p : SpinPolicy σ) (t : σ) (x : Exchange M) :
    ReceiveEnd (x.receiveWith p t).1 := by
  unfold receiveWith
  split
  · next e he =>
    cases eq_invalidCore he
    exact .unmapped ..
  · rcases entering_cases p t receiveEntered x with ⟨e, -, hstop, hr, -⟩ | ⟨-, z, -, hend⟩
    · rw [hr]
      cases hstop with
      | stuck => exact .stuck ..
      | endless => exact .endless
      | fault f => exact .fault f
    · have hpost := meets_receiveEntered_stats.out hend rfl
      revert hpost
      generalize (x.entering p t receiveEntered).1 = r
      intro hpost
      cases r with
      | ok v => exact .got v
      | error e =>
        cases hpost.1 with
        | overflow => exact .overflow ..
        | fault f => exact .fault f

/-- The error that comes with a result, if one does. -/
def errorOf : Except Stop α → List ExchangeError
  | .error (.refused e) => [e]
  | _ => []

/-- These errors are returned where receives and transmits come to these results. -/
structure ErrorsOf (rs : List (Except Stop (Option Received))) (ts : List (Except Stop Unit))
    (es : List ExchangeError) : Prop where
  overflow : es.countP isOverflow = rs.countP gotTooMuch
  tooLarge : es.countP isTooLarge = ts.countP stagedTooMuch
  unsupported : es.countP isUnsupported = ts.countP unsendable

theorem ErrorsOf.append {rs rs' : List (Except Stop (Option Received))}
    {ts ts' : List (Except Stop Unit)} {es es' : List ExchangeError} (h : ErrorsOf rs ts es)
    (h' : ErrorsOf rs' ts' es') :
    ErrorsOf (rs ++ rs') (ts ++ ts') (es ++ es') where
  overflow := by rw [List.countP_append, List.countP_append, h.overflow, h'.overflow]
  tooLarge := by rw [List.countP_append, List.countP_append, h.tooLarge, h'.tooLarge]
  unsupported := by rw [List.countP_append, List.countP_append, h.unsupported, h'.unsupported]

theorem ReceiveEnd.errorsOf {r : Except Stop (Option Received)} (h : ReceiveEnd r) :
    ErrorsOf [r] [] (errorOf r) := by
  cases h with
  | got r => cases r <;> exact ⟨rfl, rfl, rfl⟩
  | _ => exact ⟨rfl, rfl, rfl⟩

theorem TransmitEnd.errorsOf {r : Except Stop Unit} (h : TransmitEnd r) :
    ErrorsOf [] [r] (errorOf r) := by
  cases h <;> exact ⟨rfl, rfl, rfl⟩

/-- A drain returns the error of its last receive, if that failed. -/
theorem Drains.errorsOf {p : SpinPolicy Unit} {fuel drained : Nat} {x y : Exchange M}
    {rs : List (Except Stop (Option Received))} {r : Except Stop Nat}
    (h : Drains p fuel drained x rs r y) : ErrorsOf rs [] (errorOf r) := by
  induction h with
  | out drained x => exact ⟨rfl, rfl, rfl⟩
  | @failed fuel drained x y e h =>
    have hend := receiveEnd p () x
    rw [(ends_receive h).1] at hend
    have herrors := hend.errorsOf
    cases e <;> exact herrors
  | empty h => exact ⟨rfl, rfl, rfl⟩
  | @received fuel drained x y z packet rs r h _ ih =>
    have hone : ErrorsOf [.ok (some packet)] [] [] := ⟨rfl, rfl, rfl⟩
    exact hone.append ih

theorem BringsUp.errorsOf {p : SpinPolicy Unit} {fuel : Nat} {x y : Exchange M}
    {rs : List (Except Stop (Option Received))} {r : Except Stop Nat}
    (h : BringsUp p fuel x rs r y) : ErrorsOf rs [] (errorOf r) := by
  cases h with
  | unmapped hcore =>
    cases eq_invalidCore hcore
    exact ⟨rfl, rfl, rfl⟩
  | failed h =>
    obtain ⟨f, rfl⟩ := (ends_invalidateLines_owner h).2 _ rfl
    exact ⟨rfl, rfl, rfl⟩
  | drained _ hdrain => exact hdrain.errorsOf

end Exchange

/-- The error that an outcome is, if it is one. -/
def Outcome.errors : Outcome → List ExchangeError
  | refused e => [e]
  | _ => []

theorem Outcome.errors_ofCall {α : Type} {say : α → Outcome} (hsay : ∀ v, (say v).errors = [])
    (r : Except Stop α) : (ofCall say r).errors = errorOf r := by
  rcases r with (_ | _ | _) | v
  · rfl
  · rfl
  · rfl
  · exact hsay v

namespace Call

variable {M : Type} [Memory M]

/-- The error that a call returns, if it returns one. -/
def errors (x : Exchange M) (call : Call) : List ExchangeError := (call.make x).1.errors

theorem errors_make (x : Exchange M) (call : Call) :
    ErrorsOf (call.receives x) (call.transmits x) (call.errors x) := by
  cases call with
  | receive p t =>
    have herrors : (Call.receive p t).errors x = errorOf (x.receiveWith p t).1 :=
      Outcome.errors_ofCall (fun _ => rfl) _
    rw [herrors]
    exact (receiveEnd p t x).errorsOf
  | transmit p t d =>
    have herrors : (Call.transmit p t d).errors x = errorOf (x.transmitWith p t d).1 :=
      Outcome.errors_ofCall (fun _ => rfl) _
    rw [herrors]
    exact (transmitEnd p t x d).errorsOf
  | bringUp p fuel =>
    have herrors : (Call.bringUp p fuel).errors x =
        errorOf (Step.run (Exchange.bringUp p fuel) x).1 := Outcome.errors_ofCall (fun _ => rfl) _
    rw [herrors]
    exact (bringsUp p fuel x).errorsOf
  | prepare kind =>
    have herrors : (Call.prepare kind).errors x =
        errorOf (Step.run (Exchange.prepare kind) x).1 := Outcome.errors_ofCall (fun _ => rfl) _
    have hrun : Step.run (Exchange.prepare kind) x = _ := ends_prepare x kind
    rw [herrors, hrun]
    split <;> exact ⟨rfl, rfl, rfl⟩
  | resync next =>
    have herrors : (Call.resync next).errors x =
        errorOf (Step.run (Exchange.resync next) x).1 := Outcome.errors_ofCall (fun _ => rfl) _
    rw [herrors]
    obtain ⟨-, hrun⟩ | ⟨e, he, hrun⟩ := run_resync next x
    · rw [hrun]
      exact ⟨rfl, rfl, rfl⟩
    · cases eq_invalidCore he
      rw [hrun]
      exact ⟨rfl, rfl, rfl⟩

end Call

/-! ## Codes -/

namespace Format

variable {f : Format}

/-- The line has one of the codes that are known. -/
def KnowsCode (f : Format) (l : Line) : Prop :=
  f.ty.get l.bytes = f.tags.bypass.toNat ∨ f.ty.get l.bytes = f.tags.call.toNat ∨
    f.ty.get l.bytes = f.tags.reply.toNat

theorem kind_decode (l : Line) : (f.decode l).transaction.kind = .error ↔ ¬f.KnowsCode l := by
  show (f.transactionOf l).kind = .error ↔ _
  unfold transactionOf KnowsCode
  dsimp only
  split
  · next h => simp [h, bypassOf, Transaction.kind]
  · next hbypass =>
    split
    · next h => simp [h, Transaction.kind]
    · next hcall =>
      split
      · next h => simp [h, Transaction.kind]
      · next hreply => simp [hbypass, hcall, hreply, Transaction.kind]

end Format

namespace Exchange

variable {M σ : Type} [Memory M]

/-- What was received was read from a line. -/
def ReadFrom (f : Format) (r : Received) (l : Line) : Prop :=
  r.transaction = (f.decode l).transaction

theorem meets_poll_reads (f : Format) : Meets (fun x : Exchange M => x.host.config.format = f)
    (poll : Step M (Option Received)) (fun r _ => ∀ got, r = some got → ∃ l, ReadFrom f got l)
    fun _ _ => True := by
  refine .get_bind fun x hx => .bind (.any _) fun line => .bind (.any _) fun _ => ?_
  rw [hx]
  have finish {g : Exchange M → Received}
      (hg : ∀ y, (g y).transaction = (f.decode line).transaction) :
      Meets (fun _ => True) (get >>= fun y => pure (some (g y)) : Step M (Option Received))
        (fun r _ => ∀ got, r = some got → ∃ l, ReadFrom f got l) fun _ _ => True := by
    refine .get_bind fun y _ => .pure fun _ _ got hgot => ⟨line, ?_⟩
    exact Option.some.inj hgot ▸ hg y
  dsimp only
  split
  · split
    · exact .throw fun _ _ => trivial
    · refine .bind (.any _) fun _ => ?_
      split
      · exact .bind (.any _) fun _ => .bind (.any _) fun _ => finish fun _ => rfl
      · exact finish fun _ => rfl
  · exact .bind (.any _) fun _ => .pure fun _ _ => nofun

theorem meets_receiveEntered_reads (f : Format) :
    Meets (fun x : Exchange M => x.host.config.format = f)
      (receiveEntered : Step M (Option Received))
      (fun r _ => ∀ got, r = some got → ∃ l, ReadFrom f got l) fun _ _ => True := by
  refine (meets_guarded_owner (Q := fun r _ => ∀ got, r = some got → ∃ l, ReadFrom f got l)
    (E := fun _ _ => True) (meets_poll_reads f)).bind fun r => ?_
  cases r with
  | none => exact .pure fun _ h => h
  | some r => exact .bind (.modify fun _ h => h) fun _ => .pure fun _ h => h

/-- What a receive returns was read from a line. -/
theorem receiveWith_reads (p : SpinPolicy σ) (t : σ) (x : Exchange M) {got : Received}
    (h : (x.receiveWith p t).1 = .ok (some got)) : ∃ l, ReadFrom x.host.config.format got l := by
  revert h
  unfold receiveWith
  split
  · exact nofun
  · unfold entering
    have hstays := stays_enter (p := p) (s := t) x
    generalize x.enter p t = q at hstays ⊢
    obtain ⟨r, t', z⟩ := q
    cases r with
    | error e => exact nofun
    | ok v =>
      intro h
      have hz : z.host.config.format = x.host.config.format :=
        congrArg Config.format hstays.host.config
      have hpost := (meets_receiveEntered_reads x.host.config.format).out (.intro _ z) hz
      change ((ExceptT.run receiveEntered).run z).1 = .ok (some got) at h
      rw [h] at hpost
      exact hpost got rfl

/-- What was received, if something was. -/
def gotOf : Except Stop (Option Received) → Option Received
  | .ok r => r
  | .error _ => none

/-- What was received was read from a line, and its kind tells whether the code was known. -/
def Coded (f : Format) (got : Received) : Prop :=
  ∃ l, ReadFrom f got l ∧ (got.transaction.kind = .error ↔ ¬f.KnowsCode l)

theorem ReadFrom.coded {f : Format} {got : Received} {l : Line} (h : ReadFrom f got l) :
    Coded f got := ⟨l, h, h ▸ f.kind_decode l⟩

/-- Whatever was received has been read from a line. -/
def AllCoded (f : Format) (rs : List (Except Stop (Option Received))) : Prop :=
  ∀ got ∈ rs.filterMap gotOf, Coded f got

theorem coded_receive (p : SpinPolicy σ) (t : σ) (x : Exchange M) :
    AllCoded x.host.config.format [(x.receiveWith p t).1] := by
  intro got hgot
  have hr : (x.receiveWith p t).1 = .ok (some got) := by
    generalize (x.receiveWith p t).1 = r at hgot ⊢
    rcases r with e | _ | r
    · cases hgot
    · cases hgot
    · rw [List.mem_singleton.1 hgot]
  obtain ⟨l, hl⟩ := receiveWith_reads p t x hr
  exact hl.coded

theorem AllCoded.append {f : Format} {rs rs' : List (Except Stop (Option Received))}
    (h : AllCoded f rs) (h' : AllCoded f rs') : AllCoded f (rs ++ rs') := by
  intro got hgot
  rw [List.filterMap_append] at hgot
  exact (List.mem_append.1 hgot).elim (h got) (h' got)

theorem Drains.coded {p : SpinPolicy Unit} {fuel drained : Nat} {x y : Exchange M}
    {rs : List (Except Stop (Option Received))} {r : Except Stop Nat}
    (h : Drains p fuel drained x rs r y) : AllCoded x.host.config.format rs := by
  have one {x y : Exchange M} {r : Except Stop (Option Received)} (h : Ends (receive p) x r y) :
      AllCoded x.host.config.format [r] ∧ y.host.config = x.host.config := by
    obtain ⟨rfl, rfl⟩ := ends_receive h
    exact ⟨coded_receive p () x, (stays_receiveWith x).host.config⟩
  induction h with
  | out drained x => exact nofun
  | failed h => exact (one h).1
  | empty h => exact (one h).1
  | received h _ ih =>
    obtain ⟨hone, hconfig⟩ := one h
    rw [hconfig] at ih
    exact hone.append ih

theorem BringsUp.coded {p : SpinPolicy Unit} {fuel : Nat} {x y : Exchange M}
    {rs : List (Except Stop (Option Received))} {r : Except Stop Nat}
    (h : BringsUp p fuel x rs r y) : AllCoded x.host.config.format rs := by
  cases h with
  | unmapped => exact nofun
  | failed => exact nofun
  | drained h hdrain =>
    have hz := (keeps_invalidateLines x.host.ordered).out h (.refl x)
    exact hz.config ▸ hdrain.coded

end Exchange

theorem Call.coded_make {M : Type} [Memory M] (x : Exchange M) (call : Call) :
    AllCoded x.host.config.format (call.receives x) := by
  cases call with
  | receive p t => exact coded_receive p t x
  | bringUp p fuel => exact (bringsUp p fuel x).coded
  | _ => exact nofun

/-! ## Runs -/

namespace Exchange

variable {M : Type} [Memory M] {x : Exchange M}

/-- The errors that the calls of a run return. -/
def errors : Exchange M → List (Turn M) → List ExchangeError
  | _, [] => []
  | x, .call c :: turns => c.errors x ++ errors (c.make x).2 turns
  | x, t :: turns => errors (t.take x) turns

/-- What was received in a run, also by its bring-ups. -/
def got (x : Exchange M) (turns : List (Turn M)) : List Received :=
  (receives x turns).filterMap gotOf

/-- Others leave the gate of the owner's core alone. -/
def Alone : Exchange M → List (Turn M) → Prop
  | _, [] => True
  | x, .call c :: turns => Alone (c.make x).2 turns
  | x, .others memory counters claimed :: turns =>
    counters.size = x.host.counters.size ∧
      counters.getD x.owner.core {} = x.host.countersOf x.owner.core ∧
      Alone ((Turn.others memory counters claimed).take x) turns

theorem alone_cons {t : Turn M} {turns : List (Turn M)} :
    Alone x (t :: turns) ↔ Alone x [t] ∧ Alone (t.take x) turns := by
  cases t with
  | call c => exact ⟨fun h => ⟨trivial, h⟩, fun h => h.2⟩
  | others memory counters claimed => simp only [Alone, and_true, and_assoc]

theorem errors_after (x : Exchange M) (turns : List (Turn M)) :
    ErrorsOf (receives x turns) (transmits x turns) (errors x turns) := by
  induction turns generalizing x with
  | nil => exact ⟨rfl, rfl, rfl⟩
  | cons t turns ih =>
    cases t with
    | call c => exact (c.errors_make x).append (ih _)
    | others memory counters claimed => exact ih _

theorem coded_after (x : Exchange M) (turns : List (Turn M)) :
    AllCoded x.host.config.format (receives x turns) := by
  induction turns generalizing x with
  | nil => exact nofun
  | cons t turns ih =>
    cases t with
    | call c =>
      have hrest := ih (c.make x).2
      rw [(stays_make x c).host.config] at hrest
      exact (c.coded_make x).append hrest
    | others memory counters claimed => exact ih _

/-- The gate counts one entry for each result that tells an exchange. -/
theorem entries_after [LawfulMemory M] (hcounters : x.host.counters.size = x.host.config.numCores)
    (turns : List (Turn M)) (halone : Alone x turns) (hwhole : ∀ d, broken d x turns = 0) :
    Entered x.owner.core ((receives x turns).countP polled + (transmits x turns).countP rang) x.host
      (after x turns).host := by
  induction turns generalizing x with
  | nil => exact ⟨rfl, rfl⟩
  | cons t turns ih =>
    have hrest (d : Direction) : broken d (t.take x) turns = 0 := by
      have := hwhole d
      unfold broken at this
      omega
    cases t with
    | call c =>
      have hbreaks (d : Direction) : c.breaks x d = false := by
        have := hwhole d
        unfold broken at this
        exact Bool.toNat_eq_zero.1 (Nat.eq_zero_of_add_eq_zero_right this)
      have hstays := stays_make x c
      have hone := c.entries_make hcounters hbreaks
      have hthen := ih (x := (c.make x).2)
        (by rw [hone.counters, hcounters, hstays.host.config]) halone hrest
      rw [hstays.core] at hthen
      have hboth := hone.trans hthen
      rw [receives, transmits, List.countP_append, List.countP_append]
      rwa [Nat.add_add_add_comm] at hboth
    | others memory counters claimed =>
      obtain ⟨hsize, hsame, halone⟩ := halone
      have hthen := ih (x := (Turn.others memory counters claimed).take x)
        (hsize.trans hcounters) halone hrest
      refine ⟨hthen.counters.trans hsize, hthen.entries.trans ?_⟩
      exact congrArg (fun c : Counters => c.entries + _) hsame

/-- What an owner has counted on the way from `x` to `y`, where its calls received `got`, sent so
many transactions and returned the errors `es`. -/
structure Reconciled (x y : Exchange M) (got : List Received) (sent : Nat)
    (es : List ExchangeError) (g : Stats) : Prop where
  stats : y.owner.stats = x.owner.stats + g
  /-- Each entry of the gate is one of these. -/
  entries : (y.host.countersOf x.owner.core).entries = (x.host.countersOf x.owner.core).entries +
    (g.received + g.emptyPolls + g.transmitted + es.countP isOverflow + es.countP isUnsupported)
  transmitted : g.transmitted = sent
  aborted : g.aborted = es.countP isTooLarge + es.countP isUnsupported
  received : g.received = got.length
  errorTagged : g.errorTagged = got.countP (·.transaction.kind = .error)
  coded : ∀ r ∈ got, Coded x.host.config.format r
  errorTagged_le : g.errorTagged ≤ g.received

/-- What the results of a run add to the statistics. -/
def growth (x : Exchange M) (turns : List (Turn M)) : Stats :=
  ({} : Stats).after (receives x turns) (transmits x turns)

omit [Memory M] in
theorem countP_polled (rs : List (Except Stop (Option Received))) :
    rs.countP polled = rs.countP gotSome + rs.countP gotNone + rs.countP gotTooMuch := by
  have hrest : rs.countP (fun r => gotNone r || gotTooMuch r) =
      rs.countP gotNone + rs.countP gotTooMuch := countP_split fun r _ => by
    rcases r with (e | _ | _) | _ | _ <;> first | rfl | cases e <;> rfl
  rw [Nat.add_assoc, ← hrest]
  refine countP_split fun r _ => ?_
  rcases r with (e | _ | _) | _ | _ <;> first | rfl | cases e <;> rfl

omit [Memory M] in
theorem countP_rang (ts : List (Except Stop Unit)) :
    ts.countP rang = ts.countP wentOut + ts.countP unsendable := by
  refine countP_split fun r _ => ?_
  rcases r with (e | _ | _) | _ <;> first | rfl | cases e <;> rfl

omit [Memory M] in
theorem length_got (rs : List (Except Stop (Option Received))) :
    (rs.filterMap gotOf).length = rs.countP gotSome ∧
      (rs.filterMap gotOf).countP (·.transaction.kind = .error) = rs.countP gotUnknown := by
  constructor
  · rw [List.length_filterMap_eq_countP]
    refine List.countP_congr fun r _ => ?_
    rcases r with _ | _ | _ <;> rfl
  · rw [List.countP_filterMap]
    refine List.countP_congr fun r _ => ?_
    rcases r with _ | _ | _ <;> rfl

/-- **The statistics reconcile with the gate.** On any memory and under any policies, for every
run of an owner whose gate nobody else uses and none of whose calls breaks off. -/
theorem reconciled_after [LawfulMemory M]
    (hcounters : x.host.counters.size = x.host.config.numCores) {turns : List (Turn M)}
    (halone : Alone x turns) (hwhole : ∀ d, broken d x turns = 0) :
    Reconciled x (after x turns) (got x turns) ((transmits x turns).countP wentOut)
      (errors x turns) (growth x turns) := by
  have hentered := (entries_after hcounters turns halone hwhole).entries
  have herrors := errors_after x turns
  obtain ⟨hlength, hunknown⟩ := length_got (receives x turns)
  constructor
  case stats => exact (stats_after x turns).trans (Stats.after_eq_add ..)
  case entries =>
    rw [hentered, countP_polled, countP_rang, herrors.overflow, herrors.unsupported]
    simp only [growth, Stats.after]
    omega
  case transmitted => exact Nat.zero_add _
  case aborted =>
    rw [herrors.tooLarge, herrors.unsupported]
    exact Nat.zero_add _
  case received => exact (Nat.zero_add _).trans hlength.symm
  case errorTagged => exact (Nat.zero_add _).trans hunknown.symm
  case coded => exact coded_after x turns
  case errorTagged_le =>
    show 0 + _ ≤ 0 + _
    rw [Nat.zero_add, Nat.zero_add, ← hlength, ← hunknown]
    exact List.countP_le_length

end Exchange

end LineExchange
