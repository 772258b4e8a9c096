import LineExchange.Proofs.Exchange.Reconcile
import LineExchange.Proofs.Sequence.Whole

/-!
# LineExchange.Proofs.Exchange.Served

No call breaks off on a memory that serves the cores.

* `Exchange.Gated`: what stores to the gate of the owner's core do not change.
  `Gated.guarded`, `Gated.entering`: so what a critical section brings about, its call does, or the
  call waited in vain.
* `Exchange.receiveWith_whole`: no receive breaks off; transmits do not by `transmitWith_whole`.
* `Exchange.BringsUp.whole`: neither does a bring-up, by induction on its receives.
* `Call.whole_make`: nor does any call that makes exchanges.
-/

namespace LineExchange
namespace Exchange

/-! ## Through the gate -/

section Gate

variable {M α σ : Type} [Memory M] [LawfulMemory M] {P P' : Exchange M → Prop}
  {F : Except Stop α → Prop}

/-- Where `P` holds, the owner's core has a gate, and stores to it do not change that. -/
structure Gated (P : Exchange M → Prop) : Prop where
  inside : ∀ {x}, P x → x.host.workerAt x.owner.core < Memory.size x.host.memory
  store : ∀ {x}, P x → ∀ g, P { x with host := x.host.withGate x.owner.core g }

/-- A part of a call comes to a result of `F` and leaves `P'`. -/
def Brings (F : Except Stop α → Prop) (P P' : Exchange M → Prop) (a : Step M α) : Prop :=
  Meets P a (fun v x => F (.ok v) ∧ P' x) fun e x => F (.error e) ∧ P' x

omit [Memory M] [LawfulMemory M] in
theorem Brings.out {a : Step M α} (h : Brings F P P' a) {x y : Exchange M} {r : Except Stop α}
    (hend : Ends a x r y) (hx : P x) : F r ∧ P' y := by
  have hpost := Meets.out h hend hx
  cases r with
  | ok v => exact hpost
  | error e => exact hpost

omit [Memory M] [LawfulMemory M] in
theorem Brings.of_ends {a : Step M α}
    (h : ∀ x, P x → ∃ r y, Ends a x r y ∧ F r ∧ P' y) : Brings F P P' a := by
  refine Meets.of_ends fun x hx => ?_
  obtain ⟨r, y, hend, hpost⟩ := h x hx
  refine ⟨r, y, hend, ?_⟩
  cases r with
  | ok v => exact hpost
  | error e => exact hpost

theorem Gated.guarded (hP : Gated P') {body : Step M α} (h : Brings F P P' body) :
    Brings F P P' (Exchange.guarded body) := by
  refine .of_ends fun x hx => ?_
  have hend := Ends.intro body x
  obtain ⟨hF, hy⟩ := h.out hend hx
  exact ⟨_, _, ends_guarded hend (hP.inside hy), hF, hP.store hy _⟩

/-- A call waits in vain, or it enters and comes to what the rest of it brings about. -/
theorem Gated.entering (hP : Gated P) {rest : Step M α} (hrest : Brings F P P' rest)
    {x : Exchange M} (hx : P x) (p : SpinPolicy σ) (t : σ) :
    let y := x.entering p t rest
    (∃ e, y.1 = .error e ∧ e.Outside ∧ P y.2.2) ∨ F y.1 ∧ P' y.2.2 := by
  unfold Exchange.entering
  rw [enter_eq (hP.inside hx)]
  obtain ⟨r, t', g⟩ := (x.host.gateOf x.owner.core).enter p t
  have hg := hP.store hx g
  cases r with
  | entered => exact .inr (hrest.out (.intro rest _) hg)
  | stuck attempts => exact .inl ⟨_, rfl, .handshakeStuck .., hg⟩
  | endless => exact .inl ⟨_, rfl, .endless, hg⟩

end Gate

/-! ## On a plain region -/

variable {α σ : Type} {c : Config} {core : Nat}

/-- It did not break off. -/
def Unbroken (r : Except Stop α) : Prop := ∀ f, r ≠ .error (.fault f)

/-- An owner on a plain region that has room for the window of its core. -/
structure OnPlain (c : Config) (core : Nat) (x : Exchange Backing) : Prop where
  config : x.host.config = c
  memory : ∃ r, x.host.memory = .plain r ∧
    ∀ p : Part, c.layout.partAt core p + p.len c.layout ≤ r.size
  core : x.owner.core = core

theorem gated_onPlain : Gated (OnPlain c core) := by
  constructor
  · intro x hx
    obtain ⟨r, hmem, hparts⟩ := hx.memory
    rw [Host.workerAt, hx.config, hx.core, hmem]
    exact Layout.lt_of_line_le (hparts .worker)
  · intro x hx g
    obtain ⟨r, hmem, hparts⟩ := hx.memory
    have hin : c.layout.workerAt core < r.size := Layout.lt_of_line_le (hparts .worker)
    have hstore : Ends (Memory.storeControl (c.layout.workerAt core) g.byte) (Backing.plain r)
        (.ok ()) _ := Backing.ends_access_plain (Region.ends_storeControl g.byte hin)
    refine ⟨hx.config, ⟨⟨r.bytes.put (c.layout.workerAt core) g.byte⟩, ?_, ?_⟩, hx.core⟩
    · rw [← hmem] at hstore
      show Memory.stored (x.host.workerAt x.owner.core) g.byte x.host.memory = _
      rw [Host.workerAt, hx.config, hx.core]
      exact congrArg Prod.snd hstore
    · exact fun p => (hparts p).trans_eq (Bytes.size_put ..).symm

section Body

variable {E : Stop → Exchange Backing → Prop}

theorem meets_plain_read (p : Part) {len : Nat} (hlen : len ≤ p.len c.layout) :
    Meets (OnPlain c core)
      (onMemory (Memory.read (c.layout.partAt core p) len) : Step Backing Bytes)
      (fun _ => OnPlain c core) E := by
  refine .of_ends fun x hx => ?_
  obtain ⟨r, hmem, hparts⟩ := hx.memory
  have hin : c.layout.partAt core p + len ≤ r.size :=
    (Nat.add_le_add_left hlen _).trans (hparts p)
  have hread : Ends (Memory.read (c.layout.partAt core p) len) (Backing.plain r) (.ok _)
      (.plain r) := Backing.ends_access_plain (Region.ends_read hin)
  rw [← hmem] at hread
  exact ⟨_, _, ends_onMemory hread, hx.config, ⟨r, hmem, hparts⟩, hx.core⟩

theorem meets_plain_modify {g : Exchange Backing → Exchange Backing}
    (hhost : ∀ x, (g x).host = x.host) (hcore : ∀ x, (g x).owner.core = x.owner.core) :
    Meets (OnPlain c core) (modify g : Step Backing PUnit) (fun _ => OnPlain c core) E :=
  .modify fun x hx => ⟨(congrArg Host.config (hhost x)).trans hx.config, hhost x ▸ hx.memory,
    (hcore x).trans hx.core⟩

theorem brings_plain_poll (hl : c.layout.Ordered) :
    Brings Unbroken (OnPlain c core) (OnPlain c core) (poll : Step Backing (Option Received)) := by
  have finish {f : Exchange Backing → Received} : Brings Unbroken (OnPlain c core) (OnPlain c core)
      (get >>= fun z => pure (some (f z)) : Step Backing (Option Received)) :=
    .get_bind fun _ _ => .pure fun _ h => ⟨nofun, h⟩
  refine .get_bind fun x hx => ?_
  rw [hx.config, hx.core]
  refine .bind (.map (meets_plain_read (.control .rx x.owner.next.rx) (Nat.le_refl _)) _
    fun _ _ h => h) fun line => .bind (meets_plain_modify (fun _ => rfl) fun _ => rfl) fun _ => ?_
  dsimp only
  split
  · split
    · exact .throw fun _ h => ⟨nofun, h⟩
    · next hfits =>
      have hcap := c.layout.payloadCapacity_eq hl
      have hlen : (c.format.decode line).length - inlineSize ≤ c.layout.overflowSize := by
        unfold rxLimit at hfits
        rw [hx.config] at hfits
        omega
      refine .bind (meets_plain_modify (fun _ => rfl) fun _ => rfl) fun _ => ?_
      split
      · exact .bind (meets_plain_read (.overflow .rx) hlen) fun data =>
          .bind (meets_plain_modify (fun _ => rfl) fun _ => rfl) fun _ => finish
      · exact finish
  · exact .bind (meets_plain_modify (fun _ => rfl) fun _ => rfl) fun _ =>
      .pure fun _ h => ⟨nofun, h⟩

theorem brings_plain_receiveEntered (hl : c.layout.Ordered) :
    Brings Unbroken (OnPlain c core) (OnPlain c core)
      (receiveEntered : Step Backing (Option Received)) := by
  refine Meets.bind (Q := fun _ => OnPlain c core)
    ((gated_onPlain.guarded (brings_plain_poll hl)).conseq (fun _ h => h) (fun _ _ h => h.2)
      fun _ _ h => h) fun r => ?_
  cases r with
  | none => exact .pure fun _ h => ⟨nofun, h⟩
  | some r =>
    exact .bind (meets_plain_modify (fun _ => rfl) fun _ => rfl) fun _ =>
      .pure fun _ h => ⟨nofun, h⟩

end Body

/-! ## On any memory that serves -/

/-- On a memory that serves the cores, no receive breaks off. -/
theorem receiveWith_whole {x : Exchange Backing} (h : x.host.memory.Serves x.host.config)
    (p : SpinPolicy σ) (t : σ) : Unbroken (x.receiveWith p t).1 := by
  cases hcore : x.host.coreError? x.owner.core with
  | some e =>
    unfold receiveWith
    rw [hcore]
    nofun
  | none =>
    have hlt := Host.lt_of_coreError? hcore
    cases hmem : x.host.memory with
    | plain r =>
      rw [hmem] at h
      have hx : OnPlain x.host.config x.owner.core x := ⟨rfl, ⟨r, hmem, h x.owner.core hlt⟩, rfl⟩
      unfold receiveWith
      rw [hcore]
      rcases gated_onPlain.entering (brings_plain_receiveEntered x.host.ordered) hx p t with
        ⟨e, hr, hout, -⟩ | ⟨hwhole, -⟩
      · intro f hf
        cases Except.error.inj (hr.symm.trans hf)
        cases hout
      · exact hwhole
    | device dev =>
      rw [hmem] at h
      obtain ⟨tally, hcounts⟩ := Nic.Sound.exists_tally h hlt
      have hpaced : Paced x.host.config x.owner.core ⟨x.owner.next, tally⟩ x :=
        ⟨⟨rfl, dev, hmem, hcounts⟩, rfl, rfl⟩
      exact (hpaced.receiveWith p t).whole

theorem Drains.whole {p : SpinPolicy Unit} {fuel drained : Nat} {x y : Exchange Backing}
    {rs : List (Except Stop (Option Received))} {r : Except Stop Nat}
    (h : Drains p fuel drained x rs r y) (hx : x.host.memory.Serves x.host.config) :
    Unbroken r := by
  induction h with
  | out drained x => nofun
  | @failed fuel drained x y e h =>
    intro f hf
    cases Except.error.inj hf
    exact receiveWith_whole hx p () f (ends_receive h).1
  | empty h => nofun
  | @received fuel drained x y z packet rs r h _ ih =>
    obtain ⟨-, rfl⟩ := ends_receive h
    refine ih ?_
    rw [(stays_receiveWith x).host.config]
    exact Call.serves_make hx (.receive p ())

theorem ends_invalidateLines_backing {x y : Exchange Backing} {r : Except Stop Unit}
    (h : Ends invalidateLines x r y) : r = .ok () ∧ y = x := by
  have lines : Meets (· = x) (invalidateLines : Step Backing Unit) (fun _ => (· = x)) Never := by
    refine .get_bind fun _ _ => .forM fun offset => .of_ends ?_
    rintro z rfl
    have hnone : Ends (Memory.invalidate offset) z.host.memory (.ok ()) z.host.memory := by
      cases z.host.memory with
      | plain r => exact Backing.ends_access_plain (.pure () r)
      | device d => exact Backing.ends_access_device (Nic.ends_onMemory (.pure () d.memory))
    exact ⟨_, _, ends_onMemory hnone, rfl⟩
  have hpost := lines.out h rfl
  cases r with
  | ok v => exact ⟨rfl, hpost⟩
  | error e => exact hpost.elim

theorem BringsUp.whole {p : SpinPolicy Unit} {fuel : Nat} {x y : Exchange Backing}
    {rs : List (Except Stop (Option Received))} {r : Except Stop Nat}
    (h : BringsUp p fuel x rs r y) (hx : x.host.memory.Serves x.host.config) : Unbroken r := by
  cases h with
  | unmapped => nofun
  | failed h => cases (ends_invalidateLines_backing h).1
  | drained h hdrain =>
    obtain ⟨-, rfl⟩ := ends_invalidateLines_backing h
    exact hdrain.whole hx

theorem Unbroken.broke {r : Except Stop α} (h : Unbroken r) : broke r = false := by
  cases r with
  | ok v => rfl
  | error e =>
    cases e with
    | fault f => exact absurd rfl (h f)
    | _ => rfl

end Exchange

/-- On a memory that serves the cores, no call that makes exchanges breaks off. -/
theorem Call.whole_make {x : Exchange Backing} (hx : x.host.memory.Serves x.host.config)
    (call : Call) (d : Direction) : call.breaks x d = false := by
  cases call with
  | receive p t =>
    cases d with
    | rx => exact (Exchange.receiveWith_whole hx p t).broke
    | tx => rfl
  | transmit p t desc =>
    cases d with
    | rx => rfl
    | tx =>
      have hwhole : Exchange.Unbroken (x.transmitWith p t desc).1 :=
        Exchange.transmitWith_whole hx p t desc
      exact hwhole.broke
  | bringUp p fuel =>
    cases d with
    | rx => exact ((Exchange.bringsUp p fuel x).whole hx).broke
    | tx => rfl
  | prepare kind => cases d <;> rfl
  | resync next => cases d <;> rfl

end LineExchange
