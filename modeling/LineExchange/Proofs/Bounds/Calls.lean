import LineExchange.Proofs.Bounds.Engine

/-!
# LineExchange.Proofs.Bounds.Calls

Whole calls on a mapped core, behind the fence and without it. One lemma for each part of a call,
in the order of the definitions: first what `receive` is made of, then `bringUp`, `resync` and
`transmit`.
-/

namespace LineExchange

namespace Fenced

open Exchange (Step)

variable {M α σ : Type} [Memory M] [LawfulMemory M] {stray : Stop} {c : Config} {core n size : Nat}

section Mapped

variable (h : Placed c core n) {x : Exchange M} (hx : At c core n size x)

include h hx in
omit [LawfulMemory M] in
theorem coreError?_eq : x.host.coreError? x.owner.core = none := by
  rw [Host.coreError?, hx.config, hx.core, if_pos h.lt_numCores]

include h hx in
omit [LawfulMemory M] in
theorem locate_eq (stuck rest : Exchange M → α) : locate stuck rest x = rest x := by
  refine if_pos ?_
  rw [hx.config, hx.core]
  exact h.base_le

include h in
theorem agrees_receiveEntered :
    Agrees (At c core n size) (receiveEntered stray : Step M (Option Received))
      Exchange.receiveEntered := by
  refine (agrees_guarded h (agrees_poll h)).bind fun r => ?_
  cases r with
  | none => exact .refl (.pure _)
  | some r => exact .refl ((keeps_count _).bind fun _ => .pure _)

variable (stray) in
include h hx in
theorem same_receiveWith (p : SpinPolicy σ) (s : σ) :
    Same c core n size (receiveWith stray p s x) (x.receiveWith p s) := by
  unfold receiveWith Exchange.receiveWith
  rw [coreError?_eq h hx]
  dsimp only
  rw [locate_eq h hx]
  exact same_entering h (agrees_receiveEntered h) hx p s

include h in
theorem agrees_receive (p : SpinPolicy Unit) :
    Agrees (At c core n size) (receive stray p : Step M (Option Received)) (Exchange.receive p) := by
  constructor
  · intro x hx
    exact congrArg (fun q : Except Stop (Option Received) × Unit × Exchange M => (q.1, q.2.2))
      (same_receiveWith stray h hx p ()).1
  · refine ⟨fun {x r y} hend hx => ?_⟩
    obtain ⟨-, rfl⟩ := hend.unique (Ends.intro (Exchange.receive p) x)
    exact (same_receiveWith stray h hx p ()).2

include h in
theorem agrees_drain (p : SpinPolicy Unit) (fuel drained : Nat) :
    Agrees (At c core n size) (drain stray p fuel drained : Step M Nat)
      (Exchange.drain p fuel drained) := by
  induction fuel generalizing drained with
  | zero => exact .refl (.throw _)
  | succ fuel ih =>
    refine (agrees_receive h p).bind fun r => ?_
    cases r with
    | none => exact .refl (.pure _)
    | some r => exact ih (drained + 1)

include h in
/-- Every line that is invalidated lies in a part of the window. -/
theorem agrees_invalidateLines :
    Agrees (At c core n size) (invalidateLines stray : Step M Unit) Exchange.invalidateLines := by
  refine .get_bind ?_
  intro x hx
  rw [hx.config, hx.core]
  refine .forM ?_
  intro offset hoffset
  obtain ⟨i, hi, rfl⟩ := List.mem_map.1 hoffset
  rw [List.mem_range, Nat.min_self] at hi
  obtain ⟨p, hp, hstart, hend⟩ := Layout.exchangeLine_in hi
  have hle : c.layout.coreBase core + c.layout.exchangeLine i + lineSize ≤ n := by
    have hpart := h.part_le hp
    unfold Layout.partAt at hpart
    omega
  exact agrees_reach (fun _ hm => ⟨hm.symm ▸ hle, Nat.le_trans hle h.word⟩)
    (LawfulMemory.size_invalidate ..)

include h in
omit [LawfulMemory M] in
theorem agrees_checkCore :
    Agrees (At c core n size) (checkCore stray : Step M Unit) Exchange.checkCore := by
  have check {x : Exchange M} (hx : At c core n size x) : Ends Exchange.checkCore x (.ok ()) x :=
    Exchange.ends_checkCore (coreError?_eq h hx)
  constructor
  · intro x hx
    have located : Ends (checkCore stray) x (.ok ()) x := by
      refine (check hx).bind (.bind (.get x) ?_)
      rw [locate_eq h hx]
      exact .pure _ x
    exact located.trans (check hx).symm
  · refine ⟨fun {x r y} hend hx => ?_⟩
    obtain ⟨-, rfl⟩ := hend.unique (check hx)
    exact hx

include h in
theorem agrees_bringUp (p : SpinPolicy Unit) (fuel : Nat) :
    Agrees (At c core n size) (bringUp stray p fuel : Step M Nat) (Exchange.bringUp p fuel) :=
  (agrees_checkCore h).bind fun _ => (agrees_invalidateLines h).bind fun _ =>
    agrees_drain h p fuel 0

include h in
omit [LawfulMemory M] in
theorem agrees_resync (next : Parity) :
    Agrees (At c core n size) (resync stray next : Step M Unit) (Exchange.resync next) :=
  (agrees_checkCore h).bind fun _ =>
    .refl (.modify fun _ hx => ⟨hx.config, hx.core, hx.region, hx.buffer⟩)

include h in
theorem agrees_transmitEntered {d : Descriptor}
    (hd : d.payload.size ≤ c.layout.payloadCapacity) :
    Agrees (At c core n size) (transmitEntered stray d : Step M Unit)
      (Exchange.transmitEntered d) := by
  refine (agrees_guarded h (agrees_send h hd)).bind fun r => ?_
  cases r with
  | ok _ => exact .refl (keeps_count _)
  | error e => exact .refl ((keeps_count _).bind fun _ => .throw _)

variable (stray) in
include h hx in
theorem same_transmitStaged (p : SpinPolicy σ) (s : σ) (d : Descriptor) :
    Same c core n size (transmitStaged stray p s d x) (x.transmitStaged p s d) := by
  unfold transmitStaged Exchange.transmitStaged
  rw [coreError?_eq h hx]
  dsimp only
  rw [locate_eq h hx]
  split
  · exact ⟨rfl, hx.config, hx.core, hx.region, hx.buffer⟩
  · next hd =>
    rw [hx.config] at hd
    exact same_entering h (agrees_transmitEntered h (Nat.not_lt.1 hd)) hx p s

variable (stray) in
include h hx in
theorem same_transmitWith (p : SpinPolicy σ) (s : σ) (d : Descriptor) :
    Same c core n size (transmitWith stray p s d x) (x.transmitWith p s d) := by
  obtain ⟨heq, hy⟩ := same_transmitStaged stray h hx p s d
  unfold transmitWith Exchange.transmitWith
  rw [heq]
  generalize x.transmitStaged p s d = y at hy ⊢
  obtain ⟨r, t, y⟩ := y
  rcases r with (_ | _ | _) | _
  · exact ⟨rfl, hy.config, hy.core, hy.region, hy.buffer⟩
  · exact ⟨rfl, hy⟩
  · exact ⟨rfl, hy.config, hy.core, hy.region, hy.buffer⟩
  · exact ⟨rfl, hy.config, hy.core, hy.region, hy.buffer⟩

end Mapped

end Fenced
end LineExchange
