import LineExchange.Memory

/-!
# LineExchange.Proofs.Run

Runs of computations that may break off and keep what they did: accesses to a memory and steps
of a call.

* `Ends a s r s'`: from `s` the computation `a` comes to `r` and leaves `s'`. One rule for each way
  to put computations together.
* `Keeps P a`: wherever `a` starts in `P`, it leaves `P`, whatever it comes to.
* `Raises E a`: whatever `a` breaks off with is in `E`.
-/

namespace LineExchange

variable {ε S T α β : Type}

/-- From `s` the computation comes to `r` and leaves `s'`. -/
def Ends (a : ExceptT ε (StateM S) α) (s : S) (r : Except ε α) (s' : S) : Prop :=
  (ExceptT.run a).run s = (r, s')

namespace Ends

variable {a : ExceptT ε (StateM S) α} {f : α → ExceptT ε (StateM S) β} {s s' s'' : S}

theorem intro (a : ExceptT ε (StateM S) α) (s : S) :
    Ends a s ((ExceptT.run a).run s).1 ((ExceptT.run a).run s).2 := rfl

theorem unique {r₁ r₂ : Except ε α} {s₁ s₂ : S} (h₁ : Ends a s r₁ s₁) (h₂ : Ends a s r₂ s₂) :
    r₁ = r₂ ∧ s₁ = s₂ := Prod.mk.inj (h₁.symm.trans h₂)

theorem pure (v : α) (s : S) : Ends (pure v : ExceptT ε (StateM S) α) s (.ok v) s := rfl

theorem throw (e : ε) (s : S) : Ends (throw e : ExceptT ε (StateM S) α) s (.error e) s := rfl

theorem get (s : S) : Ends (get : ExceptT ε (StateM S) S) s (.ok s) s := rfl

theorem set (t s : S) : Ends (set t : ExceptT ε (StateM S) PUnit) s (.ok ⟨⟩) t := rfl

theorem modify (g : S → S) (s : S) :
    Ends (modify g : ExceptT ε (StateM S) PUnit) s (.ok ⟨⟩) (g s) := rfl

theorem bind {v : α} {r : Except ε β} (h : Ends a s (.ok v) s') (hf : Ends (f v) s' r s'') :
    Ends (a >>= f) s r s'' := by
  have hrun : (ExceptT.run (a >>= f)).run s = (ExceptT.run (f v)).run s' := by
    show StateT.run ((ExceptT.run a) >>= ExceptT.bindCont f) s = _
    rw [StateT.run_bind, h]
    rfl
  exact hrun.trans hf

theorem bind_error {e : ε} (h : Ends a s (.error e) s') : Ends (a >>= f) s (.error e) s' := by
  show StateT.run ((ExceptT.run a) >>= ExceptT.bindCont f) s = _
  rw [StateT.run_bind, h]
  rfl

theorem map {v : α} {g : α → β} (h : Ends a s (.ok v) s') : Ends (g <$> a) s (.ok (g v)) s' := by
  rw [← bind_pure_comp]
  exact h.bind (.pure (g v) s')

theorem onPart {M : Type} {a : Access M α} {get : S → M} {set : S → M → S}
    {r : Except Fault α} {m : M} (h : Ends a (get s) r m) :
    Ends (a.onPart get set) s r (set s m) :=
  congrArg (fun q : Except Fault α × M => (q.1, set s q.2)) h

end Ends

/-- Wherever `a` starts in `P`, it leaves `P`. -/
structure Keeps (P : S → Prop) (a : ExceptT ε (StateM S) α) : Prop where
  out : ∀ {s r s'}, Ends a s r s' → P s → P s'

namespace Keeps

variable {P : S → Prop} {a : ExceptT ε (StateM S) α} {f : α → ExceptT ε (StateM S) β}

theorem pure (v : α) : Keeps P (pure v : ExceptT ε (StateM S) α) := by
  refine ⟨fun {s r s'} h hs => ?_⟩
  obtain ⟨-, rfl⟩ := h.unique (Ends.pure v s)
  exact hs

theorem throw (e : ε) : Keeps P (throw e : ExceptT ε (StateM S) α) := by
  refine ⟨fun {s r s'} h hs => ?_⟩
  obtain ⟨-, rfl⟩ := h.unique (Ends.throw e s)
  exact hs

theorem modify {g : S → S} (hg : ∀ s, P s → P (g s)) :
    Keeps P (modify g : ExceptT ε (StateM S) PUnit) := by
  refine ⟨fun {s r s'} h hs => ?_⟩
  obtain ⟨-, rfl⟩ := h.unique (Ends.modify g s)
  exact hg s hs

theorem set {t : S} (ht : P t) : Keeps P (set t : ExceptT ε (StateM S) PUnit) :=
  ⟨fun {_ _ _} h _ => (h.unique (Ends.set t _)).2 ▸ ht⟩

theorem bind (ha : Keeps P a) (hf : ∀ v, Keeps P (f v)) : Keeps P (a >>= f) := by
  refine ⟨fun {s r s'} h hs => ?_⟩
  have ha' := ha.out (.intro a s) hs
  cases hr : (ExceptT.run a).run s with | mk ra sa =>
  rw [hr] at ha'
  cases ra with
  | error e =>
    obtain ⟨-, rfl⟩ := h.unique (Ends.bind_error hr)
    exact ha'
  | ok v =>
    obtain ⟨-, rfl⟩ := h.unique (Ends.bind hr (.intro (f v) sa))
    exact (hf v).out (.intro (f v) sa) ha'

/-- What was read is a state of `P`. -/
theorem get_bind {f : S → ExceptT ε (StateM S) β} (hf : ∀ s, P s → Keeps P (f s)) :
    Keeps P (get >>= f) := by
  refine ⟨fun {s r s'} h hs => ?_⟩
  obtain ⟨-, rfl⟩ := h.unique (Ends.bind (.get s) (.intro (f s) s))
  exact (hf s hs).out (.intro (f s) s) hs

theorem map {g : α → β} (ha : Keeps P a) : Keeps P (g <$> a) := by
  rw [← bind_pure_comp]
  exact ha.bind fun v => .pure (g v)

theorem onPart {M : Type} {a : Access M α} {get : S → M} {set : S → M → S}
    (h : ∀ s r m, Ends a (get s) r m → P s → P (set s m)) : Keeps P (a.onPart get set) := by
  refine ⟨fun {s r s'} hs hp => ?_⟩
  obtain ⟨-, rfl⟩ := hs.unique (Ends.onPart (.intro a (get s)))
  exact h s _ _ (.intro a (get s)) hp

theorem forM {γ : Type} {l : List γ} {b : γ → ExceptT ε (StateM S) PUnit}
    (h : ∀ c ∈ l, Keeps P (b c)) : Keeps P (l.forM b) := by
  induction l with
  | nil => exact .pure _
  | cons c l ih =>
    exact (h c (.head l)).bind fun _ => ih fun c' hc => h c' (.tail c hc)

end Keeps

/-- Whatever `a` breaks off with is in `E`. -/
structure Raises (E : ε → Prop) (a : ExceptT ε (StateM S) α) : Prop where
  out : ∀ {s e s'}, Ends a s (.error e) s' → E e

namespace Raises

variable {E : ε → Prop} {a : ExceptT ε (StateM S) α} {f : α → ExceptT ε (StateM S) β}

theorem pure (v : α) : Raises E (pure v : ExceptT ε (StateM S) α) :=
  ⟨fun h => nomatch (h.unique (Ends.pure v _)).1⟩

theorem throw {e : ε} (he : E e) : Raises E (throw e : ExceptT ε (StateM S) α) :=
  ⟨fun h => Except.error.inj (h.unique (Ends.throw e _)).1 ▸ he⟩

theorem modify (g : S → S) : Raises E (modify g : ExceptT ε (StateM S) PUnit) :=
  ⟨fun h => nomatch (h.unique (Ends.modify g _)).1⟩

theorem get : Raises E (get : ExceptT ε (StateM S) S) :=
  ⟨fun h => nomatch (h.unique (Ends.get _)).1⟩

theorem bind (ha : Raises E a) (hf : ∀ v, Raises E (f v)) : Raises E (a >>= f) := by
  refine ⟨fun {s e s'} h => ?_⟩
  cases hr : (ExceptT.run a).run s with | mk ra sa =>
  cases ra with
  | error e' =>
    obtain ⟨he, -⟩ := h.unique (Ends.bind_error hr)
    cases he
    exact ha.out hr
  | ok v =>
    obtain ⟨he, -⟩ := h.unique (Ends.bind hr (.intro (f v) sa))
    exact (hf v).out (he ▸ Ends.intro (f v) sa)

theorem map {g : α → β} (ha : Raises E a) : Raises E (g <$> a) := by
  rw [← bind_pure_comp]
  exact ha.bind fun v => .pure (g v)

end Raises
end LineExchange
