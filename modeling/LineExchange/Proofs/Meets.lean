import LineExchange.Proofs.Run

/-!
# LineExchange.Proofs.Meets

Triples for computations that may break off: `Meets P a Q E` says how `a` ends from a state of
`P`, with a result (`Q`) or broken off (`E`). `Never` is the `E` of a computation that does not
break off. One rule for each way to put computations together.
-/

namespace LineExchange

variable {ε S α β : Type}

/-- The end of a computation: a result and a state as `Q` says, or broken off as `E` says. -/
def Post (Q : α → S → Prop) (E : ε → S → Prop) : Except ε α → S → Prop
  | .ok v, s => Q v s
  | .error e, s => E e s

def Never (_ : ε) (_ : S) : Prop := False

/-- From a state of `P`, `a` ends as `Q` and `E` say. -/
structure Meets (P : S → Prop) (a : ExceptT ε (StateM S) α) (Q : α → S → Prop)
    (E : ε → S → Prop) : Prop where
  out : ∀ {s r s'}, Ends a s r s' → P s → Post Q E r s'

namespace Meets

variable {P P' : S → Prop} {Q Q' : α → S → Prop} {E E' : ε → S → Prop}
  {a : ExceptT ε (StateM S) α} {f : α → ExceptT ε (StateM S) β} {R : β → S → Prop}

theorem of_ends (h : ∀ s, P s → ∃ r s', Ends a s r s' ∧ Post Q E r s') : Meets P a Q E := by
  constructor
  intro s r s' hend hs
  obtain ⟨r', t, hend', hpost⟩ := h s hs
  obtain ⟨rfl, rfl⟩ := hend.unique hend'
  exact hpost

theorem pure {v : α} (h : ∀ s, P s → Q v s) : Meets P (pure v : ExceptT ε (StateM S) α) Q E :=
  of_ends fun s hs => ⟨_, s, .pure v s, h s hs⟩

theorem throw {e : ε} (h : ∀ s, P s → E e s) : Meets P (throw e : ExceptT ε (StateM S) α) Q E :=
  of_ends fun s hs => ⟨_, s, .throw e s, h s hs⟩

theorem modify {g : S → S} {Q : PUnit → S → Prop} (h : ∀ s, P s → Q ⟨⟩ (g s)) :
    Meets P (modify g : ExceptT ε (StateM S) PUnit) Q E :=
  of_ends fun s hs => ⟨_, g s, .modify g s, h s hs⟩

theorem conseq (ha : Meets P a Q E) (hP : ∀ s, P' s → P s) (hQ : ∀ v s, Q v s → Q' v s)
    (hE : ∀ e s, E e s → E' e s) : Meets P' a Q' E' := by
  constructor
  intro s r s' hend hs
  have hpost := ha.out hend (hP s hs)
  cases r with
  | ok v => exact hQ v s' hpost
  | error e => exact hE e s' hpost

/-- Every computation ends in some way. -/
theorem any (a : ExceptT ε (StateM S) α) : Meets P a (fun _ _ => True) fun _ _ => True := by
  refine ⟨fun {_ r _} _ _ => ?_⟩
  cases r <;> trivial

/-- What is known whatever the state is. -/
theorem assume {φ : Prop} (h : φ → Meets P a Q E) : Meets (fun s => φ ∧ P s) a Q E :=
  ⟨fun hend hs => (h hs.1).out hend hs.2⟩

theorem bind (ha : Meets P a Q E) (hf : ∀ v, Meets (Q v) (f v) R E) : Meets P (a >>= f) R E := by
  constructor
  intro s r s' hend hs
  cases hr : (ExceptT.run a).run s with
  | mk ra t =>
    have hpost := ha.out hr hs
    cases ra with
    | error e =>
      obtain ⟨rfl, rfl⟩ := hend.unique (Ends.bind_error hr)
      exact hpost
    | ok v =>
      obtain ⟨rfl, rfl⟩ := hend.unique (Ends.bind hr (.intro (f v) t))
      exact (hf v).out (.intro (f v) t) hpost

/-- What was read is a state of `P`. -/
theorem get_bind {f : S → ExceptT ε (StateM S) β} (hf : ∀ s, P s → Meets P (f s) R E) :
    Meets P (get >>= f) R E := by
  constructor
  intro s r s' hend hs
  obtain ⟨rfl, rfl⟩ := hend.unique (Ends.bind (.get s) (.intro (f s) s))
  exact (hf s hs).out (.intro (f s) s) hs

theorem map (ha : Meets P a Q E) (g : α → β) (h : ∀ v s, Q v s → R (g v) s) :
    Meets P (g <$> a) R E := by
  rw [← bind_pure_comp]
  exact ha.bind fun v => .pure (h v)

/-- What each turn of a loop brings about, all of them do. -/
theorem forM_all {γ : Type} {l : List γ} {b : γ → ExceptT ε (StateM S) PUnit} {φ : γ → Prop}
    (h : ∀ c, Meets P (b c) (fun _ s => φ c ∧ P s) E) :
    Meets P (l.forM b) (fun _ s => (∀ c ∈ l, φ c) ∧ P s) E := by
  induction l with
  | nil => exact .pure fun _ hs => ⟨nofun, hs⟩
  | cons c l ih =>
    refine (h c).bind fun _ => .assume fun hc => ih.conseq (fun _ hs => hs) ?_ fun _ _ he => he
    rintro _ s ⟨hl, hs⟩
    exact ⟨List.forall_mem_cons.2 ⟨hc, hl⟩, hs⟩

theorem forM {γ : Type} {l : List γ} {b : γ → ExceptT ε (StateM S) PUnit}
    (h : ∀ c, Meets P (b c) (fun _ => P) E) : Meets P (l.forM b) (fun _ => P) E :=
  (forM_all (φ := fun _ => True) fun c => (h c).conseq (fun _ hs => hs) (fun _ _ hs => ⟨trivial, hs⟩)
    fun _ _ he => he).conseq (fun _ hs => hs) (fun _ _ hs => hs.2) fun _ _ he => he

end Meets
end LineExchange
