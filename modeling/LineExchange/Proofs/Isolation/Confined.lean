import LineExchange.Proofs.Run

/-!
# LineExchange.Proofs.Isolation.Confined

Computations that concern one core. What such a computation comes to, and what it leaves of the
core, depends on what the state holds of that core only; and to all other cores the state looks
as it did before. A `Scope` says what it is to look the same.

* `Confined sc f`: `f` keeps to its core.
* `Local sc a`: so does `a`, a computation that may break off. One rule for each way to put
  computations together.
* `Returns P Q a`: what `a` returns from a state of `P` is in `Q`.
-/

namespace LineExchange

variable {ε S T α β : Type}

/-- How a state looks from one core and from all others. -/
structure Scope (S : Type) where
  /-- Which states are looked at. -/
  Holds : S → Prop
  /-- Two states look the same from the core. -/
  Own : S → S → Prop
  /-- Two states look the same from every other core. -/
  Rest : S → S → Prop
  refl : ∀ s, Rest s s
  trans : ∀ {s t u}, Rest s t → Rest t u → Rest s u

/-- The scope of a core, where `Alike k` says what looks the same from core `k`. -/
def Scope.ofCore (Holds : S → Prop) (Alike : Nat → S → S → Prop) (refl : ∀ k s, Alike k s s)
    (trans : ∀ {k s t u}, Alike k s t → Alike k t u → Alike k s u) (core : Nat) : Scope S where
  Holds := Holds
  Own := Alike core
  Rest s t := ∀ k, k ≠ core → Alike k s t
  refl s k _ := refl k s
  trans h h' k hk := trans (h k hk) (h' k hk)

/-- `f` keeps to its core. -/
structure Confined (sc : Scope S) (f : S → β × S) : Prop where
  holds : ∀ s, sc.Holds s → sc.Holds (f s).2
  rest : ∀ s, sc.Holds s → sc.Rest s (f s).2
  own : ∀ s t, sc.Holds s → sc.Holds t → sc.Own s t →
    (f s).1 = (f t).1 ∧ sc.Own (f s).2 (f t).2

/-- The computation keeps to its core. -/
def Local (sc : Scope S) (a : ExceptT ε (StateM S) α) : Prop :=
  Confined sc fun s => (ExceptT.run a).run s

/-- What `a` returns from a state of `P` is in `Q`. -/
def Returns (P : S → Prop) (Q : α → Prop) (a : ExceptT ε (StateM S) α) : Prop :=
  ∀ s v s', P s → Ends a s (.ok v) s' → Q v

namespace Confined

variable {sc : Scope S}

theorem const (v : β) : Confined sc fun s => (v, s) :=
  ⟨fun _ hs => hs, fun s _ => sc.refl s, fun _ _ _ _ h => ⟨rfl, h⟩⟩

/-- One after the other; what comes second may rely on what came first. -/
theorem bind_of {γ : Type} {Q : β → Prop} {f : S → β × S} {g : β → S → γ × S}
    (hf : Confined sc f) (hq : ∀ s, sc.Holds s → Q (f s).1)
    (hg : ∀ b, Q b → Confined sc (g b)) : Confined sc fun s => g (f s).1 (f s).2 := by
  constructor
  · intro s hs
    exact (hg _ (hq s hs)).holds _ (hf.holds s hs)
  · intro s hs
    exact sc.trans (hf.rest s hs) ((hg _ (hq s hs)).rest _ (hf.holds s hs))
  · intro s t hs ht h
    obtain ⟨heq, hown⟩ := hf.own s t hs ht h
    rw [heq]
    exact (hg _ (hq t ht)).own _ _ (hf.holds s hs) (hf.holds t ht) hown

theorem bind {γ : Type} {f : S → β × S} {g : β → S → γ × S} (hf : Confined sc f)
    (hg : ∀ b, Confined sc (g b)) : Confined sc fun s => g (f s).1 (f s).2 :=
  hf.bind_of (Q := fun _ => True) (fun _ _ => trivial) fun b _ => hg b

theorem map {γ : Type} {f : S → β × S} (hf : Confined sc f) (g : β → γ) :
    Confined sc fun s => (g (f s).1, (f s).2) :=
  hf.bind fun b => const (g b)

/-- A choice that looks the same from the core. -/
theorem choose {γ : Type} {c : S → γ} {f : γ → S → β × S}
    (hc : ∀ s t, sc.Holds s → sc.Holds t → sc.Own s t → c s = c t)
    (hf : ∀ s, sc.Holds s → Confined sc (f (c s))) : Confined sc fun s => f (c s) s := by
  constructor
  · intro s hs
    exact (hf s hs).holds s hs
  · intro s hs
    exact (hf s hs).rest s hs
  · intro s t hs ht h
    rw [← hc s t hs ht h]
    exact (hf s hs).own s t hs ht h

/-- So is a choice that `f` makes by itself. Where it comes to the same, `f` goes on as `g`. -/
theorem choose_of {γ : Type} {c : S → γ} {f : S → β × S}
    (hc : ∀ s t, sc.Holds s → sc.Holds t → sc.Own s t → c s = c t)
    (hf : ∀ s, sc.Holds s → ∃ g, Confined sc g ∧ ∀ t, c t = c s → f t = g t) : Confined sc f := by
  constructor
  · intro s hs
    obtain ⟨g, hg, heq⟩ := hf s hs
    rw [heq s rfl]
    exact hg.holds s hs
  · intro s hs
    obtain ⟨g, hg, heq⟩ := hf s hs
    rw [heq s rfl]
    exact hg.rest s hs
  · intro s t hs ht h
    obtain ⟨g, hg, heq⟩ := hf s hs
    rw [heq s rfl, heq t (hc s t hs ht h).symm]
    exact hg.own s t hs ht h

end Confined

namespace Local

variable {sc : Scope S} {a : ExceptT ε (StateM S) α} {f : α → ExceptT ε (StateM S) β}

theorem pure (v : α) : Local sc (pure v : ExceptT ε (StateM S) α) := Confined.const _

theorem throw (e : ε) : Local sc (throw e : ExceptT ε (StateM S) α) := Confined.const _

/-- How a computation goes on after the first part came to an end. -/
def resume (f : α → ExceptT ε (StateM S) β) : Except ε α → S → Except ε β × S
  | .error e, s => (.error e, s)
  | .ok v, s => (ExceptT.run (f v)).run s

theorem run_bind (s : S) : (ExceptT.run (a >>= f)).run s =
    resume f ((ExceptT.run a).run s).1 ((ExceptT.run a).run s).2 := by
  cases hr : (ExceptT.run a).run s with
  | mk r s' =>
    cases r with
    | error e => exact Ends.bind_error hr
    | ok v => exact Ends.bind hr (.intro (f v) s')

/-- What follows may rely on what was returned. -/
theorem bind_of {Q : α → Prop} (ha : Local sc a) (hq : Returns sc.Holds Q a)
    (hf : ∀ v, Q v → Local sc (f v)) : Local sc (a >>= f) := by
  unfold Local
  simp only [run_bind]
  refine Confined.bind_of (Q := fun r => ∀ v, r = .ok v → Q v) ha ?_ ?_
  · intro s hs v hv
    exact hq s v _ hs (hv ▸ Ends.intro a s)
  · intro r hr
    cases r with
    | error e => exact Confined.const _
    | ok v => exact hf v (hr v rfl)

theorem bind (ha : Local sc a) (hf : ∀ v, Local sc (f v)) : Local sc (a >>= f) :=
  ha.bind_of (Q := fun _ => True) (fun _ _ _ _ _ => trivial) fun v _ => hf v

theorem map (ha : Local sc a) (g : α → β) : Local sc (g <$> a) := by
  rw [← bind_pure_comp]
  exact ha.bind fun v => .pure (g v)

/-- What was read may be used where it looks the same from the core. -/
theorem get_bind {f : S → ExceptT ε (StateM S) β}
    (same : ∀ s t, sc.Holds s → sc.Holds t → sc.Own s t → f s = f t)
    (hf : ∀ s, sc.Holds s → Local sc (f s)) : Local sc (get >>= f) :=
  Confined.choose (c := f) (f := fun a s => (ExceptT.run a).run s) same hf

theorem modify {g : S → S} (holds : ∀ s, sc.Holds s → sc.Holds (g s))
    (rest : ∀ s, sc.Holds s → sc.Rest s (g s))
    (own : ∀ s t, sc.Holds s → sc.Holds t → sc.Own s t → sc.Own (g s) (g t)) :
    Local sc (modify g : ExceptT ε (StateM S) PUnit) :=
  ⟨holds, rest, fun s t hs ht h => ⟨rfl, own s t hs ht h⟩⟩

theorem forM {γ : Type} {l : List γ} {b : γ → ExceptT ε (StateM S) PUnit}
    (h : ∀ c ∈ l, Local sc (b c)) : Local sc (l.forM b) := by
  induction l with
  | nil => exact .pure _
  | cons c l ih =>
    refine (h c (.head l)).bind fun _ => ih ?_
    intro c' hc'
    exact h c' (.tail c hc')

/-- How a scope on a part of a state fits a scope on the whole. -/
structure Fits {M : Type} (part : Scope M) (sc : Scope S) (get : S → M) (set : S → M → S) :
    Prop where
  holds_get : ∀ s, sc.Holds s → part.Holds (get s)
  holds_set : ∀ s m, sc.Holds s → part.Holds m → sc.Holds (set s m)
  rest_set : ∀ s m, sc.Holds s → part.Rest (get s) m → sc.Rest s (set s m)
  own_get : ∀ s t, sc.Own s t → part.Own (get s) (get t)
  own_set : ∀ s t m m', sc.Own s t → part.Own m m' → sc.Own (set s m) (set t m')

theorem onPart {M : Type} {part : Scope M} {get : S → M} {set : S → M → S} {a : Access M α}
    (h : Fits part sc get set) (ha : Local part a) : Local sc (a.onPart get set) where
  holds s hs := h.holds_set s _ hs (ha.holds _ (h.holds_get s hs))
  rest s hs := h.rest_set s _ hs (ha.rest _ (h.holds_get s hs))
  own s t hs ht hst := by
    obtain ⟨heq, hown⟩ :=
      ha.own _ _ (h.holds_get s hs) (h.holds_get t ht) (h.own_get s t hst)
    exact ⟨heq, h.own_set s t _ _ hst hown⟩

end Local

namespace Returns

variable {P : S → Prop} {Q : α → Prop} {a : ExceptT ε (StateM S) α}

theorem pure {v : α} (h : Q v) : Returns P Q (pure v : ExceptT ε (StateM S) α) := by
  intro s v' s' _ hend
  obtain ⟨heq, -⟩ := hend.unique (Ends.pure v s)
  cases heq
  exact h

end Returns
end LineExchange
