import LineExchange.Bench
import LineExchange.Proofs.Run
import Mathlib.Logic.ExistsUnique

/-!
# LineExchange.Proofs.Ownership.Tidy

Who owns what on a bench. The owners, their names and the flags of the cores are kept apart from
each other, so the invariant `Bench.Tidy` says how they agree.

* `Bench.place?`, `Bench.flag`: the core that an owner owns, and the flag of a core.
* `Bench.Tidy.freed`, `Bench.Tidy.granted`: an owner goes or comes, and the flag with it.
* `Bench.Tidy.released`, `Bench.Tidy.renamed`: a name is taken away or given. The owner that lost
  its last name goes.
* `Bench.Tidy.flag_iff`: a flag is set exactly as long as one owner of the core is alive.
-/

namespace LineExchange

namespace Named

variable {α : Type} {n : Named α}

/-- No name stands for two values. -/
def Distinct (n : Named α) : Prop := (n.entries.map (·.1)).Nodup

theorem mem_values_iff (h : n.Distinct) {a : α} :
    a ∈ n.values ↔ ∃ name, n.get? name = some a := by
  obtain ⟨entries⟩ := n
  unfold Distinct at h
  unfold values get?
  induction entries with
  | nil => simp
  | cons e l ih =>
    obtain ⟨k, v⟩ := e
    rw [List.map_cons, List.nodup_cons] at h
    rw [List.map_cons, List.mem_cons, ih h.2]
    constructor
    · rintro (rfl | ⟨name, hname⟩)
      · exact ⟨k, by simp⟩
      · refine ⟨name, ?_⟩
        have hne : name ≠ k := by
          rintro rfl
          obtain ⟨l₁, l₂, rfl, -⟩ := List.lookup_eq_some_iff.1 hname
          simp at h
        rw [List.lookup_cons, beq_false_of_ne hne]
        exact hname
    · rintro ⟨name, hname⟩
      rw [List.lookup_cons] at hname
      split at hname
      · exact .inl (Option.some.inj hname).symm
      · exact .inr ⟨name, hname⟩

theorem Distinct.erase (h : n.Distinct) (name : String) : (n.erase name).Distinct :=
  List.Nodup.sublist (List.filter_sublist.map _) h

theorem Distinct.insert (h : n.Distinct) (name : String) (a : α) : (n.insert name a).Distinct := by
  refine List.nodup_cons.2 ⟨?_, h.erase name⟩
  simp [Named.erase]

end Named

/-- The host and the core that were claimed. -/
def HeldOwner.place (h : HeldOwner) : Nat × Nat := (h.host, h.owner.core)

/-- The settings of a host and the flags of its cores. -/
def Host.books {M : Type} (host : Host M) : Config × Array Bool := (host.config, host.claimed)

namespace Bench

/-- The host and the core of an owner, as long as it is alive. -/
def place? (b : Bench) (id : Nat) : Option (Nat × Nat) := b.owners[id]?.join.map HeldOwner.place

def books? (b : Bench) (t : Nat) : Option (Config × Array Bool) := b.hosts[t]?.map Host.books

/-- The flag of a core of a host. -/
def flag (b : Bench) (t core : Nat) : Bool := (b.books? t).any fun q => q.2.getD core false

/-- The benches agree on the names, on who owns what, and on the flags. -/
structure Same (b b' : Bench) : Prop where
  slots : b'.slots = b.slots
  place : ∀ id, b'.place? id = b.place? id
  books : ∀ t, b'.books? t = b.books? t

/-- The owners and the flags of a bench agree. Each owner that is alive has a name, except perhaps
the one that is being named or let go. -/
structure Tidy (loose : Option Nat) (b : Bench) : Prop where
  distinct : b.slots.Distinct
  valid : ∀ name id, b.slots.get? name = some id → ∃ k, b.place? id = some k
  named : ∀ id k, b.place? id = some k → (∃ name, b.slots.get? name = some id) ∨ loose = some id
  sizes : ∀ t q, b.books? t = some q → q.2.size = q.1.numCores
  mapped : ∀ id k, b.place? id = some k → ∃ q, b.books? k.1 = some q ∧ k.2 < q.1.numCores
  flags : ∀ t core, b.flag t core = true ↔ ∃ id, b.place? id = some (t, core)
  unique : ∀ id id' k, b.place? id = some k → b.place? id' = some k → id = id'

variable {b b' b'' : Bench} {loose : Option Nat} {id t core : Nat} {next : Parity} {slot : String}

namespace Same

theorem refl (b : Bench) : Same b b := ⟨rfl, fun _ => rfl, fun _ => rfl⟩

theorem trans (h : Same b b') (h' : Same b' b'') : Same b b'' :=
  ⟨h'.slots.trans h.slots, fun id => (h'.place id).trans (h.place id),
    fun t => (h'.books t).trans (h.books t)⟩

theorem flag (h : Same b b') (t core : Nat) : b'.flag t core = b.flag t core := by
  rw [Bench.flag, Bench.flag, h.books]

theorem tidy (h : Same b b') (hb : Tidy loose b) : Tidy loose b' := by
  constructor
  case distinct =>
    rw [h.slots]
    exact hb.distinct
  all_goals simp only [h.slots, h.place, h.books, h.flag]
  case valid => exact hb.valid
  case named => exact hb.named
  case sizes => exact hb.sizes
  case mapped => exact hb.mapped
  case flags => exact hb.flags
  case unique => exact hb.unique

end Same

/-! ## Owners that come and go -/

/-- The flags of a host after one of them was set or cleared. -/
def marked (core : Nat) (v : Bool) (q : Config × Array Bool) : Config × Array Bool :=
  (q.1, q.2.setIfInBounds core v)

/-- What has become of the flags of all hosts when one flag was set or cleared. -/
theorem flag_marked {k : Nat × Nat} {v : Bool} {q : Config × Array Bool}
    (hq : b.books? k.1 = some q) (hk : k.2 < q.2.size)
    (hbooks : ∀ t, b'.books? t =
      if t = k.1 then (b.books? t).map (marked k.2 v) else b.books? t) (t core : Nat) :
    b'.flag t core = if (t, core) = k then v else b.flag t core := by
  obtain ⟨t₀, core₀⟩ := k
  unfold flag
  rw [hbooks]
  by_cases ht : t = t₀
  · subst ht
    rw [if_pos rfl, hq]
    by_cases hcore : core = core₀
    · subst hcore
      have hsize : core < q.2.size := hk
      simp [marked, Array.getD_eq_getD_getElem?, hsize]
    · simp [marked, Array.getD_eq_getD_getElem?, hcore, Ne.symm hcore]
  · simp [ht]

/-- The settings stay as they are when a flag is set or cleared, and so does the number of flags. -/
theorem books_marked {k : Nat × Nat} {v : Bool} {q : Config × Array Bool}
    (hbooks : ∀ t, b'.books? t =
      if t = k.1 then (b.books? t).map (marked k.2 v) else b.books? t) (hq : b.books? t = some q) :
    ∃ q', b'.books? t = some q' ∧ q'.1 = q.1 ∧ q'.2.size = q.2.size := by
  rw [hbooks, hq]
  by_cases ht : t = k.1
  · exact ⟨marked k.2 v q, by simp [ht], rfl, Array.size_setIfInBounds⟩
  · exact ⟨q, by simp [ht], rfl, rfl⟩

theorem of_books_marked {k : Nat × Nat} {v : Bool} {q' : Config × Array Bool}
    (hbooks : ∀ t, b'.books? t =
      if t = k.1 then (b.books? t).map (marked k.2 v) else b.books? t)
    (hq : b'.books? t = some q') :
    ∃ q, b.books? t = some q ∧ q'.1 = q.1 ∧ q'.2.size = q.2.size := by
  cases h : b.books? t with
  | none =>
    rw [hbooks, h] at hq
    simp at hq
  | some q =>
    obtain ⟨q'', hq'', hconfig, hsize⟩ := books_marked hbooks h
    cases hq.symm.trans hq''
    exact ⟨q, rfl, hconfig, hsize⟩

/-- An owner that has no name is gone. -/
theorem Tidy.freed {k : Nat × Nat} (h : Tidy (some id) b) (hk : b.place? id = some k)
    (hnameless : ∀ name, b.slots.get? name ≠ some id) (hslots : b'.slots = b.slots)
    (hplace : ∀ j, b'.place? j = if j = id then none else b.place? j)
    (hbooks : ∀ t, b'.books? t =
      if t = k.1 then (b.books? t).map (marked k.2 false) else b.books? t) : Tidy none b' := by
  obtain ⟨q, hq, hcore⟩ := h.mapped id k hk
  have hflag := flag_marked hq (h.sizes _ _ hq ▸ hcore) hbooks
  have alive {j : Nat} {k' : Nat × Nat} (hj : b'.place? j = some k') :
      j ≠ id ∧ b.place? j = some k' := by
    rw [hplace] at hj
    split at hj
    · cases hj
    · next hne => exact ⟨hne, hj⟩
  constructor
  case distinct => exact hslots ▸ h.distinct
  case valid =>
    intro name j hj
    rw [hslots] at hj
    rw [hplace, if_neg (by rintro rfl; exact hnameless name hj)]
    exact h.valid name j hj
  case named =>
    intro j k' hj
    obtain ⟨hne, hj⟩ := alive hj
    rw [hslots]
    exact .inl ((h.named j k' hj).resolve_right fun hid => hne (Option.some.inj hid).symm)
  case sizes =>
    intro t q' hq'
    obtain ⟨q, hq, hconfig, hsize⟩ := of_books_marked hbooks hq'
    rw [hsize, hconfig]
    exact h.sizes t q hq
  case mapped =>
    intro j k' hj
    obtain ⟨q, hq, hlt⟩ := h.mapped j k' (alive hj).2
    obtain ⟨q', hq', hconfig, -⟩ := books_marked hbooks hq
    exact ⟨q', hq', hconfig ▸ hlt⟩
  case flags =>
    intro t core
    rw [hflag]
    split
    · next heq =>
      subst heq
      simp only [Bool.false_eq_true, false_iff, not_exists]
      intro j hj
      obtain ⟨hne, hj⟩ := alive hj
      exact hne (h.unique j id _ hj hk)
    · next hne =>
      rw [h.flags]
      constructor
      · rintro ⟨j, hj⟩
        refine ⟨j, ?_⟩
        rw [hplace, if_neg]
        · exact hj
        · rintro rfl
          exact hne (Option.some.inj (hj.symm.trans hk))
      · rintro ⟨j, hj⟩
        exact ⟨j, (alive hj).2⟩
  case unique =>
    intro j j' k' hj hj'
    exact h.unique j j' k' (alive hj).2 (alive hj').2

/-- A core that was free has an owner, which has no name yet. -/
theorem Tidy.granted {k : Nat × Nat} {q : Config × Array Bool} (h : Tidy none b)
    (hq : b.books? k.1 = some q) (hcore : k.2 < q.1.numCores) (hfree : b.flag k.1 k.2 = false)
    (hnew : b.place? id = none) (hslots : b'.slots = b.slots)
    (hplace : ∀ j, b'.place? j = if j = id then some k else b.place? j)
    (hbooks : ∀ t, b'.books? t =
      if t = k.1 then (b.books? t).map (marked k.2 true) else b.books? t) : Tidy (some id) b' := by
  have hflag := flag_marked hq (h.sizes _ _ hq ▸ hcore) hbooks
  have nobody (j : Nat) : b.place? j ≠ some k := by
    intro hj
    rw [(h.flags k.1 k.2).2 ⟨j, hj⟩] at hfree
    cases hfree
  have old {j : Nat} {k' : Nat × Nat} (hj : b.place? j = some k') : b'.place? j = some k' := by
    rw [hplace, if_neg]
    · exact hj
    · rintro rfl
      cases hnew.symm.trans hj
  have either {j : Nat} {k' : Nat × Nat} (hj : b'.place? j = some k') :
      (j = id ∧ k' = k) ∨ b.place? j = some k' := by
    rw [hplace] at hj
    split at hj
    · next heq => exact .inl ⟨heq, (Option.some.inj hj).symm⟩
    · exact .inr hj
  constructor
  case distinct => exact hslots ▸ h.distinct
  case valid =>
    intro name j hj
    rw [hslots] at hj
    obtain ⟨k', hk'⟩ := h.valid name j hj
    exact ⟨k', old hk'⟩
  case named =>
    intro j k' hj
    rw [hslots]
    rcases either hj with ⟨rfl, -⟩ | hj
    · exact .inr rfl
    · exact .inl ((h.named j k' hj).resolve_right nofun)
  case sizes =>
    intro t q' hq'
    obtain ⟨q, hq, hconfig, hsize⟩ := of_books_marked hbooks hq'
    rw [hsize, hconfig]
    exact h.sizes t q hq
  case mapped =>
    intro j k' hj
    have hbefore : ∃ q, b.books? k'.1 = some q ∧ k'.2 < q.1.numCores := by
      rcases either hj with ⟨-, rfl⟩ | hj
      · exact ⟨q, hq, hcore⟩
      · exact h.mapped j k' hj
    obtain ⟨q, hq, hlt⟩ := hbefore
    obtain ⟨q', hq', hconfig, -⟩ := books_marked hbooks hq
    exact ⟨q', hq', hconfig ▸ hlt⟩
  case flags =>
    intro t core
    rw [hflag]
    split
    · next heq => exact iff_of_true rfl ⟨id, by rw [hplace, if_pos rfl, heq]⟩
    · next hne =>
      rw [h.flags]
      constructor
      · rintro ⟨j, hj⟩
        exact ⟨j, old hj⟩
      · rintro ⟨j, hj⟩
        exact ⟨j, (either hj).resolve_left fun heq => hne heq.2⟩
  case unique =>
    intro j j' k' hj hj'
    rcases either hj with ⟨rfl, rfl⟩ | hj <;> rcases either hj' with ⟨rfl, hk⟩ | hj'
    · rfl
    · exact absurd hj' (nobody j')
    · exact absurd (hk ▸ hj) (nobody j)
    · exact h.unique j j' k' hj hj'

/-- A name is taken away. The owner that had it may have no name left. -/
theorem Tidy.erase (h : Tidy none b) (hid : b.slots.get? slot = some id) :
    Tidy (some id) { b with slots := b.slots.erase slot } := by
  refine { h with distinct := h.distinct.erase slot, valid := ?_, named := ?_ }
  · intro name j hj
    rw [Named.get?_erase] at hj
    split at hj
    · cases hj
    · exact h.valid name j hj
  · intro j k hj
    obtain ⟨name, hname⟩ := (h.named j k hj).resolve_right nofun
    by_cases hne : name = slot
    · exact .inr (hid.symm.trans (hne ▸ hname))
    · exact .inl ⟨name, by rw [Named.get?_erase, if_neg hne, hname]⟩

/-- An owner gets a name. Whoever had it before may have no name left. -/
theorem Tidy.insert {k : Nat × Nat} (h : Tidy (some id) b) (slot : String)
    (hk : b.place? id = some k) :
    Tidy (b.slots.get? slot) { b with slots := b.slots.insert slot id } := by
  refine { h with distinct := h.distinct.insert slot id, valid := ?_, named := ?_ }
  · intro name j hj
    rw [Named.get?_insert] at hj
    split at hj
    · cases hj
      exact ⟨k, hk⟩
    · exact h.valid name j hj
  · intro j k' hj
    rcases h.named j k' hj with ⟨name, hname⟩ | hid
    · by_cases hne : name = slot
      · exact .inr (hne ▸ hname)
      · exact .inl ⟨name, by rw [Named.get?_insert, if_neg hne, hname]⟩
    · cases hid
      exact .inl ⟨slot, by rw [Named.get?_insert, if_pos rfl]⟩

theorem Tidy.weaken (h : Tidy none b) (loose : Option Nat) : Tidy loose b :=
  { h with named := fun id k hk => .inl ((h.named id k hk).resolve_right nofun) }

/-- The bench after an owner is gone. -/
def without (b : Bench) (id : Nat) (h : HeldOwner) : Bench :=
  { b with
    owners := b.owners.setIfInBounds id none
    hosts := b.hosts.modify h.host (·.release h.owner.core) }

theorem place_without (h : HeldOwner) (j : Nat) :
    (b.without id h).place? j = if j = id then none else b.place? j := by
  simp only [place?, without, Array.getElem?_setIfInBounds]
  by_cases hj : id = j
  · subst hj
    by_cases hlt : id < b.owners.size <;> simp [hlt]
  · simp [hj, Ne.symm hj]

theorem books_without (h : HeldOwner) (t : Nat) : (b.without id h).books? t =
    if t = h.place.1 then (b.books? t).map (marked h.place.2 false) else b.books? t := by
  simp only [books?, without, Array.getElem?_modify]
  by_cases ht : h.host = t
  · subst ht
    rw [if_pos rfl, if_pos (show h.host = h.place.1 from rfl), Option.map_map, Option.map_map]
    rfl
  · rw [if_neg ht]
    exact (if_neg (Ne.symm ht)).symm

/-- What is left when an owner that may have no name is let go. -/
inductive Released (b : Bench) (id : Nat) : Bench → Prop where
  | kept : id ∈ b.slots.values → Released b id b
  | freed (h : HeldOwner) : id ∉ b.slots.values → b.owners[id]?.join = some h →
    Released b id (b.without id h)

theorem ends_releaseUnnamed (hid : ∃ k, b.place? id = some k) :
    ∃ b', Ends (releaseUnnamed id) b (.ok ()) b' ∧ Released b id b' := by
  by_cases hmem : id ∈ b.slots.values
  · refine ⟨b, .bind (.get b) ?_, .kept hmem⟩
    rw [if_pos hmem]
    exact .pure _ b
  · obtain ⟨k, hk⟩ := hid
    obtain ⟨h, hh, rfl⟩ := Option.map_eq_some_iff.1 hk
    refine ⟨_, .bind (.get b) ?_, .freed h hmem hh⟩
    rw [if_neg hmem, hh]
    exact .modify _ b

theorem Tidy.released (h : Tidy (some id) b) (hr : Released b id b') : Tidy none b' := by
  cases hr with
  | kept hmem =>
    refine { h with named := ?_ }
    intro j k hj
    rcases h.named j k hj with hname | hid
    · exact .inl hname
    · cases hid
      exact .inl ((Named.mem_values_iff h.distinct).1 hmem)
  | freed held hmem hheld =>
    refine h.freed (congrArg (Option.map HeldOwner.place) hheld) ?_ rfl (place_without held)
      (books_without held)
    intro name hname
    exact hmem ((Named.mem_values_iff h.distinct).2 ⟨name, hname⟩)

/-- What is left when an owner gets a name. -/
inductive Renamed (b : Bench) (slot : String) (id : Nat) : Bench → Prop where
  | fresh : b.slots.get? slot = none →
    Renamed b slot id { b with slots := b.slots.insert slot id }
  | taken (old : Nat) (b' : Bench) : b.slots.get? slot = some old →
    Released { b with slots := b.slots.insert slot id } old b' → Renamed b slot id b'

theorem ends_name (slot : String) (id : Nat)
    (hold : ∀ old, b.slots.get? slot = some old → ∃ k, b.place? old = some k) :
    ∃ b', Ends (name slot id) b (.ok ()) b' ∧ Renamed b slot id b' := by
  cases hslot : b.slots.get? slot with
  | none =>
    refine ⟨_, .bind (.get b) (.bind (.modify _ b) ?_), .fresh hslot⟩
    rw [hslot]
    exact .pure _ _
  | some old =>
    obtain ⟨b', hend, hr⟩ :=
      ends_releaseUnnamed (b := { b with slots := b.slots.insert slot id }) (hold old hslot)
    refine ⟨b', .bind (.get b) (.bind (.modify _ b) ?_), .taken old b' hslot hr⟩
    rw [hslot]
    exact hend

theorem Tidy.renamed {k : Nat × Nat} (h : Tidy (some id) b) (hk : b.place? id = some k)
    (hr : Renamed b slot id b') : Tidy none b' := by
  have hinsert := h.insert slot hk
  cases hr with
  | fresh hslot => exact hslot ▸ hinsert
  | taken old _ hslot hr =>
    rw [hslot] at hinsert
    exact hinsert.released hr

theorem Tidy.alive_iff (h : Tidy none b) (id : Nat) :
    (∃ name, b.slots.get? name = some id) ↔ ∃ k, b.place? id = some k := by
  constructor
  · rintro ⟨name, hname⟩
    exact h.valid name id hname
  · rintro ⟨k, hk⟩
    exact (h.named id k hk).resolve_right nofun

/-- A flag is set exactly as long as one owner of the core is alive. -/
theorem Tidy.flag_iff (h : Tidy none b) (t core : Nat) :
    b.flag t core = true ↔ ∃! id, b.place? id = some (t, core) := by
  rw [h.flags]
  constructor
  · rintro ⟨id, hid⟩
    exact ⟨id, hid, fun id' hid' => h.unique id' id _ hid' hid⟩
  · rintro ⟨id, hid, -⟩
    exact ⟨id, hid⟩

/-- A flag is cleared exactly if the core's owner has no name. -/
theorem Tidy.flag_released {k : Nat × Nat} (h : Tidy (some id) b) (hk : b.place? id = some k)
    (hr : Released b id b') (t core : Nat) : b'.flag t core =
      if (t, core) = k ∧ id ∉ b.slots.values then false else b.flag t core := by
  cases hr with
  | kept hmem => rw [if_neg fun hgone => hgone.2 hmem]
  | freed held hmem hheld =>
    obtain rfl : held.place = k :=
      Option.some.inj ((congrArg (Option.map HeldOwner.place) hheld).symm.trans hk)
    obtain ⟨q, hq, hcore⟩ := h.mapped id _ hk
    rw [flag_marked hq (h.sizes _ _ hq ▸ hcore) (books_without held)]
    simp only [hmem, not_false_eq_true, and_true]

theorem Renamed.slots (hr : Renamed b slot id b') : b'.slots = b.slots.insert slot id := by
  cases hr with
  | fresh => rfl
  | taken old _ _ hreleased => cases hreleased <;> rfl

/-- Whoever had the name before is the only one to go. -/
theorem Renamed.owner {j : Nat} (hr : Renamed b slot id b') (hj : b.slots.get? slot ≠ some j) :
    b'.owners[j]? = b.owners[j]? := by
  cases hr with
  | fresh => rfl
  | taken old _ hslot hreleased =>
    cases hreleased with
    | kept => rfl
    | freed held =>
      refine (Array.getElem?_setIfInBounds ..).trans (if_neg ?_)
      rintro rfl
      exact hj hslot

theorem Renamed.same_flag (hr : Renamed b slot id b') (hslot : b.slots.get? slot = none)
    (t core : Nat) : b'.flag t core = b.flag t core := by
  cases hr with
  | fresh => rfl
  | taken old _ hold => cases hslot.symm.trans hold

end Bench
end LineExchange
