import LineExchange.Proofs.Ownership.Calls
import LineExchange.Proofs.Ownership.Tidy

/-!
# LineExchange.Proofs.Ownership.Claims

Owners of a bench that come, are shared and go.

* `Bench.ends_claim`: how a claim ends. A refusal leaves the bench as it was.
* `Bench.ends_share`, `Bench.ends_dropSlot`: another name for an owner, and one less.
* `Bench.Tidy.claimed`: a bench stays tidy.
-/

namespace LineExchange
namespace Bench

variable {b b' : Bench} {id t core : Nat} {next : Parity} {slot : String}

/-- The bench after a core was claimed, as long as its owner has no name. -/
def withOwner (b : Bench) (t : Nat) (host : Host BenchMemory) (o : Owner) : Bench :=
  { b with
    hosts := b.hosts.setIfInBounds t (host.setClaimed o.core true)
    owners := b.owners.push (some ⟨t, o⟩) }

theorem place_withOwner (host : Host BenchMemory) (o : Owner) (j : Nat) :
    (b.withOwner t host o).place? j =
      if j = b.owners.size then some (t, o.core) else b.place? j := by
  simp only [place?, withOwner, Array.getElem?_push]
  split <;> rfl

/-- The books once a host is replaced by another. -/
theorem books_setHost {host : Host BenchMemory} (ht : b.hosts[t]? = some host)
    (host' : Host BenchMemory) (t' : Nat) :
    books? { b with hosts := b.hosts.setIfInBounds t host' } t' =
      if t' = t then some host'.books else b.books? t' := by
  simp only [books?, Array.getElem?_setIfInBounds]
  by_cases heq : t = t'
  · subst heq
    rw [if_pos rfl, if_pos (Array.getElem?_eq_some_iff.1 ht).1, if_pos rfl]
    rfl
  · rw [if_neg heq, if_neg (Ne.symm heq)]

/-- The books stay as they are if those of the host that is replaced do. -/
theorem books_setHost_of_eq {host host' : Host BenchMemory} (ht : b.hosts[t]? = some host)
    (hbooks : host'.books = host.books) (t' : Nat) :
    books? { b with hosts := b.hosts.setIfInBounds t host' } t' = b.books? t' := by
  rw [books_setHost ht]
  split
  · next heq => rw [heq, hbooks, books?, ht, Option.map_some]
  · rfl

theorem books_withOwner {host : Host BenchMemory} (ht : b.hosts[t]? = some host) (o : Owner)
    (t' : Nat) : (b.withOwner t host o).books? t' =
      if t' = t then (b.books? t').map (marked o.core true) else b.books? t' := by
  refine (books_setHost ht (host.setClaimed o.core true) t').trans ?_
  split
  · next heq =>
    rw [heq, books?, ht, Option.map_some, Option.map_some]
    rfl
  · rfl

theorem flag_eq {host : Host BenchMemory} (ht : b.hosts[t]? = some host) (core : Nat) :
    b.flag t core = host.isClaimed core := by
  simp [flag, books?, ht, Host.books, Host.isClaimed]

/-- How a claim ends on a bench. -/
inductive Claimed (b : Bench) (t core : Nat) (next : Parity) (slot : String)
    (host : Host BenchMemory) : Except BenchError Unit → Bench → Prop where
  | invalid : host.config.numCores ≤ core →
    Claimed b t core next slot host
      (.error (.refused (.invalidCore core host.config.numCores))) b
  | taken : core < host.config.numCores → b.flag t core = true →
    Claimed b t core next slot host (.error (.refused (.coreInUse core))) b
  | granted (b' : Bench) : core < host.config.numCores → b.flag t core = false →
    host.config.HasRoom →
    Renamed (b.withOwner t host (.synced core host.config next)) slot b.owners.size b' →
    Claimed b t core next slot host (.ok ()) b'
  | noRoom : core < host.config.numCores → b.flag t core = false → ¬host.config.HasRoom →
    Claimed b t core next slot host (.error (.fault .outOfStorage)) b

theorem setHost_self {host : Host BenchMemory} (ht : b.hosts[t]? = some host) :
    { b with hosts := b.hosts.setIfInBounds t host } = b := by
  have hsame : b.hosts.setIfInBounds t host = b.hosts := by
    refine Array.ext_getElem? fun i => ?_
    rw [Array.getElem?_setIfInBounds]
    split
    · next heq =>
      subst heq
      rw [ht, if_pos (Array.getElem?_eq_some_iff.1 ht).1]
    · rfl
  rw [hsame]

theorem ends_host {host : Host BenchMemory} (ht : b.hosts[t]? = some host) :
    Ends (Bench.host t) b (.ok host) b := by
  refine .bind (.get b) ?_
  rw [ht]
  exact .pure _ b

theorem ends_host_missing (ht : b.hosts[t]? = none) :
    Ends (Bench.host t) b (.error (.missing "t")) b := by
  refine .bind (.get b) ?_
  rw [ht]
  exact .throw _ b

theorem ends_onHost {α : Type} {a : Access (Host BenchMemory) α} {host host' : Host BenchMemory}
    {r : Except Fault α} (ht : b.hosts[t]? = some host) (h : Ends a host r host') :
    Ends (onHost t a) b (r.mapError .fault)
      { b with hosts := b.hosts.setIfInBounds t host' } := by
  refine .bind (ends_host ht) ?_
  rw [show Access.run a host = (r, host') from h]
  refine .bind (.modify _ b) ?_
  cases r with
  | ok v => exact .pure v _
  | error f => exact .throw _ _

theorem ends_claim (h : Tidy none b) {host : Host BenchMemory} (ht : b.hosts[t]? = some host)
    (core : Nat) (next : Parity) (slot : String) :
    ∃ r b', Ends (claim t core next slot) b r b' ∧ Claimed b t core next slot host r b' := by
  obtain ⟨r, host', hend, hclaimed⟩ := Host.ends_claim core next host
  have hrun := ends_onHost ht hend
  cases hclaimed with
  | invalid hcore =>
    rw [setHost_self ht] at hrun
    exact ⟨_, b, .bind hrun (.bind_error (.throw _ b)), .invalid hcore⟩
  | taken hcore htaken =>
    rw [setHost_self ht] at hrun
    exact ⟨_, b, .bind hrun (.bind_error (.throw _ b)), .taken hcore (flag_eq ht core ▸ htaken)⟩
  | granted hcore hfree hroom =>
    have hplace := place_withOwner (b := b) (t := t) host (.synced core host.config next)
    obtain ⟨b', hname, hrenamed⟩ := ends_name slot b.owners.size
        (b := b.withOwner t host (.synced core host.config next)) <| by
      intro old hold
      obtain ⟨k, hk⟩ := h.valid slot old hold
      rw [hplace]
      split
      · exact ⟨_, rfl⟩
      · exact ⟨k, hk⟩
    exact ⟨_, b', .bind hrun (.bind (.pure _ _) (.bind (.get _) (.bind (.modify _ _) hname))),
      .granted b' hcore (flag_eq ht core ▸ hfree) hroom hrenamed⟩
  | noRoom hcore hfree hroom =>
    rw [setHost_self ht] at hrun
    exact ⟨_, b, .bind_error hrun, .noRoom hcore (flag_eq ht core ▸ hfree) hroom⟩

theorem Tidy.claimed {host : Host BenchMemory} {r : Except BenchError Unit} (h : Tidy none b)
    (ht : b.hosts[t]? = some host) (hclaimed : Claimed b t core next slot host r b') :
    Tidy none b' := by
  cases hclaimed with
  | invalid hcore => exact h
  | taken hcore htaken => exact h
  | granted _ hcore hfree hroom hrenamed =>
    have hnew : b.place? b.owners.size = none := by simp [place?]
    have hbooks : b.books? t = some host.books := by rw [books?, ht, Option.map_some]
    have hgranted :
        Tidy (some b.owners.size) (b.withOwner t host (.synced core host.config next)) :=
      h.granted (k := (t, core)) hbooks hcore hfree hnew rfl
        (place_withOwner host (.synced core host.config next))
        (books_withOwner ht (.synced core host.config next))
    refine hgranted.renamed (k := (t, core)) ?_ hrenamed
    rw [place_withOwner, if_pos rfl]
    rfl
  | noRoom hcore hfree hroom => exact h

/-! ## Handles -/

theorem ends_share (h : Tidy none b) (second : String) (hid : b.slots.get? slot = some id) :
    ∃ b', Ends (share slot second) b (.ok ()) b' ∧ Renamed b second id b' := by
  obtain ⟨b', hend, hrenamed⟩ := ends_name second id (h.valid second)
  refine ⟨b', .bind (.bind (.get b) ?_) hend, hrenamed⟩
  rw [hid]
  exact .pure _ b

theorem ends_share_missing {second : String} (hid : b.slots.get? slot = none) :
    Ends (share slot second) b (.error (.missing "slot")) b := by
  refine .bind_error (.bind (.get b) ?_)
  rw [hid]
  exact .throw _ b

theorem ends_dropSlot (h : Tidy none b) (hid : b.slots.get? slot = some id) :
    ∃ b', Ends (dropSlot slot) b (.ok true) b' ∧
      Released { b with slots := b.slots.erase slot } id b' := by
  obtain ⟨b', hend, hreleased⟩ :=
    ends_releaseUnnamed (b := { b with slots := b.slots.erase slot }) (h.valid slot id hid)
  refine ⟨b', .bind (.get b) ?_, hreleased⟩
  rw [hid]
  exact .bind (.modify _ b) (.bind hend (.pure _ b'))

theorem ends_dropSlot_missing (hid : b.slots.get? slot = none) :
    Ends (dropSlot slot) b (.ok false) b := by
  refine .bind (.get b) ?_
  rw [hid]
  exact .pure _ b

/-- What has changed when a core was claimed. -/
theorem Tidy.after_claim {host : Host BenchMemory} {o : Owner} (h : Tidy none b)
    (ht : b.hosts[t]? = some host) (hcore : o.core < host.config.numCores)
    (hrenamed : Renamed (b.withOwner t host o) slot b.owners.size b') :
    b'.slots.get? slot = some b.owners.size ∧ b'.owners[b.owners.size]? = some (some ⟨t, o⟩) ∧
      (b.slots.get? slot = none → ∀ t' core',
        b'.flag t' core' = if (t', core') = (t, o.core) then true else b.flag t' core') := by
  refine ⟨?_, ?_, ?_⟩
  · rw [hrenamed.slots, Named.get?_insert, if_pos rfl]
  · rw [hrenamed.owner]
    · simp [withOwner]
    · intro hslot
      obtain ⟨k, hk⟩ := h.valid slot b.owners.size hslot
      simp [place?] at hk
  · intro hslot t' core'
    have hbooks : b.books? t = some host.books := by rw [books?, ht, Option.map_some]
    rw [hrenamed.same_flag hslot]
    exact flag_marked (k := (t, o.core)) hbooks (h.sizes _ _ hbooks ▸ hcore)
      (books_withOwner ht o) t' core'

end Bench
end LineExchange
