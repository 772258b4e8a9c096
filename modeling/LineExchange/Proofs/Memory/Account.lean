import LineExchange.Memory.Trace
import LineExchange.Proofs.Memory.Lawful
import Mathlib.Algebra.BigOperators.Group.List.Basic
import Mathlib.Algebra.Ring.Nat

/-!
# LineExchange.Proofs.Memory.Account

The log of a plain region accounts for every change to it. Counts are sums over the log of how many
bytes of each access lie in a range, so a byte that was written is found in the sum of each range
that has it.

* `Range.countWithin_eq_countP`: the clipped length counts the bytes one by one, wherever access
  and range lie. `Range.countWithin_split`: two ranges side by side share them out.
* `Traced.bytesWritten_eq_zero`: nothing of a range was written if no logged write has bytes in it.
* `HostAccess.ends_perform`, `HostAccess.ends_forM`: one access in range, and any of them in order,
  answer, make their change and are logged.
* `HostAccess.accounts`: the result.
-/

namespace LineExchange

/-! ## Bytes in a range -/

namespace Range

variable {r : Range} {offset len : Nat}

/-- The offset is one of the range. -/
def Has (r : Range) (o : Nat) : Prop := r.start ≤ o ∧ o < r.stop

instance (r : Range) : DecidablePred r.Has :=
  fun o => inferInstanceAs (Decidable (r.start ≤ o ∧ o < r.stop))

theorem countWithin_apart (h : offset + len ≤ r.start ∨ r.stop ≤ offset) :
    r.countWithin offset len = 0 := by
  unfold countWithin
  omega

theorem countWithin_inside (hstart : r.start ≤ offset) (hstop : offset + len ≤ r.stop) :
    r.countWithin offset len = len := by
  unfold countWithin
  omega

theorem countWithin_empty (h : r.stop ≤ r.start ∨ len = 0) : r.countWithin offset len = 0 := by
  unfold countWithin
  omega

theorem countWithin_succ (r : Range) (offset len : Nat) :
    r.countWithin offset (len + 1) =
      r.countWithin offset len + if r.Has (offset + len) then 1 else 0 := by
  by_cases h : r.Has (offset + len)
  · rw [if_pos h]
    unfold countWithin Has at *
    omega
  · rw [if_neg h]
    unfold countWithin Has at *
    omega

theorem countWithin_eq_countP (r : Range) (offset len : Nat) :
    r.countWithin offset len = (List.range' offset len).countP (r.Has ·) := by
  induction len with
  | zero => exact countWithin_empty (.inr rfl)
  | succ len ih =>
    rw [countWithin_succ, ih, List.range'_1_concat, List.countP_append, List.countP_singleton]
    simp only [decide_eq_true_eq]

theorem countWithin_pos_iff : 0 < r.countWithin offset len ↔
    ∃ o, r.Has o ∧ offset ≤ o ∧ o < offset + len := by
  rw [countWithin_eq_countP, List.countP_pos_iff]
  simp only [List.mem_range'_1, decide_eq_true_eq]
  exact exists_congr fun _ => and_comm

theorem countWithin_split {a b c : Nat} (hab : a ≤ b) (hbc : b ≤ c) (offset len : Nat) :
    (⟨a, c⟩ : Range).countWithin offset len =
      (⟨a, b⟩ : Range).countWithin offset len + (⟨b, c⟩ : Range).countWithin offset len := by
  simp only [countWithin]
  omega

end Range

namespace LogEntry

variable {a b c : Nat}

theorem written_split (hab : a ≤ b) (hbc : b ≤ c) (e : LogEntry) :
    e.written ⟨a, c⟩ = e.written ⟨a, b⟩ + e.written ⟨b, c⟩ := by
  cases e with
  | write offset len => exact Range.countWithin_split hab hbc offset len
  | _ => rfl

theorem readCount_split (hab : a ≤ b) (hbc : b ≤ c) (e : LogEntry) :
    e.readCount ⟨a, c⟩ = e.readCount ⟨a, b⟩ + e.readCount ⟨b, c⟩ := by
  cases e with
  | read offset len => exact Range.countWithin_split hab hbc offset len
  | _ => rfl

end LogEntry

/-! ## Sums over a log -/

/-- Bytes of the range that the accesses wrote. -/
def writtenIn (r : Range) (es : List LogEntry) : Nat := (es.map (·.written r)).sum

theorem writtenIn_append (r : Range) (es es' : List LogEntry) :
    writtenIn r (es ++ es') = writtenIn r es + writtenIn r es' := by
  unfold writtenIn
  rw [List.map_append, List.sum_append]

namespace Traced

variable {M : Type} (t : Traced M)

theorem total_eq (count : LogEntry → Nat) : t.total count = (t.log.toList.map count).sum := by
  rw [total, List.sum_eq_foldr, List.foldr_map]

theorem bytesWritten_eq (r : Range) : t.bytesWritten r = writtenIn r t.log.toList := t.total_eq _

theorem total_split {count first second : LogEntry → Nat}
    (h : ∀ e, count e = first e + second e) : t.total count = t.total first + t.total second := by
  rw [total_eq, total_eq, total_eq, ← List.sum_map_add]
  exact congrArg List.sum (List.map_congr_left fun e _ => h e)

theorem bytesWritten_eq_zero {r : Range} :
    t.bytesWritten r = 0 ↔ ∀ e ∈ t.log.toList, e.written r = 0 := by
  rw [bytesWritten_eq, writtenIn, List.sum_eq_zero_iff_forall_eq_nat, List.forall_mem_map]

theorem writesWithin_eq_nil {r : Range} :
    t.writesWithin r = [] ↔ ∀ e ∈ t.log.toList, e.written r = 0 := by
  rw [writesWithin, List.filter_eq_nil_iff]
  simp only [decide_eq_true_eq, Nat.pos_iff_ne_zero, ne_eq, not_not]

end Traced

/-! ## Accesses and what they change -/

namespace HostAccess

/-- The access as it is logged. -/
def entry : HostAccess → LogEntry
  | read offset len => .read offset len
  | write offset data => .write offset data.size
  | touch offset => .touch offset
  | invalidate offset => .invalidate offset

/-- A region of `n` bytes has those that the access is about. A line may be invalidated anywhere. -/
def InRange (n : Nat) : HostAccess → Prop
  | invalidate _ => True
  | a => a.start + a.len ≤ n

instance (n : Nat) : DecidablePred (InRange n)
  | invalidate _ => .isTrue trivial
  | read .. | write .. | touch _ => inferInstanceAs (Decidable (_ ≤ n))

/-- What the access makes of a plain region. -/
def changed (m : Region) : HostAccess → Region
  | write offset data => ⟨m.bytes.patch offset data⟩
  | _ => m

/-- How many bytes of the range the access writes, counted one by one. -/
def wrote (r : Range) : HostAccess → Nat
  | write offset data => (List.range' offset data.size).countP (r.Has ·)
  | _ => 0

/-- How many bytes of the range the access reads, counted one by one. -/
def took (r : Range) : HostAccess → Nat
  | read offset len => (List.range' offset len).countP (r.Has ·)
  | _ => 0

theorem written_entry (r : Range) (a : HostAccess) : a.entry.written r = a.wrote r := by
  cases a with
  | write offset data => exact r.countWithin_eq_countP offset data.size
  | _ => rfl

theorem readCount_entry (r : Range) (a : HostAccess) : a.entry.readCount r = a.took r := by
  cases a with
  | read offset len => exact r.countWithin_eq_countP offset len
  | _ => rfl

theorem size_changed (m : Region) (a : HostAccess) : (a.changed m).size = m.size := by
  cases a with
  | write offset data => exact Bytes.size_patch ..
  | _ => rfl

/-- A byte of a range that an access wrote nothing of is as before. -/
theorem byteAt_changed {r : Range} {o : Nat} {a : HostAccess} (hr : r.Has o)
    (h : a.entry.written r = 0) (m : Region) :
    (a.changed m).bytes.byteAt o = m.bytes.byteAt o := by
  cases a with
  | write offset data =>
    have hmiss : ¬(offset ≤ o ∧ o < offset + data.size) := fun ho =>
      Nat.ne_of_gt (Range.countWithin_pos_iff.2 ⟨o, hr, ho⟩) h
    by_cases hfit : offset + data.size ≤ m.bytes.size
    · exact (Bytes.byteAt_patch hfit o).trans (if_neg hmiss)
    · exact congrArg (Bytes.byteAt · o) (if_neg hfit)
  | _ => rfl

/-- **One access.** -/
theorem ends_perform {t : Traced Region} {a : HostAccess} (h : a.InRange t.inner.size) :
    Ends a.perform t (.ok ()) ⟨a.changed t.inner, t.log.push a.entry⟩ := by
  have logged {α : Type} {b : Access Region α} {v : α} (e : LogEntry) {m : Region}
      (hb : Ends b t.inner (.ok v) m) :
      Ends (do Traced.record e; Traced.onInner b) t (.ok v) ⟨m, t.log.push e⟩ :=
    .bind (.modify _ t) (Traced.ends_onInner hb)
  cases a with
  | read offset len => exact (logged (.read offset len) (Region.ends_read h)).map
  | write offset data => exact logged (.write offset data.size) (Region.ends_write h)
  | touch offset => exact logged (.touch offset) (Region.ends_touch h)
  | invalidate offset => exact logged (.invalidate offset) (.pure () t.inner)

/-- What accesses in order make of a plain region. -/
def changedAll (m : Region) (accesses : List HostAccess) : Region := accesses.foldl changed m

/-- **Accesses in order.** -/
theorem ends_forM {accesses : List HostAccess} {t : Traced Region}
    (h : ∀ a ∈ accesses, a.InRange t.inner.size) :
    Ends (accesses.forM perform) t (.ok ())
      ⟨changedAll t.inner accesses, t.log ++ (accesses.map entry).toArray⟩ := by
  induction accesses generalizing t with
  | nil =>
    rw [List.map_nil, Array.append_empty]
    exact .pure () t
  | cons a accesses ih =>
    obtain ⟨first, rest⟩ := List.forall_mem_cons.1 h
    have hlog : t.log ++ ((a :: accesses).map entry).toArray =
        t.log.push a.entry ++ (accesses.map entry).toArray := by
      rw [List.map_cons, List.toArray_cons, Array.push_eq_append, Array.append_assoc]
    rw [hlog]
    exact (ends_perform first).bind (ih fun b hb => (size_changed t.inner a).symm ▸ rest b hb)

theorem byteAt_changedAll {r : Range} {o : Nat} {accesses : List HostAccess} (hr : r.Has o)
    (h : ∀ a ∈ accesses, a.entry.written r = 0) (m : Region) :
    (changedAll m accesses).bytes.byteAt o = m.bytes.byteAt o := by
  induction accesses generalizing m with
  | nil => rfl
  | cons a accesses ih =>
    obtain ⟨first, rest⟩ := List.forall_mem_cons.1 h
    exact (ih rest (a.changed m)).trans (byteAt_changed hr first m)

end HostAccess

/-! ## The account -/

/-- What a log says of accesses, and of a region that was `old` before them. -/
structure Traced.Accounts (t : Traced Region) (old : Region) (accesses : List HostAccess) :
    Prop where
  log : t.log.toList = accesses.map (·.entry)
  unchanged : ∀ r : Range, t.bytesWritten r = 0 → ∀ o, r.Has o →
    t.inner.bytes.byteAt o = old.bytes.byteAt o
  written : ∀ r : Range, t.bytesWritten r = (accesses.map (·.wrote r)).sum
  read : ∀ r : Range, t.bytesRead r = (accesses.map (·.took r)).sum
  writes_iff : ∀ r : Range, 0 < t.bytesWritten r ↔ t.writesWithin r ≠ []
  written_split : ∀ a b c, a ≤ b → b ≤ c →
    t.bytesWritten ⟨a, c⟩ = t.bytesWritten ⟨a, b⟩ + t.bytesWritten ⟨b, c⟩
  read_split : ∀ a b c, a ≤ b → b ≤ c →
    t.bytesRead ⟨a, c⟩ = t.bytesRead ⟨a, b⟩ + t.bytesRead ⟨b, c⟩

namespace HostAccess

theorem accounts_of_log {t : Traced Region} {old : Region} {accesses : List HostAccess}
    (hlog : t.log.toList = accesses.map entry) (hinner : t.inner = changedAll old accesses) :
    t.Accounts old accesses where
  log := hlog
  unchanged r hr o ho := by
    rw [t.bytesWritten_eq_zero, hlog, List.forall_mem_map] at hr
    rw [hinner]
    exact byteAt_changedAll ho hr old
  written r := by
    rw [t.bytesWritten_eq, hlog, writtenIn, List.map_map]
    exact congrArg List.sum (List.map_congr_left fun a _ => written_entry r a)
  read r := by
    rw [Traced.bytesRead, t.total_eq, hlog, List.map_map]
    exact congrArg List.sum (List.map_congr_left fun a _ => readCount_entry r a)
  writes_iff r := by
    rw [Nat.pos_iff_ne_zero, ne_eq, ne_eq, t.bytesWritten_eq_zero, t.writesWithin_eq_nil]
  written_split _ _ _ hab hbc := t.total_split (LogEntry.written_split hab hbc)
  read_split _ _ _ hab hbc := t.total_split (LogEntry.readCount_split hab hbc)

/-- **The log accounts for every change.** From a cleared log, reads, writes, touches and
invalidations in range all answer. Then a range of which nothing was written is as it was, something
was written of a range exactly if a logged write lies in it, and each access counts with as many of
its bytes as the range has, none if the range or the access is empty. Ranges side by side share out
what was written and what was read. -/
theorem accounts {t : Traced Region} {accesses : List HostAccess}
    (h : ∀ a ∈ accesses, a.InRange t.inner.size) :
    ∃ t', Ends (accesses.forM perform) t.clear (.ok ()) t' ∧ t'.Accounts t.inner accesses ∧
      ∀ (r : Range) (offset len : Nat),
        (LogEntry.write offset len).written r = (List.range' offset len).countP (r.Has ·) ∧
        (r.stop ≤ r.start ∨ len = 0 → (LogEntry.write offset len).written r = 0) := by
  refine ⟨_, ends_forM (t := t.clear) h, accounts_of_log ?_ rfl, fun r offset len => ?_⟩
  · exact (congrArg Array.toList (Array.empty_append ..)).trans List.toList_toArray
  · exact ⟨r.countWithin_eq_countP offset len, Range.countWithin_empty⟩

/-- A write, a read of some of what was written, and a doorbell. -/
theorem accounts_three :
    (∀ a ∈ [write 2 (.zeros 3), read 0 4, touch 7], a.InRange (Region.zeros 8).size) ∧
      ∃ t', Ends ([write 2 (.zeros 3), read 0 4, touch 7].forM perform)
          (⟨.zeros 8, #[]⟩ : Traced Region).clear (.ok ()) t' ∧
        t'.Accounts (.zeros 8) [write 2 (.zeros 3), read 0 4, touch 7] := by
  have h : ∀ a ∈ [write 2 (.zeros 3), read 0 4, touch 7], a.InRange (Region.zeros 8).size := by
    decide
  obtain ⟨t', hend, hacc, -⟩ := accounts (t := ⟨.zeros 8, #[]⟩) h
  exact ⟨h, t', hend, hacc⟩

end HostAccess
end LineExchange
