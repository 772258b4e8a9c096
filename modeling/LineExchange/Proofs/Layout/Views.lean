import LineExchange.Proofs.Header.Lens
import LineExchange.Proofs.Layout.Parts

/-!
# LineExchange.Proofs.Layout.Views

The bytes of a region seen part by part (`Layout.view`). A write to one part leaves the views of
all others alone.

* `Layout.SameBut l core ps b b'`: `b` and `b'` differ at most in the parts `ps` of one window.
* `Layout.sameBut_patch`, `Layout.sameBut_put`: what a write to a part changes.
* `Layout.view_patch`, `Layout.byteAt_put_worker`: what is then found in that part.
-/

namespace LineExchange
namespace Bytes

theorem slice_put_of_disjoint {b : Bytes} {i : Nat} {v : UInt8} {pos len : Nat}
    (h : i < pos ∨ pos + len ≤ i) : (b.put i v).slice pos len = b.slice pos len := by
  refine ext_byteAt (by simp) fun j hj => ?_
  rw [size_slice] at hj
  rw [byteAt_slice, byteAt_slice, if_pos (by omega), if_pos (by omega), byteAt_put,
    if_neg (by omega)]

theorem put_self (b : Bytes) (i : Nat) : b.put i (b.byteAt i) = b := by
  refine ext_byteAt (size_put ..) fun j _ => ?_
  rw [byteAt_put]
  split
  · next h => rw [h.1]
  · rfl

theorem put_put (b : Bytes) (i : Nat) (v w : UInt8) : (b.put i v).put i w = b.put i w := by
  refine ext_byteAt (by simp) fun j _ => ?_
  rw [byteAt_put, byteAt_put, byteAt_put, size_put]
  split <;> rfl

/-- A byte can be replaced before or after other bytes are overwritten. -/
theorem patch_put_comm (b : Bytes) {i start : Nat} {src : Bytes} (v : UInt8)
    (h : i < start ∨ start + src.size ≤ i) :
    (b.put i v).patch start src = (b.patch start src).put i v := by
  by_cases hfits : start + src.size ≤ b.size
  · refine ext_byteAt (by simp) fun j _ => ?_
    rw [byteAt_patch (by rw [size_put]; exact hfits), byteAt_put, byteAt_put, byteAt_patch hfits,
      size_patch]
    by_cases hj : j = i
    · rw [if_neg (show ¬(start ≤ j ∧ j < start + src.size) by omega)]
      rw [if_neg (show ¬(start ≤ j ∧ j < start + src.size) by omega)]
    · rw [if_neg (show ¬(j = i ∧ i < b.size) from fun hp => hj hp.1)]
      rw [if_neg (show ¬(j = i ∧ i < b.size) from fun hp => hj hp.1)]
  · rw [patch, if_neg (by rw [size_put]; exact hfits), patch, if_neg hfits]

theorem patch_empty (b : Bytes) (start : Nat) : b.patch start ByteArray.empty = b := by
  refine ext_byteAt (size_patch ..) fun i _ => ?_
  by_cases h : start + ByteArray.empty.size ≤ b.size
  · rw [byteAt_patch h, if_neg]
    rw [ByteArray.size_empty]
    omega
  · rw [patch, if_neg h]

theorem slice_slice_start (b : Bytes) (start : Nat) {len n : Nat} (h : n ≤ len) :
    (b.slice start len).slice 0 n = b.slice start n := by
  refine ext_byteAt (by simp; omega) fun i hi => ?_
  rw [size_slice] at hi
  rw [byteAt_slice, byteAt_slice, byteAt_slice, if_pos (by omega), if_pos (by omega),
    if_pos (by omega), Nat.zero_add]

theorem slice_len_zero (b : Bytes) (start : Nat) : b.slice start 0 = ByteArray.empty :=
  ext_byteAt (by simp) fun i hi => by simp at hi

end Bytes

namespace Layout

variable {l : Layout} {b b' b'' : Bytes} {core : Nat} {p q : Part}

/-- The bytes of a part of a core's window. -/
def view (l : Layout) (b : Bytes) (core : Nat) (p : Part) : Bytes :=
  b.slice (l.partAt core p) (p.len l)

theorem byteAt_view_worker (b : Bytes) (core : Nat) :
    (l.view b core .worker).byteAt 0 = b.byteAt (l.workerAt core) := by
  have hpos : 0 < lineSize := by decide
  exact (Bytes.byteAt_slice ..).trans (if_pos hpos)

/-- Whether the windows of `cores` cores lie within `size` bytes. -/
def Fits (l : Layout) (cores size : Nat) : Prop :=
  ∀ core, core < cores → ∀ p : Part, l.partAt core p + p.len l ≤ size

theorem fits_of_regionSize (h : l.Ordered) {cores size r : Nat} (hr : l.regionSize cores = some r)
    (hsize : r ≤ size) : l.Fits cores size := by
  intro core hcore p
  have hcores : ¬cores = 0 := by omega
  rw [regionSize, if_neg hcores] at hr
  obtain ⟨-, rfl⟩ := checked?_eq_some.1 hr
  have hlast : core * l.stride.toNat ≤ (cores - 1) * l.stride.toNat :=
    Nat.mul_le_mul_right _ (by omega)
  have hworker : p.offset l + p.len l ≤ l.workerControl.toNat + lineSize := by
    by_cases hp : p = .worker
    · subst hp
      exact Nat.le_refl _
    · have hw : Part.worker.offset l = l.workerControl.toNat := rfl
      have hlen : Part.worker.len l = lineSize := rfl
      have := p.before_worker h hp
      omega
  rw [Nat.mul_comm] at hsize
  unfold partAt coreBase
  omega

/-- A region that has the required size has room for every window if it is smaller than the largest
word, which is asked for where the needed size is no word. -/
theorem fits_of_requiredSize (h : l.Ordered) {cores size : Nat}
    (hsize : l.requiredSize cores ≤ size) (hword : size < wordMax) : l.Fits cores size := by
  unfold requiredSize at hsize
  cases hr : l.regionSize cores with
  | some r =>
    rw [hr] at hsize
    exact l.fits_of_regionSize h hr hsize
  | none =>
    rw [hr] at hsize
    exact absurd hword (Nat.not_lt.2 hsize)

/-- The last worker-control line is where a region of the needed size ends. -/
theorem Fits.regionSize_le {cores size r : Nat} (h : l.Fits cores size)
    (hr : l.regionSize cores = some r) : r ≤ size := by
  unfold regionSize at hr
  split at hr
  · cases hr
    exact Nat.zero_le _
  · obtain ⟨-, rfl⟩ := checked?_eq_some.1 hr
    have hlast : (cores - 1) * l.stride.toNat + l.workerControl.toNat + lineSize ≤ size :=
      h (cores - 1) (by omega) .worker
    rw [Nat.mul_comm]
    omega

/-- The bytes differ at most in the parts `ps` of one window. -/
structure SameBut (l : Layout) (core : Nat) (ps : Part → Prop) (b b' : Bytes) : Prop where
  size : b'.size = b.size
  view : ∀ other q, other ≠ core ∨ ¬ps q → l.view b' other q = l.view b other q

namespace SameBut

variable {ps qs : Part → Prop}

theorem refl (b : Bytes) : SameBut l core ps b b := ⟨rfl, fun _ _ _ => rfl⟩

theorem trans (h : SameBut l core ps b b') (h' : SameBut l core ps b' b'') :
    SameBut l core ps b b'' :=
  ⟨h'.size.trans h.size, fun other q hq => (h'.view other q hq).trans (h.view other q hq)⟩

theorem mono (h : SameBut l core ps b b') (hsub : ∀ q, ps q → qs q) : SameBut l core qs b b' :=
  ⟨h.size, fun other q hq => h.view other q (hq.imp id fun hn hp => hn (hsub q hp))⟩

theorem byteAt_worker (h : SameBut l core ps b b') {other : Nat}
    (hw : other ≠ core ∨ ¬ps .worker) :
    b'.byteAt (l.workerAt other) = b.byteAt (l.workerAt other) := by
  rw [← byteAt_view_worker b', h.view other .worker hw, byteAt_view_worker]

theorem slice_start (h : SameBut l core ps b b') (other : Nat) (q : Part)
    (hq : other ≠ core ∨ ¬ps q) {n : Nat} (hn : n ≤ q.len l) :
    b'.slice (l.partAt other q) n = b.slice (l.partAt other q) n := by
  rw [← Bytes.slice_slice_start _ _ hn, ← Layout.view, h.view other q hq, Layout.view,
    Bytes.slice_slice_start _ _ hn]

end SameBut

theorem sameBut_patch (h : l.Ordered) {src : Bytes} (hsrc : src.size ≤ p.len l)
    (hin : l.partAt core p + p.len l ≤ b.size) :
    SameBut l core (· = p) b (b.patch (l.partAt core p) src) := by
  refine ⟨Bytes.size_patch .., fun other q hq => ?_⟩
  have hne : other ≠ core ∨ q ≠ p := hq
  have := l.partAt_apart h hne
  exact Bytes.slice_patch_of_disjoint (by omega) (by omega)

/-- The control byte lies in no other part. -/
theorem workerAt_apart (h : l.Ordered) (core : Nat) (hp : p ≠ .worker) :
    l.workerAt core < l.partAt core p ∨ l.partAt core p + p.len l ≤ l.workerAt core := by
  have hpos : 0 < lineSize := by decide
  have happart : l.workerAt core + lineSize ≤ l.partAt core p ∨
      l.partAt core p + p.len l ≤ l.workerAt core :=
    l.partAt_apart (p := .worker) h (.inr hp.symm)
  omega

theorem sameBut_put (h : l.Ordered) (b : Bytes) (core : Nat) (v : UInt8) :
    SameBut l core (· = .worker) b (b.put (l.workerAt core) v) := by
  refine ⟨Bytes.size_put .., fun other q hq => ?_⟩
  have hne : other ≠ core ∨ q ≠ .worker := hq
  have hlen : Part.worker.len l = lineSize := rfl
  have hpos : 0 < lineSize := by decide
  have hat : l.partAt core .worker = l.workerAt core := rfl
  have := l.partAt_apart h hne
  exact Bytes.slice_put_of_disjoint (by omega)

theorem byteAt_put_worker (v : UInt8) (hin : l.workerAt core < b.size) :
    (b.put (l.workerAt core) v).byteAt (l.workerAt core) = v := by
  rw [Bytes.byteAt_put, if_pos ⟨rfl, hin⟩]

theorem view_patch {src : Bytes} (hsrc : src.size = p.len l)
    (hin : l.partAt core p + p.len l ≤ b.size) :
    l.view (b.patch (l.partAt core p) src) core p = src := by
  rw [view, ← hsrc]
  exact Bytes.slice_patch_same (by omega)

/-- The bytes after a control line and its overflow bytes were written. -/
def withLine (l : Layout) (core : Nat) (d : Direction) (parity : Bool) (line : Line) (rest : Bytes)
    (b : Bytes) : Bytes :=
  (b.patch (l.overflowAt core d) rest).patch (l.controlAt core d parity) line.bytes

section WithLine

variable (h : l.Ordered) (hfits : ∀ p : Part, l.partAt core p + p.len l ≤ b.size) (d : Direction)
  (parity : Bool) (line : Line) (rest : Bytes)

include h hfits in
theorem sameBut_patch_line : SameBut l core (· = .control d parity)
    (b.patch (l.overflowAt core d) rest) (l.withLine core d parity line rest b) := by
  refine l.sameBut_patch h (Nat.le_of_eq line.size_bytes) ?_
  rw [Bytes.size_patch]
  exact hfits (.control d parity)

variable {rest} (hrest : rest.size ≤ l.overflowSize)

include h hfits hrest in
theorem sameBut_withLine : SameBut l core (fun q => q = .overflow d ∨ q = .control d parity) b
    (l.withLine core d parity line rest b) := by
  have overflow := l.sameBut_patch h hrest (hfits (.overflow d))
  have control := l.sameBut_patch_line h hfits d parity line rest
  exact (overflow.mono fun _ => .inl).trans (control.mono fun _ => .inr)

include h hrest in
/-- The control byte can be replaced before or after. -/
theorem withLine_put (v : UInt8) :
    l.withLine core d parity line rest (b.put (l.workerAt core) v) =
      (l.withLine core d parity line rest b).put (l.workerAt core) v := by
  have hoverflow : l.workerAt core < l.overflowAt core d ∨
      l.overflowAt core d + rest.size ≤ l.workerAt core :=
    (l.workerAt_apart (p := .overflow d) h core (by simp)).imp_right
      (Nat.le_trans (Nat.add_le_add_left hrest (l.overflowAt core d)))
  have hcontrol : l.workerAt core < l.controlAt core d parity ∨
      l.controlAt core d parity + line.bytes.size ≤ l.workerAt core := by
    rw [line.size_bytes]
    exact l.workerAt_apart (p := .control d parity) h core (by simp)
  rw [withLine, Bytes.patch_put_comm _ _ hoverflow, Bytes.patch_put_comm _ _ hcontrol, withLine]

include hfits hrest in
theorem byteAt_withLine_of_outside {i : Nat}
    (hcontrol : i < l.controlAt core d parity ∨ l.controlAt core d parity + lineSize ≤ i)
    (hoverflow : i < l.overflowAt core d ∨ l.overflowAt core d + rest.size ≤ i) :
    (l.withLine core d parity line rest b).byteAt i = b.byteAt i := by
  have hroom : l.overflowAt core d + rest.size ≤ b.size :=
    Nat.le_trans (Nat.add_le_add_left hrest _) (hfits (.overflow d))
  have hline : l.controlAt core d parity + lineSize ≤ b.size := hfits (.control d parity)
  rw [withLine, Bytes.byteAt_patch (by rw [Bytes.size_patch, line.size_bytes]; exact hline),
    if_neg (by rw [line.size_bytes]; omega), Bytes.byteAt_patch hroom, if_neg (by omega)]

variable {d parity line}

include hfits in
theorem view_withLine :
    l.view (l.withLine core d parity line rest b) core (.control d parity) = line.bytes := by
  refine l.view_patch (p := .control d parity) line.size_bytes ?_
  rw [Bytes.size_patch]
  exact hfits (.control d parity)

include h hfits hrest in
theorem slice_withLine :
    (l.withLine core d parity line rest b).slice (l.overflowAt core d) rest.size = rest := by
  have control := l.sameBut_patch_line h hfits d parity line rest
  have hstart := control.slice_start core (.overflow d) (.inr (by simp)) hrest
  rw [l.partAt_overflow] at hstart
  rw [hstart]
  exact Bytes.slice_patch_same (Nat.le_trans (Nat.add_le_add_left hrest _) (hfits (.overflow d)))

end WithLine

end Layout
end LineExchange
