import LineExchange.Proofs.Header.Selected
import LineExchange.Transaction.Record

/-!
# LineExchange.Proofs.Transaction.Contents

Two records of inline bytes are equal if the bytes in use are, though the whole buffers are
compared: no move ever leaves anything behind the bytes in use.

* `InlineBytes.record`: a value without what its type promises. Making, reading and writing a record
  is making, reading and writing the value (`ofBytes?_record`, `write?_record`, `setByte?_record`,
  `setWord_record`, `words_record`).
* `InlineRecord.step?_record`, `InlineRecord.run?_record`: one move, and any moves in order, lead
  from the record of a value to that of a value of the same length.
* `InlineBytes.wordLaws_record`: what writing a word does.
* `Format.inline?_reached`: what is decoded was made and written like any other record.
* `InlineRecord.reached_eq_iff`: the result.
-/

namespace LineExchange

namespace Bytes

theorem chunks_getElem? (b : Bytes) {n : Nat} (hn : 0 < n) (i : Nat) :
    (b.chunks n)[i]? = if n * (i + 1) ≤ b.size then some (b.slice (n * i) n) else none := by
  have hi : i < b.size / n ↔ n * (i + 1) ≤ b.size := by
    rw [Nat.mul_comm]
    exact Nat.le_div_iff_mul_le hn
  rw [chunks, List.getElem?_map]
  by_cases h : i < b.size / n
  · rw [List.getElem?_range h, if_pos (hi.1 h)]
    rfl
  · rw [List.getElem?_eq_none (by simpa using h), if_neg (mt hi.2 h)]
    rfl

end Bytes

namespace InlineBytes

variable {x y : InlineBytes}

/-! ## Numbers in bytes -/

theorem littleEndian_congr {a b : Bytes} {i j : Nat}
    (h : ∀ k, k < 4 → a.byteAt (i + k) = b.byteAt (j + k)) :
    littleEndian a i = littleEndian b j := by
  have h0 : a.byteAt i = b.byteAt j := h 0 (by decide)
  rw [littleEndian, littleEndian, h0, h 1 (by decide), h 2 (by decide), h 3 (by decide)]

theorem toNat_byteAt_wordBytes (w : UInt32) {i : Nat} (hi : i < 4) :
    ((wordBytes w).byteAt i).toNat = w.toNat / 2 ^ (8 * i) % 2 ^ 8 := by
  rw [wordBytes, Bytes.byteAt_ofFn, if_pos hi, UInt8.toNat_ofNat', Nat.shiftRight_eq_div_pow]

theorem littleEndian_wordBytes (w : UInt32) : littleEndian (wordBytes w) 0 = w := by
  have hw := w.toNat_lt
  apply UInt32.toNat_inj.1
  rw [littleEndian, UInt32.toNat_ofNat', toNat_byteAt_wordBytes w (by decide),
    toNat_byteAt_wordBytes w (by decide), toNat_byteAt_wordBytes w (by decide),
    toNat_byteAt_wordBytes w (by decide)]
  omega

theorem size_wordBytes (w : UInt32) : (wordBytes w).size = 4 := Bytes.size_ofFn ..

/-! ## Writes into the bytes in use -/

theorem buffer_patch {start : Nat} {src : Bytes} (h : start + src.size ≤ x.len) :
    (x.patch start src).buffer = x.buffer.patch start src := if_pos h

theorem patch_of_not_fits {start : Nat} {src : Bytes} (h : ¬start + src.size ≤ x.len) :
    x.patch start src = x :=
  ext_toBytes (congrArg (Bytes.slice · 0 x.len) (if_neg h))

theorem byteAt_buffer_patch {start : Nat} {src : Bytes} (h : start + src.size ≤ x.len) (i : Nat) :
    (x.patch start src).buffer.byteAt i =
      if start ≤ i ∧ i < start + src.size then src.byteAt (i - start) else x.buffer.byteAt i := by
  rw [buffer_patch h, Bytes.byteAt_patch (by have := x.len_le; rw [x.size_buffer]; omega)]

theorem toBytes_patch {start : Nat} {src : Bytes} (h : start + src.size ≤ x.len) :
    (x.patch start src).toBytes = x.toBytes.patch start src := by
  refine Bytes.ext_byteAt (by rw [Bytes.size_patch, size_toBytes, size_toBytes]; rfl) fun i _ => ?_
  rw [byteAt_toBytes, byteAt_buffer_patch h, Bytes.byteAt_patch (by rwa [size_toBytes]),
    byteAt_toBytes]

/-- All bytes in use are written over. -/
theorem patch_whole {src : Bytes} (h : src.size = x.len) : x.patch 0 src = take src := by
  have hle := x.len_le
  have hsize : src.size = (x.toBytes.patch 0 src).size := by rw [Bytes.size_patch, size_toBytes, h]
  have hslice : (x.toBytes.patch 0 src).slice 0 src.size = src :=
    Bytes.slice_patch_same (by rw [size_toBytes]; omega)
  rw [hsize, Bytes.slice_zero_size] at hslice
  exact ext_toBytes (by rw [toBytes_patch (by omega), hslice, toBytes_take (by omega)])

theorem fits_wordBytes {i : Nat} {w : UInt32} :
    4 * i + (wordBytes w).size ≤ x.len ↔ 4 * (i + 1) ≤ x.len := by
  rw [size_wordBytes]
  omega

theorem setWord_of_not_fits {i : Nat} (h : ¬4 * (i + 1) ≤ x.len) (w : UInt32) :
    (x.setWord i w).2 = x := patch_of_not_fits (mt fits_wordBytes.1 h)

/-- Only the four bytes of the word are written. -/
theorem byteAt_setWord_apart {i k : Nat} (hk : k < 4 * i ∨ 4 * (i + 1) ≤ k) (w : UInt32) :
    (x.setWord i w).2.buffer.byteAt k = x.buffer.byteAt k := by
  by_cases h : 4 * (i + 1) ≤ x.len
  · refine (byteAt_buffer_patch (fits_wordBytes.2 h) k).trans (if_neg ?_)
    rw [size_wordBytes]
    omega
  · rw [setWord_of_not_fits h]

theorem word?_setWord_same {i : Nat} (h : 4 * (i + 1) ≤ x.len) (w : UInt32) :
    (x.setWord i w).2.word? i = some w := by
  have hread : littleEndian (x.setWord i w).2.buffer (4 * i) = littleEndian (wordBytes w) 0 := by
    refine littleEndian_congr fun k hk => ?_
    refine (byteAt_buffer_patch (fits_wordBytes.2 h) _).trans ?_
    rw [size_wordBytes, if_pos (by omega), Nat.add_sub_cancel_left, Nat.zero_add]
  rw [littleEndian_wordBytes] at hread
  exact (if_pos h).trans (congrArg some hread)

theorem word?_setWord_other {i j : Nat} (hj : j ≠ i) (w : UInt32) :
    (x.setWord i w).2.word? j = x.word? j :=
  ite_congr rfl (fun _ => congrArg some (littleEndian_congr fun _ _ =>
    byteAt_setWord_apart (by omega) w)) fun _ => rfl

/-! ## Values and their records -/

/-- The value without what is known of it. -/
def record (x : InlineBytes) : InlineRecord := ⟨x.buffer, .ofNat x.len⟩

theorem toNat_len_record (x : InlineBytes) : x.record.len.toNat = x.len :=
  UInt8.toNat_ofNat_of_lt' (Nat.lt_of_le_of_lt x.len_le (by decide))

theorem contents_record (x : InlineBytes) : x.record.contents = x.toBytes := by
  rw [InlineRecord.contents, toNat_len_record]
  rfl

theorem record_eq_iff : x.record = y.record ↔ x.record.contents = y.record.contents := by
  refine ⟨fun h => by rw [h], fun h => ?_⟩
  rw [contents_record, contents_record] at h
  rw [ext_toBytes h]

theorem record_zeroed (n : Nat) : (zeroed n).record = .zeroed n := rfl

theorem update_record (h : y.len = x.len) : x.record.update y.toBytes = y.record := by
  have hsize : 0 + y.toBytes.size ≤ x.buffer.size := by
    rw [size_toBytes, x.size_buffer, Nat.zero_add]
    exact y.len_le
  have hbuffer : x.buffer.patch 0 y.toBytes = y.buffer := by
    refine Bytes.ext_byteAt (by rw [Bytes.size_patch, x.size_buffer, y.size_buffer]) fun i _ => ?_
    rw [Bytes.byteAt_patch hsize, size_toBytes, byteAt_toBytes, Nat.sub_zero, Nat.zero_add]
    by_cases hi : i < y.len
    · rw [if_pos ⟨Nat.zero_le i, hi⟩]
    · rw [if_neg fun hin => hi hin.2, x.byteAt_of_len_le i (h ▸ Nat.not_lt.1 hi),
        y.byteAt_of_len_le i (Nat.not_lt.1 hi)]
  simp only [record, InlineRecord.update, hbuffer, h]

theorem ofBytes?_record (b : Bytes) : InlineRecord.ofBytes? b = (ofBytes? b).map record := by
  by_cases hb : b.size ≤ headerSize
  · have hlen : (take b).len = (zeroed b.size).len := rfl
    have hupdate := update_record hlen
    rw [toBytes_take hb, record_zeroed] at hupdate
    rw [InlineRecord.ofBytes?, if_neg (Nat.not_lt.2 hb), hupdate, ofBytes?, if_pos hb]
    rfl
  · rw [InlineRecord.ofBytes?, if_pos (Nat.not_le.1 hb), ofBytes?, if_neg hb]
    rfl

theorem update_patch {start : Nat} {src : Bytes} (h : start + src.size ≤ x.len) :
    x.record.update (x.toBytes.patch start src) = (x.patch start src).record := by
  rw [← toBytes_patch h]
  exact update_record rfl

theorem write?_record (x : InlineBytes) (start : Nat) (src : Bytes) :
    x.record.write? start src =
      if start + src.size ≤ x.len then some (x.patch start src).record else none := by
  rw [InlineRecord.write?, contents_record, size_toBytes]
  exact ite_congr rfl (fun h => congrArg some (update_patch h)) fun _ => rfl

/-- Writing one byte is writing a run of one. -/
theorem setByte?_record (x : InlineBytes) (i : Nat) (v : UInt8) :
    x.record.write? i (.replicate 1 v) = (x.setByte? i v).map record := by
  rw [write?_record, Bytes.size_replicate, setByte?]
  by_cases h : i < x.len
  · rw [if_pos h, if_pos (Nat.succ_le_of_lt h)]
    rfl
  · rw [if_neg h, if_neg (mt Nat.lt_of_succ_le h)]
    rfl

theorem setWord_record (x : InlineBytes) (i : Nat) (w : UInt32) :
    x.record.setWord i w = ((x.setWord i w).1, (x.setWord i w).2.record) := by
  rw [InlineRecord.setWord, contents_record, Bytes.chunks_getElem? _ (by decide), size_toBytes]
  by_cases h : 4 * (i + 1) ≤ x.len
  · rw [if_pos h, update_patch (fits_wordBytes.2 h)]
    simp [setWord, h]
  · rw [if_neg h]
    simp [setWord, h, patch_of_not_fits (mt fits_wordBytes.1 h)]

theorem word?_record (x : InlineBytes) (i : Nat) : x.record.word? i = x.word? i := by
  rw [InlineRecord.word?, contents_record, Bytes.chunks_getElem? _ (by decide), size_toBytes, word?]
  by_cases h : 4 * (i + 1) ≤ x.len
  · rw [if_pos h, if_pos h]
    refine congrArg some (littleEndian_congr fun k hk => ?_)
    rw [Bytes.byteAt_slice, Nat.zero_add, if_pos hk, byteAt_toBytes]
  · rw [if_neg h, if_neg h]
    rfl

theorem words_record (x : InlineBytes) : x.record.words = x.words := by
  rw [InlineRecord.words, contents_record, Bytes.chunks, size_toBytes, words, List.map_map]
  refine List.map_congr_left fun i _ => littleEndian_congr fun k hk => ?_
  rw [Bytes.byteAt_slice, Nat.zero_add, if_pos hk, byteAt_toBytes]

/-- The record is that of the value, and whatever is done to one can as well be done to the other. -/
structure Recorded (x : InlineBytes) (r : InlineRecord) : Prop where
  record : x.record = r
  contents : r.contents = x.toBytes
  word : ∀ i, r.word? i = x.word? i
  words : r.words = x.words
  setWord : ∀ i w, r.setWord i w = ((x.setWord i w).1, (x.setWord i w).2.record)
  setByte : ∀ i v, r.write? i (.replicate 1 v) = (x.setByte? i v).map (·.record)
  write : ∀ start src, r.write? start src =
    if start + src.size ≤ x.len then some (x.patch start src).record else none

theorem recorded (x : InlineBytes) : x.Recorded x.record :=
  ⟨rfl, contents_record x, word?_record x, words_record x, setWord_record x, setByte?_record x,
    write?_record x⟩

end InlineBytes

namespace InlineRecord

variable {r s : InlineRecord}

/-! ## What a record comes to -/

/-- The bytes in use have room in the buffer, and behind them it is zero. -/
structure Clean (r : InlineRecord) : Prop where
  size_buffer : r.buffer.size = headerSize
  len_le : r.len.toNat ≤ headerSize
  byteAt_of_len_le : ∀ i, r.len.toNat ≤ i → r.buffer.byteAt i = 0

theorem clean_iff : r.Clean ↔ ∃ x : InlineBytes, x.record = r := by
  constructor
  · intro h
    refine ⟨⟨r.buffer, r.len.toNat, h.size_buffer, h.len_le, h.byteAt_of_len_le⟩, ?_⟩
    simp only [InlineBytes.record, UInt8.ofNat_toNat]
  · rintro ⟨x, rfl⟩
    have hlen := x.toNat_len_record
    exact ⟨x.size_buffer, hlen ▸ x.len_le, fun i hi => x.byteAt_of_len_le i (hlen ▸ hi)⟩

/-- A new record. -/
def Made (r : InlineRecord) : Prop := (∃ n, r = zeroed n) ∨ ∃ b, ofBytes? b = some r

/-- A new record, after any moves that have a result. -/
def Reached (r : InlineRecord) : Prop := ∃ start moves, Made start ∧ start.run? moves = some r

theorem exists_of_made (h : r.Made) : ∃ x : InlineBytes, x.record = r := by
  obtain ⟨n, rfl⟩ | ⟨b, hb⟩ := h
  · exact ⟨.zeroed n, InlineBytes.record_zeroed n⟩
  · rw [InlineBytes.ofBytes?_record, Option.map_eq_some_iff] at hb
    obtain ⟨x, _, hx⟩ := hb
    exact ⟨x, hx⟩

theorem step?_record {x : InlineBytes} {m : Move} (h : x.record.step? m = some r) :
    ∃ y : InlineBytes, y.len = x.len ∧ y.record = r := by
  cases m with
  | word i w =>
    rw [step?, InlineBytes.setWord_record, Option.some_inj] at h
    exact ⟨(x.setWord i w).2, rfl, h⟩
  | bytes start src =>
    rw [step?, InlineBytes.write?_record] at h
    obtain ⟨_, h⟩ := Option.ite_none_right_eq_some.1 h
    exact ⟨x.patch start src, rfl, Option.some_inj.1 h⟩

theorem run?_record {moves : List Move} {x : InlineBytes} (h : x.record.run? moves = some r) :
    ∃ y : InlineBytes, y.len = x.len ∧ y.record = r := by
  induction moves generalizing x with
  | nil => exact ⟨x, rfl, Option.some_inj.1 h⟩
  | cons m moves ih =>
    rw [run?, List.foldlM_cons] at h
    obtain ⟨s, hstep, hrun⟩ := Option.bind_eq_some_iff.1 h
    obtain ⟨y, hlen, rfl⟩ := step?_record hstep
    obtain ⟨z, hz, hr⟩ := ih hrun
    exact ⟨z, hz.trans hlen, hr⟩

theorem Reached.exists_record (h : r.Reached) : ∃ x : InlineBytes, x.record = r := by
  obtain ⟨start, moves, hmade, hrun⟩ := h
  obtain ⟨x, rfl⟩ := exists_of_made hmade
  obtain ⟨y, _, hy⟩ := run?_record hrun
  exact ⟨y, hy⟩

theorem Reached.run? (h : r.Reached) {moves : List Move} (hrun : r.run? moves = some s) :
    s.Reached := by
  obtain ⟨start, before, hmade, hr⟩ := h
  refine ⟨start, before ++ moves, hmade, ?_⟩
  rw [InlineRecord.run?, List.foldlM_append]
  exact Option.bind_eq_some_iff.2 ⟨r, hr, hrun⟩

/-! ## Its words -/

/-- What writing a word does, and which words there are. -/
structure WordLaws (r : InlineRecord) : Prop where
  set_iff : ∀ i w, (r.setWord i w).1 = true ↔ 4 * (i + 1) ≤ r.len.toNat
  refused : ∀ i w, (r.setWord i w).1 = false → (r.setWord i w).2 = r
  same : ∀ i w, (r.setWord i w).1 = true → (r.setWord i w).2.word? i = some w
  other : ∀ i w j, j ≠ i → (r.setWord i w).2.word? j = r.word? j
  /-- Only the four bytes of the word are written. -/
  apart : ∀ i w k, k < 4 * i ∨ 4 * (i + 1) ≤ k →
    (r.setWord i w).2.contents.byteAt k = r.contents.byteAt k
  /-- The bytes behind the last word, whichever word is written. -/
  trailing : ∀ i w k, 4 * (r.len.toNat / 4) ≤ k →
    (r.setWord i w).2.contents.byteAt k = r.contents.byteAt k
  words : r.words.map some = (List.range (r.len.toNat / 4)).map r.word?

end InlineRecord

namespace InlineBytes

theorem wordLaws_record (x : InlineBytes) : x.record.WordLaws := by
  have hlen := x.toNat_len_record
  have hbyte (i : Nat) (w : UInt32) (k : Nat) : (x.record.setWord i w).2.contents.byteAt k =
      (x.setWord i w).2.buffer.byteAt k := by
    rw [setWord_record, contents_record, byteAt_toBytes]
  have hold (k : Nat) : x.record.contents.byteAt k = x.buffer.byteAt k := by
    rw [contents_record, byteAt_toBytes]
  constructor
  case set_iff =>
    intro i w
    rw [setWord_record, hlen]
    exact decide_eq_true_iff
  case refused =>
    intro i w h
    rw [setWord_record] at h ⊢
    exact congrArg record (setWord_of_not_fits (of_decide_eq_false h) w)
  case same =>
    intro i w h
    rw [setWord_record] at h ⊢
    rw [word?_record, word?_setWord_same (of_decide_eq_true h)]
  case other =>
    intro i w j hj
    rw [setWord_record, word?_record, word?_record, word?_setWord_other hj]
  case apart =>
    intro i w k hk
    rw [hbyte, hold, byteAt_setWord_apart hk]
  case trailing =>
    intro i w k hk
    rw [hbyte, hold]
    rw [hlen] at hk
    by_cases h : 4 * (i + 1) ≤ x.len
    · exact byteAt_setWord_apart (.inr (by omega)) w
    · rw [setWord_of_not_fits h]
  case words =>
    rw [words_record, words, hlen, List.map_map]
    refine List.map_congr_left fun i hi => ?_
    have hin : 4 * (i + 1) ≤ x.len := by
      rw [List.mem_range] at hi
      omega
    rw [word?_record]
    exact (if_pos hin).symm

end InlineBytes

/-! ## What a header carries -/

/-- The inline bytes of a transaction, if its kind has any. -/
def Transaction.inline? : Transaction → Option InlineBytes
  | bypass _ header => some header
  | call rpc => some rpc.words
  | reply rpc => some rpc.words
  | error _ => none

namespace Format

variable {f : Format}

/-- Zeros, as many as the window has bytes, and the bytes of the window written over them. -/
theorem record_window {start n : Nat} (l : Line) (h : start + n ≤ headerSize) :
    (InlineRecord.zeroed n).write? 0 (l.bytes.slice start n) =
      some (InlineBytes.take (l.bytes.slice start n)).record := by
  have hsize := size_window l h
  have hlen : (InlineBytes.zeroed n).len = n := Nat.min_eq_left (by omega)
  rw [← InlineBytes.record_zeroed, InlineBytes.write?_record, hlen, hsize, if_pos (by omega),
    InlineBytes.patch_whole (hsize.trans hlen.symm)]

theorem inline?_reached (ha : f.Accepted) (l : Line) {x : InlineBytes}
    (hx : (f.transactionOf l).inline? = some x) :
    ∃ start n, (InlineRecord.zeroed n).run? [.bytes 0 (l.bytes.slice start n)] = some x.record := by
  have window {start n : Nat} (h : start + n ≤ headerSize) :
      (InlineRecord.zeroed n).run? [.bytes 0 (l.bytes.slice start n)] =
        some (InlineBytes.take (l.bytes.slice start n)).record := by
    rw [InlineRecord.run?, List.foldlM_cons, InlineRecord.step?, record_window l h]
    rfl
  have args : x = (f.rpcOf l).words → ∃ start n,
      (InlineRecord.zeroed n).run? [.bytes 0 (l.bytes.slice start n)] = some x.record := by
    rintro rfl
    exact ⟨_, _, window ha.args_le⟩
  unfold transactionOf at hx
  dsimp only at hx
  split at hx
  · obtain rfl := Option.some_inj.1 hx
    exact ⟨_, _, window (Nat.le_trans (Nat.add_le_add_left (f.headerLen_le _) _) ha.bypass_le)⟩
  · split at hx
    · exact args (Option.some_inj.1 hx).symm
    · split at hx
      · exact args (Option.some_inj.1 hx).symm
      · cases hx

end Format

namespace InlineRecord

variable {r : InlineRecord}

/-- **Equality of inline bytes is equality of the bytes in use.** A record that was made of zeros or
of given bytes and then written in any way is clean, the record of a value, and keeps its length
whatever is done to it. It equals another such record, decoded ones too, exactly if their contents
are the same. Writing a word succeeds exactly if the record has that word, changes its four bytes
only, and otherwise nothing. -/
theorem reached_eq_iff (hr : r.Reached) :
    r.Clean ∧ r.WordLaws ∧ (∃ x : InlineBytes, x.Recorded r) ∧
      (∀ moves s, r.run? moves = some s → s.Reached ∧ s.len = r.len) ∧
      (∀ s : InlineRecord, s.Reached → (r = s ↔ r.contents = s.contents)) ∧
      ∀ (f : Format) (l : Line) (x : InlineBytes), f.check = .ok () →
        (f.transactionOf l).inline? = some x → x.record.Reached := by
  obtain ⟨x, rfl⟩ := hr.exists_record
  refine ⟨clean_iff.2 ⟨x, rfl⟩, x.wordLaws_record, ⟨x, x.recorded⟩,
    fun moves s hrun => ⟨hr.run? hrun, ?_⟩, fun s hs => ?_, fun f l y hf hy => ?_⟩
  · obtain ⟨y, hlen, rfl⟩ := run?_record hrun
    rw [← UInt8.toNat_inj, y.toNat_len_record, x.toNat_len_record, hlen]
  · obtain ⟨y, rfl⟩ := hs.exists_record
    exact InlineBytes.record_eq_iff
  · obtain ⟨start, n, hrun⟩ := Format.inline?_reached (Format.check_eq_ok.1 hf) l hy
    exact ⟨_, _, .inl ⟨n, rfl⟩, hrun⟩

/-- Ten bytes, with two whole words of them and a rest. -/
theorem reached_eq_iff_ten : ((zeroed 10).setWord 1 7).2.Reached ∧
    ((zeroed 10).setWord 1 7).2.Clean ∧ ((zeroed 10).setWord 1 7).2.WordLaws := by
  have hr : ((zeroed 10).setWord 1 7).2.Reached :=
    ⟨zeroed 10, [.word 1 7], .inl ⟨10, rfl⟩, rfl⟩
  exact ⟨hr, (reached_eq_iff hr).1, (reached_eq_iff hr).2.1⟩

end InlineRecord
end LineExchange
