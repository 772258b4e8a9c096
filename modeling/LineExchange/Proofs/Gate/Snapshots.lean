import LineExchange.Proofs.Gate.Exclusion

/-!
# LineExchange.Proofs.Gate.Snapshots

What a snapshot of a gate's counters says about the run it was taken in. The exits are loaded
first, so none is seen without its entry. But the two loads are not one access: all that is
entered between them is seen as in flight, also when it was left again.

* `Race.Taken`: a snapshot, with the moves of the run it was taken in cut at its two loads.
* `Race.snapshots_taken`: every snapshot of a run is one of these.
* `Race.in_flight_spans`: it shows the accessors that were counted at the first load, and all
  entries from there to the second.
* `Race.snapshot_shows_two`, `Race.shows_any_number`: so one accessor alone can be seen twice in
  flight, and any number of times.
* `Race.shows_all_at_once`: two loads with nothing between them can show as many, because an exit
  is counted after the byte was given back.
-/

namespace LineExchange

open ControlByte (isBusy)

namespace Race

variable {ι κ : Type} [DecidableEq ι] [DecidableEq κ] {s : Race ι κ} {byte : UInt8}

theorem run_append (s : Race ι κ) (before after : List (Move ι κ)) :
    s.run (before ++ after) = (s.run before).run after :=
  List.foldl_append

theorem run_concat (s : Race ι κ) (moves : List (Move ι κ)) (m : Move ι κ) :
    s.run (moves ++ [m]) = (s.run moves).step m :=
  run_append s moves [m]

section Moves

variable (m : Move ι κ)

/-- Only a reader's own load changes how far it is. -/
theorem halfway_step {r : κ} (h : m ≠ .load r) : (s.step m).halfway r = s.halfway r := by
  cases m with
  | act a =>
    simp only [step, act]
    split <;> (try split) <;> rfl
  | setReady v => rfl
  | load q =>
    have hne : r ≠ q := fun heq => h (by rw [heq])
    simp only [step, load]
    split <;> simp [hne]

/-- A snapshot is there, or the step completes it. -/
theorem snapshots_step {c : Counters} (h : c ∈ (s.step m).snapshots) :
    c ∈ s.snapshots ∨ ∃ r exits, m = .load r ∧ s.halfway r = some exits ∧
      c = { s.gate.counters with exits } := by
  cases m with
  | act a =>
    left
    simp only [step, act] at h
    split at h <;> (try split at h) <;> exact h
  | setReady v => exact .inl h
  | load r =>
    simp only [step, load] at h
    split at h
    · exact .inl h
    · next exits hr =>
      cases h with
      | head => exact .inr ⟨r, exits, rfl, hr, rfl⟩
      | tail _ h => exact .inl h

theorem entries_step_le (s : Race ι κ) :
    s.gate.counters.entries ≤ (s.step m).gate.counters.entries := by
  cases m with
  | act a =>
    simp only [step, act]
    split <;> (try split) <;> simp
  | setReady v => exact Nat.le_refl _
  | load r =>
    simp only [step, load]
    split <;> exact Nat.le_refl _

end Moves

theorem entries_run_le (s : Race ι κ) (moves : List (Move ι κ)) :
    s.gate.counters.entries ≤ (s.run moves).gate.counters.entries := by
  induction moves generalizing s with
  | nil => exact Nat.le_refl _
  | cons m moves ih => exact (entries_step_le m s).trans (ih (s.step m))

/-- The first load of a reader, the exits it gave, and what was done since without its second. -/
structure Loaded (s : Race ι κ) (r : κ) (exits : Nat) (before between : List (Move ι κ)) :
    Prop where
  first : (s.run before).halfway r = none
  alone : ∀ m ∈ between, m ≠ .load r
  exits : exits = (s.run before).gate.counters.exits

/-- A snapshot that a reader has taken in a run: what was done before its first load, between its
two loads and after the second one. -/
structure Taken (s : Race ι κ) (moves : List (Move ι κ)) (c : Counters) (r : κ)
    (before between after : List (Move ι κ)) : Prop extends Loaded s r c.exits before between where
  split : moves = before ++ .load r :: between ++ .load r :: after
  second : c.entries = (s.run (before ++ .load r :: between)).gate.counters.entries

/-- All readers that are halfway and all snapshots come from loads among the moves. -/
structure Accounted (s : Race ι κ) (moves : List (Move ι κ)) : Prop where
  halfway : ∀ r exits, (s.run moves).halfway r = some exits →
    ∃ before between, moves = before ++ .load r :: between ∧ Loaded s r exits before between
  snapshots : ∀ c ∈ (s.run moves).snapshots, ∃ r before between after,
    Taken s moves c r before between after

theorem Loaded.concat {r : κ} {exits : Nat} {before between : List (Move ι κ)} {m : Move ι κ}
    (h : Loaded s r exits before between) (hm : m ≠ .load r) :
    Loaded s r exits before (between ++ [m]) := by
  refine { h with alone := ?_ }
  intro m' hm'
  rcases List.mem_append.1 hm' with h' | h'
  · exact h.alone m' h'
  · rwa [List.mem_singleton.1 h']

theorem Taken.concat {moves before between after : List (Move ι κ)} {r : κ} {c : Counters}
    (h : Taken s moves c r before between after) (m : Move ι κ) :
    Taken s (moves ++ [m]) c r before between (after ++ [m]) :=
  { h with split := by simp [h.split] }

theorem Accounted.concat {moves : List (Move ι κ)} (h : Accounted s moves) (m : Move ι κ) :
    Accounted s (moves ++ [m]) where
  halfway := by
    intro r exits hr
    rw [run_concat] at hr
    by_cases hm : m = .load r
    · subst hm
      simp only [step, load] at hr
      split at hr
      · next hnone =>
        have hexits : (s.run moves).gate.counters.exits = exits := by simpa using hr
        exact ⟨moves, [], rfl, hnone, by simp, hexits.symm⟩
      · simp at hr
    · rw [halfway_step m hm] at hr
      obtain ⟨before, between, hmoves, hl⟩ := h.halfway r exits hr
      exact ⟨before, between ++ [m], by simp [hmoves], hl.concat hm⟩
  snapshots := by
    intro c hc
    rw [run_concat] at hc
    rcases snapshots_step m hc with hc | ⟨r, exits, rfl, hr, rfl⟩
    · obtain ⟨r, before, between, after, ht⟩ := h.snapshots c hc
      exact ⟨r, before, between, after ++ [m], ht.concat m⟩
    · obtain ⟨before, between, hmoves, hl⟩ := h.halfway r exits hr
      exact ⟨r, before, between, [], { hl with split := by rw [hmoves], second := by rw [hmoves] }⟩

/-- Every snapshot of a run was taken in it, by the two loads of one reader. -/
theorem snapshots_taken (byte : UInt8) (moves : List (Move ι κ)) :
    Accounted (start ι κ byte) moves := by
  induction moves using List.reverseRecOn with
  | nil => exact ⟨by simp [run, start], by simp [run, start]⟩
  | append_singleton moves m ih => exact ih.concat m

/-- **What a snapshot shows.** However accessors, readers and the device interleave at a byte that
nobody holds at first: a snapshot shows the accessors that were counted at its first load, and
besides them all entries that were counted between its two loads, left or not. -/
theorem in_flight_spans [Fintype ι] (h : isBusy byte = false) (moves : List (Move ι κ)) :
    ∀ c ∈ ((start ι κ byte).run moves).snapshots, ∃ r before between after,
      Taken (start ι κ byte) moves c r before between after ∧
      ∃ entered,
        ((start ι κ byte).run (before ++ .load r :: between)).gate.counters.entries =
          ((start ι κ byte).run before).gate.counters.entries + entered ∧
        c.inFlight = ((start ι κ byte).run before).counted + entered := by
  intro c hc
  obtain ⟨r, before, between, after, ht⟩ := (snapshots_taken byte moves).snapshots c hc
  have hfirst := (guarded_run (κ := κ) (guarded_start h) before).balanced
  have hle := entries_run_le ((start ι κ byte).run before) (.load r :: between)
  rw [← run_append] at hle
  obtain ⟨entered, hentered⟩ := Nat.exists_eq_add_of_le hle
  refine ⟨r, before, between, after, ht, entered, hentered, ?_⟩
  have hexits := ht.exits
  have hsecond := ht.second
  rw [Counters.inFlight]
  omega

/-- An accessor alone enters and leaves twice between the two loads. -/
theorem in_flight_spans_two : isBusy 1 = false ∧
    ∀ c ∈ ((start Unit Unit 1).run ([.load ()] ++ List.replicate 10 (.act ()) ++
      [.load ()])).snapshots, ∃ r before between after,
      Taken (start Unit Unit 1)
        ([.load ()] ++ List.replicate 10 (.act ()) ++ [.load ()]) c r before between after ∧
      ∃ entered,
        ((start Unit Unit 1).run (before ++ .load r :: between)).gate.counters.entries =
          ((start Unit Unit 1).run before).gate.counters.entries + entered ∧
        c.inFlight = ((start Unit Unit 1).run before).counted + entered :=
  ⟨by decide, in_flight_spans (by decide) _⟩

/-- So a snapshot may show two critical sections in flight, though there never was more than one
accessor. -/
theorem snapshot_shows_two : ¬ ∀ moves : List (Move Unit Unit),
    ∀ c ∈ ((start Unit Unit 1).run moves).snapshots, c.inFlight ≤ 1 := by
  intro h
  exact absurd (h ([.load ()] ++ List.replicate 10 (.act ()) ++ [.load ()]) ⟨2, 0, 0⟩ (by decide))
    (by decide)

section Shows

/-- What an accessor does that comes alone, enters and leaves. -/
def visit (a : ι) : List (Move ι κ) := List.replicate 5 (.act a)

/-- The race after so many entries and exits that left the byte as it was. -/
def visited (s : Race ι κ) (n : Nat) : Race ι κ :=
  s.withGate ⟨s.gate.byte, { s.gate.counters with
    entries := s.gate.counters.entries + n, exits := s.gate.counters.exits + n }⟩

omit [DecidableEq κ] in
theorem moveTo_same {a : ι} {x : Stage} (h : s.stage a = x) : s.moveTo a x = s := by
  have hsame : (fun b => if b = a then x else s.stage b) = s.stage := by
    funext b
    by_cases hb : b = a <;> simp [hb, h]
  rw [moveTo, hsame]

theorem run_visit {a : ι} (ha : s.stage a = .outside) (h : s.gate.isOpen = true) :
    s.run (visit a) = s.visited 1 := by
  have hbyte := ControlByte.setBusy_false_true (Gate.isOpen_iff.1 h).2
  have hrun : s.run (visit a) = (s.visited 1).moveTo a .outside := by
    simp [visit, run, step, act, ha, h, List.replicate, hbyte, visited]
  rw [hrun]
  exact moveTo_same ha

theorem run_visits {a : ι} (ha : s.stage a = .outside) (h : s.gate.isOpen = true) (n : Nat) :
    s.run (List.replicate n (visit a)).flatten = s.visited n := by
  induction n generalizing s with
  | zero => rfl
  | succ n ih =>
    rw [List.replicate_succ, List.flatten_cons, run_append, run_visit ha h,
      ih (s := s.visited 1) ha h]
    simp only [visited, gate_withGate, withGate_withGate, Nat.add_assoc, Nat.add_comm 1]

/-- With nobody but one accessor, any number can be seen in flight. -/
theorem shows_any_number (h : ControlByte.LetsIn byte) (a : ι) (r : κ) (n : Nat) :
    ((start ι κ byte).run (.load r :: ((List.replicate n (visit a)).flatten ++
      [.load r]))).snapshots.map Counters.inFlight = [n] := by
  have hopen : ((start ι κ byte).load r).gate.isOpen = true := Gate.isOpen_iff.2 h
  have hrun : (start ι κ byte).run (.load r :: ((List.replicate n (visit a)).flatten ++
      [.load r])) = (((start ι κ byte).load r).visited n).load r := by
    rw [← List.cons_append, run_concat]
    exact congrArg (Race.step · (.load r)) (run_visits rfl hopen n)
  rw [hrun]
  simp [load, start, visited, withGate, Counters.inFlight]

/-- Accessors that enter and give the byte back, one after the other, and have yet to count their
exits. -/
def passing (as : List ι) : List (Move ι κ) := as.flatMap fun a => List.replicate 4 (.act a)

theorem entries_run_passing {as : List ι} (has : as.Nodup) (hout : ∀ a ∈ as, s.stage a = .outside)
    (h : s.gate.isOpen = true) :
    (s.run (passing as)).gate.counters =
        { s.gate.counters with entries := s.gate.counters.entries + as.length } ∧
      (s.run (passing as)).halfway = s.halfway ∧
      (s.run (passing as)).snapshots = s.snapshots := by
  induction as generalizing s with
  | nil => exact ⟨rfl, rfl, rfl⟩
  | cons a as ih =>
    obtain ⟨hnew, has⟩ := List.nodup_cons.1 has
    have ha := hout a List.mem_cons_self
    have hbyte := ControlByte.setBusy_false_true (Gate.isOpen_iff.1 h).2
    have hrun : s.run (List.replicate 4 (.act a)) = (s.withGate ⟨s.gate.byte,
        { s.gate.counters with entries := s.gate.counters.entries + 1 }⟩).moveTo a .cleared := by
      simp [run, step, act, ha, h, List.replicate, hbyte]
    rw [passing, List.flatMap_cons, run_append, hrun]
    obtain ⟨hcounters, hhalfway, hsnapshots⟩ := ih has
      (s := (s.withGate ⟨s.gate.byte,
        { s.gate.counters with entries := s.gate.counters.entries + 1 }⟩).moveTo a .cleared)
      (by
        intro b hb
        have hne : b ≠ a := fun heq => hnew (heq ▸ hb)
        simpa [hne] using hout b (List.mem_cons_of_mem _ hb)) h
    refine ⟨hcounters.trans ?_, hhalfway, hsnapshots⟩
    simp only [gate_moveTo, gate_withGate, List.length_cons, Nat.add_assoc, Nat.add_comm 1]

/-- Also with nothing between its two loads a snapshot can show any accessors at once: an exit is
counted after the byte was given back, and by then others have come. -/
theorem shows_all_at_once (h : ControlByte.LetsIn byte) {as : List ι} (has : as.Nodup) (r : κ) :
    ((start ι κ byte).run (passing as ++ [.load r, .load r])).snapshots.map Counters.inFlight =
      [as.length] := by
  obtain ⟨hcounters, hhalfway, hsnapshots⟩ := entries_run_passing (s := start ι κ byte) has
    (fun _ _ => rfl) (Gate.isOpen_iff.2 h)
  rw [run_append]
  generalize (start ι κ byte).run (passing as) = s at *
  simp [run, step, load, hhalfway, hsnapshots, hcounters, start, Counters.inFlight]

end Shows

end Race
end LineExchange
