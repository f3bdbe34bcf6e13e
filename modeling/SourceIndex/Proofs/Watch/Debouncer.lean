import Mathlib
import SourceIndex.Proofs.Path.Map
import SourceIndex.Watch.Debouncer

/-! # What a debouncer holds back

The history of a run lists the events that were recorded and the files that were let go, in order
(`Debouncer.Run`). A file waits exactly if it was recorded after it was last let go, and what is kept
of it is the time of its last event (`Debouncer.Run.holds`).

Files are let go for one of two reasons, which `Debouncer.letsGo` puts together: many of them wait, or
the one at hand is quiet. So a file that is not let go keeps its time, and some file is let go exactly
if the next deadline has come, or many files wait (`Debouncer.Run.takeReady_answers`).
-/

set_option autoImplicit false

namespace SourceIndex

/-- The value of a path is that of an entry with its parts. -/
theorem PathMap.Sorted.get?_eq_some_iff {β : Type} {m : PathMap β} (h : m.Sorted) {p : Path} {v : β} :
    m.get? p = some v ↔ ∃ k, (k, v) ∈ m.entries ∧ k.parts = p.parts :=
  ⟨exists_mem_of_get?, fun ⟨_, hk, hparts⟩ => h.get?_of_mem hk hparts⟩

namespace Debouncer

/-! ## Histories -/

/-- What happens to a debouncer. -/
inductive Event where
  /-- An event on a file came in. -/
  | recorded (path : Path) (time : Nat)
  /-- Files were let go. -/
  | returned (paths : List Path)

namespace Event

/-- An event on a path, in some spelling, at a time. -/
def Records (e : Event) (p : Path) (time : Nat) : Prop :=
  ∃ q, e = .recorded q time ∧ q.parts = p.parts

/-- A path is among those let go, in some spelling. -/
def Returns (e : Event) (p : Path) : Prop := ∃ qs, e = .returned qs ∧ ∃ q ∈ qs, q.parts = p.parts

@[simp] theorem records_recorded {q p : Path} {time time' : Nat} :
    (recorded q time).Records p time' ↔ time = time' ∧ q.parts = p.parts := by
  simp [Records]

@[simp] theorem not_records_returned {qs : List Path} {p : Path} {time : Nat} :
    ¬ (returned qs).Records p time := by
  simp [Records]

@[simp] theorem not_returns_recorded {q p : Path} {time : Nat} : ¬ (recorded q time).Returns p := by
  simp [Returns]

@[simp] theorem returns_returned {qs : List Path} {p : Path} :
    (returned qs).Returns p ↔ ∃ q ∈ qs, q.parts = p.parts := by
  simp [Returns]

end Event

/-- Some entry of a history is good, and none after it is bad. -/
def Since (history : List Event) (good bad : Event → Prop) : Prop :=
  ∃ before e after, history = before ++ e :: after ∧ good e ∧ ∀ x ∈ after, ¬ bad x

/-- A path was recorded after it was last let go. -/
def Waits (history : List Event) (p : Path) : Prop :=
  Since history (fun e => ∃ time, e.Records p time) (·.Returns p)

/-- The last that happened to a path is that it was recorded, at a time. -/
def LastAt (history : List Event) (p : Path) (time : Nat) : Prop :=
  Since history (·.Records p time) fun e => (∃ time', e.Records p time') ∨ e.Returns p

variable {window maxBatch now time : Nat} {history : List Event} {d : Debouncer} {e : Event} {p : Path}

theorem not_since_nil {good bad : Event → Prop} : ¬ Since [] good bad := by
  rintro ⟨before, e, after, h, -, -⟩
  simp at h

theorem since_concat {good bad : Event → Prop} :
    Since (history ++ [e]) good bad ↔ good e ∨ (Since history good bad ∧ ¬ bad e) := by
  constructor
  · rintro ⟨before, x, after, h, hgood, hbad⟩
    rcases List.eq_nil_or_concat after with rfl | ⟨since, y, rfl⟩
    · obtain ⟨-, hx⟩ := List.append_inj' h rfl
      cases hx
      exact .inl hgood
    · have hlast : history ++ [e] = (before ++ x :: since) ++ [y] := by simpa using h
      obtain ⟨rfl, hy⟩ := List.append_inj' hlast rfl
      cases hy
      exact .inr ⟨⟨before, x, since, rfl, hgood, fun z hz => hbad z (by simp [hz])⟩, hbad e (by simp)⟩
  · rintro (hgood | ⟨⟨before, x, since, rfl, hgood, hbad⟩, hlast⟩)
    · exact ⟨history, e, [], rfl, hgood, by simp⟩
    · refine ⟨before, x, since ++ [e], by simp, hgood, fun z hz => ?_⟩
      rcases List.mem_append.mp hz with hz | hz
      · exact hbad z hz
      · obtain rfl := List.mem_singleton.mp hz
        exact hlast

/-- A path waits if the last that happened to it is that it was recorded. -/
theorem waits_iff : Waits history p ↔ ∃ time, LastAt history p time := by
  induction history using List.reverseRecOn with
  | nil => simp [Waits, LastAt, not_since_nil]
  | append_singleton history e ih =>
      simp only [Waits, LastAt] at ih
      simp only [Waits, LastAt, since_concat, ih]
      by_cases hrecords : ∃ time, e.Records p time
      · simp [hrecords]
      · simp [not_exists.mp hrecords]

theorem LastAt.exists_recorded (h : LastAt history p time) : ∃ q, .recorded q time ∈ history := by
  obtain ⟨before, e, after, rfl, ⟨q, rfl, -⟩, -⟩ := h
  exact ⟨q, by simp⟩

/-! ## Letting files go -/

/-- Whether a file is let go whose last event was at a time. -/
def letsGo (d : Debouncer) (now last : Nat) : Bool :=
  decide (d.maxBatch ≤ d.pending.size) || d.isQuiet now last

/-- The files that are let go, and those that are kept. -/
theorem takeReady_eq (d : Debouncer) (now : Nat) :
    d.takeReady now = ((d.pending.entries.filter fun e => d.letsGo now e.2).map (·.1),
      { d with pending := ⟨d.pending.entries.filter fun e => !d.letsGo now e.2⟩ }) := by
  rw [takeReady]
  split
  · rename_i hmany
    simp [letsGo, hmany, PathMap.keys, PathMap.empty]
  · rename_i hfew
    simp [letsGo, hfew, List.partition_eq_filter_filter, Function.comp_def]

/-- What is kept keeps its time. -/
theorem get?_takeReady (h : d.pending.Sorted) :
    (d.takeReady now).2.pending.get? p = some time ↔
      d.pending.get? p = some time ∧ d.letsGo now time = false := by
  have hkept : (d.takeReady now).2.pending.Sorted := by
    rw [takeReady_eq]
    exact List.Pairwise.filter _ h
  rw [hkept.get?_eq_some_iff, h.get?_eq_some_iff, takeReady_eq]
  simp only [List.mem_filter, Bool.not_eq_true']
  grind

theorem mem_takeReady (h : d.pending.Sorted) :
    (∃ q ∈ (d.takeReady now).1, q.parts = p.parts) ↔
      ∃ time, d.pending.get? p = some time ∧ d.letsGo now time = true := by
  simp only [h.get?_eq_some_iff, takeReady_eq, List.mem_map, List.mem_filter]
  grind

/-! ## Runs -/

/-- A run of a debouncer with its history. -/
inductive Run (window maxBatch : Nat) : List Event → Debouncer → Prop where
  | start : Run window maxBatch [] (make window maxBatch)
  | record {history : List Event} {d : Debouncer} (path : Path) (time : Nat) :
      Run window maxBatch history d →
      Run window maxBatch (history ++ [.recorded path time]) (d.record path time)
  | takeReady {history : List Event} {d : Debouncer} (now : Nat) :
      Run window maxBatch history d →
      Run window maxBatch (history ++ [.returned (d.takeReady now).1]) (d.takeReady now).2

/-- What a debouncer holds after some history. -/
structure Holds (window maxBatch : Nat) (history : List Event) (d : Debouncer) : Prop where
  window_eq : d.window = window
  maxBatch_eq : d.maxBatch = max 1 maxBatch
  sorted : d.pending.Sorted
  get?_iff : ∀ p time, d.pending.get? p = some time ↔ LastAt history p time

theorem Holds.record (h : Holds window maxBatch history d) (path : Path) (time : Nat) :
    Holds window maxBatch (history ++ [.recorded path time]) (d.record path time) where
  window_eq := h.window_eq
  maxBatch_eq := h.maxBatch_eq
  sorted := PathMap.sorted_insert h.sorted path time
  get?_iff p time' := by
    rw [Debouncer.record, PathMap.get?_insert, LastAt, since_concat]
    by_cases hparts : path.parts = p.parts
    · simp [hparts]
    · simpa [hparts, LastAt] using h.get?_iff p time'

theorem Holds.takeReady (h : Holds window maxBatch history d) (now : Nat) :
    Holds window maxBatch (history ++ [.returned (d.takeReady now).1]) (d.takeReady now).2 where
  window_eq := by
    rw [takeReady_eq]
    exact h.window_eq
  maxBatch_eq := by
    rw [takeReady_eq]
    exact h.maxBatch_eq
  sorted := by
    rw [takeReady_eq]
    exact List.Pairwise.filter _ h.sorted
  get?_iff p time := by
    rw [get?_takeReady h.sorted, LastAt, since_concat]
    simp only [Event.not_records_returned, Event.returns_returned, mem_takeReady h.sorted,
      exists_false, false_or]
    rw [← LastAt, ← h.get?_iff]
    -- a path has one time at most
    grind

theorem Run.holds (h : Run window maxBatch history d) : Holds window maxBatch history d := by
  induction h with
  | start =>
      refine ⟨rfl, rfl, PathMap.sorted_empty, fun p time => ?_⟩
      exact iff_of_false (by simp [make, PathMap.empty, PathMap.get?]) not_since_nil
  | record path time _ ih => exact ih.record path time
  | takeReady now _ ih => exact ih.takeReady now

/-! ## What is let go -/

/-- The next deadline has come if it has come for some file. -/
theorem deadline_le_iff :
    (∃ deadline, d.nextDeadline = some deadline ∧ deadline ≤ now) ↔
      ∃ e ∈ d.pending.entries, e.2 + d.window ≤ now := by
  rw [nextDeadline]
  constructor
  · rintro ⟨deadline, hdeadline, hle⟩
    obtain ⟨first, hfirst, rfl⟩ := Option.map_eq_some_iff.mp hdeadline
    obtain ⟨hmem, -⟩ := List.min?_eq_some_iff.mp hfirst
    obtain ⟨e, he, rfl⟩ := List.mem_map.mp hmem
    exact ⟨e, he, hle⟩
  · rintro ⟨e, he, hle⟩
    have hmem : e.2 ∈ d.pending.entries.map (·.2) := List.mem_map_of_mem he
    cases hfirst : (d.pending.entries.map (·.2)).min? with
    | none =>
        rw [List.min?_eq_none_iff.mp hfirst] at hmem
        cases hmem
    | some first =>
        have hmin := (List.min?_eq_some_iff.mp hfirst).2 _ hmem
        exact ⟨first + d.window, rfl, by omega⟩

/-- After any history a file waits exactly if it was recorded after it was last let go. If enough files
wait all of them are let go; otherwise exactly those whose last event is long enough ago, and the
others keep their times. Some file is let go then exactly if the next deadline has come. -/
theorem Run.takeReady_answers (h : Run window maxBatch history d)
    (hnow : ∀ q time, .recorded q time ∈ history → time ≤ now) :
    (d.pending.keys.map Path.parts).Nodup ∧
    (∀ p, d.pending.contains p = true ↔ Waits history p) ∧
    (max 1 maxBatch ≤ d.pending.size →
      (d.takeReady now).1 = d.pending.keys ∧ (d.takeReady now).2.isEmpty = true) ∧
    (d.pending.size < max 1 maxBatch →
      (d.takeReady now).1.Sublist d.pending.keys ∧
      (∀ p, (∃ q ∈ (d.takeReady now).1, q.parts = p.parts) ↔
        ∃ time, LastAt history p time ∧ time + window ≤ now) ∧
      (∀ p time, (d.takeReady now).2.pending.get? p = some time ↔
        LastAt history p time ∧ now < time + window) ∧
      ((d.takeReady now).1 ≠ [] ↔
        ∃ deadline, d.nextDeadline = some deadline ∧ deadline ≤ now)) := by
  have hholds := h.holds
  refine ⟨hholds.sorted.nodup_parts, fun p => ?_, fun hmany => ?_, fun hfew => ?_⟩
  · rw [waits_iff, PathMap.contains_eq, Option.isSome_iff_exists]
    exact exists_congr fun time => hholds.get?_iff p time
  · rw [← hholds.maxBatch_eq] at hmany
    simp [Debouncer.takeReady, hmany, isEmpty, PathMap.isEmpty, PathMap.empty]
  · have hletsGo : ∀ last, last ≤ now → (d.letsGo now last = true ↔ last + window ≤ now) := by
      intro last hlast
      rw [← hholds.maxBatch_eq] at hfew
      simp only [letsGo, isQuiet, hholds.window_eq, Bool.or_eq_true, decide_eq_true_eq]
      omega
    have htime : ∀ p time, LastAt history p time → (d.letsGo now time = true ↔ time + window ≤ now) := by
      intro p time hlast
      obtain ⟨q, hq⟩ := hlast.exists_recorded
      exact hletsGo time (hnow q time hq)
    refine ⟨?_, fun p => ?_, fun p time => ?_, ?_⟩
    · rw [takeReady_eq]
      exact List.filter_sublist.map _
    · rw [mem_takeReady hholds.sorted]
      refine exists_congr fun time => ?_
      rw [hholds.get?_iff]
      exact and_congr_right fun hlast => htime p time hlast
    · rw [get?_takeReady hholds.sorted, hholds.get?_iff, ← Bool.not_eq_true]
      exact and_congr_right fun hlast => by rw [htime p time hlast, Nat.not_le]
    · rw [deadline_le_iff, takeReady_eq, hholds.window_eq]
      simp only [ne_eq, List.map_eq_nil_iff, List.filter_eq_nil_iff, not_forall, not_not]
      refine exists_congr fun e => ?_
      rw [exists_prop]
      refine and_congr_right fun he => htime e.1 e.2 ?_
      exact (hholds.get?_iff _ _).mp (hholds.sorted.get?_of_mem he rfl)

/-- Of two files that wait, the first one is quiet. -/
theorem takeReady_two_files : ∃ history d, Run 100 10 history d ∧ d.nextDeadline = some 100 ∧
    (d.takeReady 100).1 ≠ [] := by
  have hrun := ((Run.start : Run 100 10 _ _).record ⟨"a.rs"⟩ 0).record ⟨"b.rs"⟩ 80
  have hdeadline : (((make 100 10).record ⟨"a.rs"⟩ 0).record ⟨"b.rs"⟩ 80).nextDeadline = some 100 := rfl
  have hnow : ∀ q time, .recorded q time ∈ ([] ++ [.recorded ⟨"a.rs"⟩ 0] ++ [.recorded ⟨"b.rs"⟩ 80] :
      List Event) → time ≤ 100 := by
    intro q time hmem
    simp only [List.nil_append, List.singleton_append, List.mem_cons, List.not_mem_nil, or_false,
      Event.recorded.injEq] at hmem
    omega
  have hanswers := hrun.takeReady_answers hnow
  exact ⟨_, _, hrun, hdeadline, (hanswers.2.2.2 (by cbv)).2.2.2.mpr ⟨100, hdeadline, le_rfl⟩⟩

end Debouncer

end SourceIndex
