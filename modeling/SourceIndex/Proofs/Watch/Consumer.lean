import Mathlib
import SourceIndex.Proofs.Project.Failure
import SourceIndex.Proofs.Watch.Queue
import SourceIndex.Watch.Watcher

/-! # What becomes of a path that was put into the queue

A watch puts paths into its queue while rebuilds are taken from it, one at a time. The history of a
run lists the paths in the order in which they went in, and the rebuilds in the order in which they
ended (`Watcher.Run`); paths may go in at any time, also while something is being built.

A path that went in waits, or is being built, or the rebuild of a request that covers it has ended
since, and has not found another build running (`Watcher.Run.accounted`). A rebuild that failed
counts as an end: its request is not put back, and what was not put in again meanwhile is forgotten
(`Watcher.holds_settle_failed_iff`, `Watcher.forgotten_smallShut`).
-/

set_option autoImplicit false

namespace SourceIndex

/-- What happens to the requests of a watch. -/
inductive Happening where
  /-- Paths were put into the queue. -/
  | enqueued (paths : List Path)
  /-- The rebuild for a request has ended. -/
  | ended (request : RebuildRequest) (outcome : RebuildOutcome)

namespace Watcher

/-- Whether a path waits or is being built. -/
def Holds (s : Watcher) (p : Path) : Prop :=
  s.queue.Covers p ∨ ∃ r, s.building = some r ∧ r.Covers p

/-- Whether the rebuild of a request for a path has ended in some way. -/
def Ended (events : List Happening) (outcome : RebuildOutcome) (p : Path) : Prop :=
  ∃ r, .ended r outcome ∈ events ∧ r.Covers p

/-- One step of a watch, and what happens in it. -/
inductive Step : Watcher → List Happening → Watcher → Prop where
  | enqueue (s : Watcher) (paths : List Path) :
      Step s [.enqueued paths] { s with queue := s.queue.enqueue paths }
  | debounce (s : Watcher) (debouncer : Debouncer) : Step s [] { s with debouncer }
  | take (s : Watcher) : Step s [] s.take
  | settle {s : Watcher} {r : RebuildRequest} (outcome : RebuildOutcome) :
      s.building = some r → Step s [.ended r outcome] (s.settle outcome)
  | stop (s : Watcher) : Step s [] { s with stopped := true }

/-- A run of a watch with its history. -/
inductive Run (s₀ : Watcher) : List Happening → Watcher → Prop where
  | start : Run s₀ [] s₀
  | step {history events : List Happening} {s s' : Watcher} :
      Run s₀ history s → Step s events s' → Run s₀ (history ++ events) s'

variable {s₀ s s' : Watcher} {history events before after : List Happening} {r : RebuildRequest}
  {p : Path} {ps : List Path} {outcome : RebuildOutcome}

/-! ## The functions of a watch are steps -/

namespace Run

/-- As time passes, files go from the debouncer into the queue. -/
theorem tick (h : Run s₀ history s) (now : Nat) :
    Run s₀ (history ++ [.enqueued (s.debouncer.takeReady now).1]) (s.tick now) := by
  have hwaiting := h.step (.debounce s (s.debouncer.takeReady now).2)
  rw [List.append_nil] at hwaiting
  exact hwaiting.step (.enqueue _ (s.debouncer.takeReady now).1)

/-- An event puts files into the queue or ends the watch. -/
theorem observe (h : Run s₀ history s) (paths : List Path) (now : Nat) (rootExists : Bool) :
    ∃ events, Run s₀ (history ++ events) (s.observe paths now rootExists) := by
  rw [Watcher.observe]
  split
  · exact ⟨[], by simpa using h⟩
  · split
    · exact ⟨[], h.step (.stop s)⟩
    · have hrecorded := h.step (.debounce s
        ((paths.filterMap s.filter.relevant?).foldl (·.record · now) s.debouncer))
      rw [List.append_nil] at hrecorded
      exact ⟨_, hrecorded.tick now⟩

/-- The rebuild of what is pending begins and ends. -/
theorem serve_of_building (h : Run s₀ history s) (hbuilding : s.take.building = some r)
    (w : Workspace) (project : Project) (parse : Chunk.Parse) (o : BuildOptions) :
    Run s₀ (history ++ [.ended r (.ofAnswer
      (project.build w parse (.incremental r.hints?) o).answer)]) (s.serve w project parse o).1 := by
  have htaken := h.step (.take s)
  rw [List.append_nil] at htaken
  simpa [Watcher.serve, hbuilding] using htaken.step (.settle _ hbuilding)

theorem serve (h : Run s₀ history s) (w : Workspace) (project : Project) (parse : Chunk.Parse)
    (o : BuildOptions) : ∃ events, Run s₀ (history ++ events) (s.serve w project parse o).1 := by
  cases hbuilding : s.take.building with
  | none =>
      have htaken := h.step (.take s)
      exact ⟨[], by simpa [Watcher.serve, hbuilding] using htaken⟩
  | some r => exact ⟨_, h.serve_of_building hbuilding w project parse o⟩

end Run

/-! ## One step -/

/-- A watch that has ended stays so. -/
theorem Step.not_stopped (h : Step s events s') (hs : s'.stopped = false) : s.stopped = false := by
  cases h with
  | enqueue | debounce => exact hs
  | take =>
      rw [Watcher.take] at hs
      split at hs
      · exact hs
      · split at hs <;> exact hs
  | settle outcome hbuilding =>
      rw [Watcher.settle, hbuilding] at hs
      cases outcome with
      | done | busy | failed => exact hs
      | cancelled => cases hs
  | stop => cases hs

theorem Holds.take (h : s.Holds p) : s.take.Holds p := by
  cases hbuilding : s.building with
  | some r => rwa [Watcher.take, hbuilding]
  | none =>
      have hwaits : s.queue.Covers p := by simpa [Holds, hbuilding] using h
      simp only [Watcher.take, hbuilding]
      split
      · exact h
      · exact .inr hwaits

theorem Holds.enqueue (h : s.Holds p) (ps : List Path) :
    Holds { s with queue := s.queue.enqueue ps } p :=
  h.imp_left fun hwaits => hwaits.enqueue ps

/-- A request that met another build waits again. -/
theorem Holds.settle_busy (h : s.Holds p) : (s.settle .busy).Holds p := by
  cases hbuilding : s.building with
  | none => rwa [settle, hbuilding]
  | some r =>
      rw [settle, hbuilding]
      rcases h with hwaits | ⟨q, hq, hcovers⟩
      · exact .inl (hwaits.requeue r)
      · obtain rfl := Option.some.inj (hbuilding.symm.trans hq)
        exact .inl (RebuildQueue.covers_requeue hcovers)

/-- After a failure only what came in meanwhile is kept. -/
theorem holds_settle_failed_iff (h : s.building = some r) :
    (s.settle .failed).Holds p ↔ s.queue.Covers p := by
  simp [settle, h, Holds]

/-- What was held is held, or the request for it has ended otherwise. -/
theorem Holds.settle (h : s.Holds p) (hbuilding : s.building = some r)
    (hs : (s.settle outcome).stopped = false) :
    (s.settle outcome).Holds p ∨ (outcome = .done ∨ outcome = .failed) ∧ r.Covers p := by
  have hparts : s.queue.Covers p ∨ r.Covers p := by simpa [Holds, hbuilding] using h
  cases outcome with
  | done =>
      refine hparts.imp (fun hwaits => .inl ?_) fun hcovers => ⟨.inl rfl, hcovers⟩
      rwa [Watcher.settle, hbuilding]
  | failed =>
      exact hparts.imp (holds_settle_failed_iff hbuilding).mpr fun hcovers => ⟨.inr rfl, hcovers⟩
  | busy => exact .inl h.settle_busy
  | cancelled => simp [Watcher.settle, hbuilding] at hs

/-! ## Runs -/

/-- Where a path is that went in: it is held, or a rebuild for it has ended since. -/
def Accounted (s : Watcher) (since : List Happening) (p : Path) : Prop :=
  s.Holds p ∨ Ended since .done p ∨ Ended since .failed p

theorem Ended.append (h : Ended events outcome p) (more : List Happening) :
    Ended (events ++ more) outcome p := by
  obtain ⟨r, hr, hcovers⟩ := h
  exact ⟨r, List.mem_append_left more hr, hcovers⟩

/-- No step loses sight of a path. -/
theorem Accounted.step (h : s.Accounted after p) (hstep : Step s events s')
    (hs : s'.stopped = false) : s'.Accounted (after ++ events) p := by
  rcases h with h | h | h
  · cases hstep with
    | enqueue paths => exact .inl (h.enqueue paths)
    | debounce => exact .inl h
    | take => exact .inl h.take
    | settle outcome hbuilding =>
        rcases h.settle hbuilding hs with h | ⟨rfl | rfl, hcovers⟩
        · exact .inl h
        · exact .inr (.inl ⟨_, by simp, hcovers⟩)
        · exact .inr (.inr ⟨_, by simp, hcovers⟩)
    | stop => cases hs
  · exact .inr (.inl (h.append events))
  · exact .inr (.inr (h.append events))

/-- At most one thing happens in a step. -/
theorem Step.events_eq (h : Step s events s') : events = [] ∨ ∃ e, events = [e] := by
  cases h <;> simp

/-- An entry of a history stands in the last step or before it. -/
theorem Step.split_history {x : Happening} (hstep : Step s events s')
    (h : history ++ events = before ++ x :: after) :
    (after = [] ∧ events = [x]) ∨
      ∃ since, after = since ++ events ∧ history = before ++ x :: since := by
  rcases hstep.events_eq with rfl | ⟨e, rfl⟩
  · exact .inr ⟨after, by simp, by simpa using h⟩
  · rcases List.eq_nil_or_concat after with rfl | ⟨since, y, rfl⟩
    · exact .inl ⟨rfl, (List.append_inj' h rfl).2⟩
    · have hlast : history ++ [e] = (before ++ x :: since) ++ [y] := by simpa using h
      obtain ⟨hhistory, hy⟩ := List.append_inj' hlast rfl
      exact .inr ⟨since, by rw [List.concat_eq_append, hy], hhistory⟩

/-- As long as a watch has not ended, a path that went into its queue waits or is being built, or
the rebuild of a request that covers it has been done since, or has failed since. -/
theorem Run.accounted (h : Run s₀ (before ++ .enqueued ps :: after) s) (hp : p ∈ ps)
    (hs : s.stopped = false) :
    (s.Holds p ∨ Ended after .done p) ∨ Ended after .failed p := by
  rw [or_assoc]
  change s.Accounted after p
  generalize hhistory : before ++ .enqueued ps :: after = history at h
  -- along the run: the paths went in with the last step, or they were accounted for before it
  induction h generalizing after with
  | start => simp at hhistory
  | step hrun hstep ih =>
      rcases hstep.split_history hhistory.symm with ⟨rfl, rfl⟩ | ⟨since, rfl, rfl⟩
      · cases hstep with
        | enqueue => exact .inl (.inl (RebuildQueue.covers_enqueue hp))
      · exact (ih (hstep.not_stopped hs) rfl).step hstep hs

/-- A watch that nothing has happened to. -/
def idle : Watcher := ⟨default, default, {}, none, false⟩

/-- A request that met another build is accounted for. -/
theorem accounted_busy : ∃ s₀ s r,
    Run s₀ ([] ++ .enqueued [⟨"a.md"⟩] :: [.ended r .busy]) s ∧ s.stopped = false ∧
      ((s.Holds ⟨"a.md"⟩ ∨ Ended [.ended r .busy] .done ⟨"a.md"⟩) ∨
        Ended [.ended r .busy] .failed ⟨"a.md"⟩) := by
  have hstart : Run idle [] idle := .start
  have hrun := (hstart.step (.enqueue idle [⟨"a.md"⟩])).step (.take _)
  have hended : Run idle ([] ++ .enqueued [⟨"a.md"⟩] ::
      [.ended (.paths (.ofPaths [⟨"a.md"⟩])) .busy]) _ := hrun.step (.settle .busy rfl)
  exact ⟨idle, _, _, hended, rfl, Run.accounted hended (List.mem_singleton.mpr rfl) rfl⟩

/-! ## A path that is forgotten -/

-- builds are not to be computed
attribute [local irreducible] Project.small Project.smallOpened Project.build

/-- The small project before its first build, with a directory where the build lock belongs. -/
def smallShut : Workspace :=
  { Project.smallOpened.1 with
    tree := Project.smallOpened.1.tree.set (Scope.small.home ++ [IndexDirectory.lockName]) .directory }

/-- A watch of the small project. -/
def smallWatch : Watcher where
  filter := .ofProject Project.small
  debouncer := .make Project.small.settings.sync.debounceMilliseconds
    Project.small.settings.sync.maxBatch
  queue := {}
  building := none
  stopped := false

/-- The same watch, told of its file. -/
def smallTold : Watcher := { smallWatch with queue := smallWatch.queue.enqueue [⟨"a.md"⟩] }

/-- The rebuild fails as the lock cannot be opened. The watch goes on, but the file is neither waiting
nor taken up, though the same request would be done without the directory. -/
theorem forgotten_smallShut : ∃ s r, start smallShut.tree Project.small = .ok smallWatch ∧
    s = (smallTold.serve smallShut Project.small Scope.small.parse {}).1 ∧
    Run smallWatch ([] ++ .enqueued [⟨"a.md"⟩] :: [.ended r .failed]) s ∧ s.stopped = false ∧
    ¬ (s.Holds ⟨"a.md"⟩ ∨ Ended [.ended r .failed] .done ⟨"a.md"⟩) ∧
    (smallTold.serve Project.smallOpened.1 Project.small Scope.small.parse {}).2.2.2 =
      some .done := by
  let r : RebuildRequest := .paths (.ofPaths [⟨"a.md"⟩])
  have hroot : smallShut.tree.holds Project.small.root = true := by decide +kernel
  have hbuilding : smallTold.take.building = some r := rfl
  have hserved : (smallTold.serve smallShut Project.small Scope.small.parse {}).2.2.2 =
      some .failed := by decide +kernel
  have hfailed : RebuildOutcome.ofAnswer (Project.small.build smallShut Scope.small.parse
      (.incremental r.hints?) {}).answer = .failed := by
    simpa [serve, hbuilding] using hserved
  have hstart : Run smallWatch [] smallWatch := .start
  have htold : Run smallWatch [.enqueued [⟨"a.md"⟩]] smallTold := hstart.step (.enqueue _ _)
  have hrun := htold.serve_of_building hbuilding smallShut Project.small Scope.small.parse {}
  rw [hfailed] at hrun
  have hsettled : (smallTold.serve smallShut Project.small Scope.small.parse {}).1 =
      smallTold.take.settle .failed := by
    simp only [serve, hbuilding, hfailed]
  refine ⟨_, r, if_pos hroot, rfl, hrun, ?_, ?_, by decide +kernel⟩
  · rw [hsettled]
    rfl
  · rw [hsettled, holds_settle_failed_iff hbuilding]
    simp [Ended, smallTold, smallWatch, take, RebuildQueue.take]

end Watcher

end SourceIndex
