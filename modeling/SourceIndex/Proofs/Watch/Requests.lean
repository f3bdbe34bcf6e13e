import Mathlib
import SourceIndex.Proofs.Watch.Queue

/-! # What a queue gives back

A queue is told of paths, and requests are put back into it, until what is pending is taken. What is
pending is all that was asked for since then, joined from left to right
(`RebuildQueue.pending_afterAll`). A joined request is for everything if one of its requests is, or if
more than one of them came and they list too many paths; otherwise it lists the paths of all of them
(`RebuildRequest.IsJoin`).

So nothing is lost between two takes and nothing is made up (`RebuildQueue.take_afterAll`).
-/

set_option autoImplicit false

namespace SourceIndex

/-! ## Requests joined from left to right -/

namespace RebuildRequest

/-- The paths that a request lists. -/
def listed (r : RebuildRequest) : List Path := r.hints?.getD []

/-- Whether a request for paths lists them in order and none twice. -/
def IsSet (r : RebuildRequest) : Prop := ∀ set, r = .paths set → PathMap.Sorted set

theorem isSet_all : all.IsSet := fun _ h => by cases h

theorem isSet_paths {set : PathSet} (h : PathMap.Sorted set) : (paths set).IsSet := by
  intro s hs
  cases hs
  exact h

/-- The request that requests come to, each of them merged into those before it. -/
def join : List RebuildRequest → Option RebuildRequest
  | [] => none
  | r :: rs => some (rs.foldl merge r)

theorem join_concat (rs : List RebuildRequest) (r : RebuildRequest) :
    join (rs ++ [r]) = some ((join rs).elim r (·.merge r)) := by
  cases rs with
  | nil => rfl
  | cons first rest => simp [join]

theorem join_eq_none_iff {rs : List RebuildRequest} : join rs = none ↔ rs = [] := by
  cases rs <;> simp [join]

/-- A request is what some requests come to. A single request is left as it is, however many paths it
lists. -/
structure IsJoin (rs : List RebuildRequest) (joined : RebuildRequest) : Prop where
  all_iff : joined = .all ↔
    .all ∈ rs ∨ (1 < rs.length ∧ capacity < (Path.partSet (rs.flatMap listed)).card)
  partSet_eq : ∀ set, joined = .paths set →
    Path.partSet set.paths = Path.partSet (rs.flatMap listed)
  subset : joined.listed ⊆ rs.flatMap listed
  isSet : (∀ r ∈ rs, r.IsSet) → joined.IsSet

variable {rs : List RebuildRequest} {joined : RebuildRequest}

/-- Everything is what requests come to if one of them is for it, or if they list too many paths. -/
theorem IsJoin.all (h : .all ∈ rs ∨
    (1 < rs.length ∧ capacity < (Path.partSet (rs.flatMap listed)).card)) : IsJoin rs .all where
  all_iff := ⟨fun _ => h, fun _ => rfl⟩
  partSet_eq set hset := by cases hset
  subset := by simp [listed, hints?]
  isSet _ := isSet_all

theorem IsJoin.single (r : RebuildRequest) : IsJoin [r] r where
  all_iff := by simp [eq_comm]
  partSet_eq set h := by simp [h, listed, hints?]
  subset := by simp
  isSet h := h r (List.mem_singleton.mpr rfl)

/-- One more request for paths. -/
theorem IsJoin.extend (h : IsJoin rs joined) (hne : rs ≠ []) (s : PathSet) :
    IsJoin (rs ++ [.paths s]) (joined.extend s.paths) := by
  have hlength : 1 < (rs ++ [RebuildRequest.paths s]).length := by
    simpa using List.length_pos_iff.mpr hne
  have hlisted : Path.partSet ((rs ++ [RebuildRequest.paths s]).flatMap listed) =
      Path.partSet (rs.flatMap listed) ∪ Path.partSet s.paths := by
    rw [List.flatMap_append, Path.partSet_append]
    simp [listed, hints?]
  cases joined with
  | all =>
      -- more paths than there may be do not become fewer
      refine .all ?_
      rcases h.all_iff.mp rfl with hall | ⟨-, hmany⟩
      · exact .inl (List.mem_append_left _ hall)
      · refine .inr ⟨hlength, hmany.trans_le (Finset.card_le_card ?_)⟩
        rw [hlisted]
        exact Finset.subset_union_left
  | paths set =>
      have hnone : .all ∉ rs ++ [RebuildRequest.paths s] := by
        intro hall
        rcases List.mem_append.mp hall with hall | hall
        · cases h.all_iff.mpr (.inl hall)
        · cases List.mem_singleton.mp hall
      have hunion : Path.partSet (set.union s.paths).paths =
          Path.partSet ((rs ++ [RebuildRequest.paths s]).flatMap listed) := by
        rw [PathSet.partSet_union, h.partSet_eq set rfl, hlisted]
      have hsize : (set.union s.paths).size =
          (Path.partSet ((rs ++ [RebuildRequest.paths s]).flatMap listed)).card := by
        rw [← hunion]
        exact PathSet.size_eq_card (PathMap.sorted_extend _ _)
      -- no path was given up before, so the size is that of all of them
      rw [RebuildRequest.extend]
      split
      · rename_i hmany
        exact .all (.inr ⟨hlength, hsize ▸ hmany⟩)
      · rename_i hfew
        have hnot : ¬ (.all ∈ rs ++ [RebuildRequest.paths s] ∨
            (1 < (rs ++ [RebuildRequest.paths s]).length ∧
              capacity < (Path.partSet ((rs ++ [RebuildRequest.paths s]).flatMap listed)).card)) := by
          rintro (hall | ⟨-, hmany⟩)
          · exact hnone hall
          · exact hfew (hsize ▸ hmany)
        refine ⟨⟨fun hall => (by cases hall), fun hall => absurd hall hnot⟩, fun set' hset => ?_,
          fun p hp => ?_, fun _ => isSet_paths (PathMap.sorted_extend _ _)⟩
        · cases hset
          exact hunion
        · rw [List.flatMap_append]
          rcases PathSet.mem_union hp with hp | hp
          · exact List.mem_append_left _ (h.subset hp)
          · exact List.mem_append_right _ (by simpa [listed, hints?] using hp)

theorem IsJoin.merge (h : IsJoin rs joined) (hne : rs ≠ []) (r : RebuildRequest) :
    IsJoin (rs ++ [r]) (joined.merge r) := by
  cases r with
  | all => exact .all (.inl (List.mem_append_right _ (List.mem_singleton.mpr rfl)))
  | paths s => exact h.extend hne s

theorem isJoin_of_join (h : join rs = some joined) : IsJoin rs joined := by
  induction rs using List.reverseRecOn generalizing joined with
  | nil => cases h
  | append_singleton rs r ih =>
      rw [join_concat] at h
      obtain rfl := Option.some.inj h
      cases hrs : join rs with
      | none =>
          rw [join_eq_none_iff.mp hrs]
          exact .single r
      | some before =>
          refine (ih hrs).merge (fun hnil => ?_) r
          rw [hnil] at hrs
          cases hrs

end RebuildRequest

/-! ## Calls of a queue -/

namespace RebuildQueue

/-- What can be done with a queue. -/
inductive Call where
  | enqueue (paths : List Path)
  | requeue (request : RebuildRequest)
  | take

namespace Call

/-- The paths that come into the queue. -/
def given : Call → List Path
  | enqueue paths => paths
  | requeue request => request.listed
  | take => []

/-- What is asked for; no paths ask for nothing. -/
def request? : Call → Option RebuildRequest
  | enqueue paths => if paths.isEmpty then none else some (.paths (.ofPaths paths))
  | requeue request => some request
  | take => none

/-- Whether something comes into the queue, rather than out of it. -/
def isPut : Call → Bool
  | enqueue _ => true
  | requeue _ => true
  | take => false

end Call

/-- A queue after a call. -/
def after (q : RebuildQueue) : Call → RebuildQueue
  | .enqueue paths => q.enqueue paths
  | .requeue request => q.requeue request
  | .take => q.take.2

/-- A fresh queue after some calls. -/
def afterAll (calls : List Call) : RebuildQueue := calls.foldl after {}

/-- The calls since the last take. -/
def sinceTake (calls : List Call) : List Call := calls.rtakeWhile Call.isPut

/-- The paths that came in since the last take. -/
def given (calls : List Call) : List Path := (sinceTake calls).flatMap Call.given

/-- What was asked for since the last take. -/
def requests (calls : List Call) : List RebuildRequest := (sinceTake calls).filterMap Call.request?

variable {calls : List Call}

theorem afterAll_concat (calls : List Call) (c : Call) : afterAll (calls ++ [c]) = (afterAll calls).after c := by
  simp [afterAll]

theorem requests_concat (calls : List Call) (c : Call) :
    requests (calls ++ [c]) = if c.isPut then requests calls ++ c.request?.toList else [] := by
  rw [requests, requests, sinceTake, sinceTake, List.rtakeWhile_concat]
  split
  · rw [List.filterMap_append]
    cases h : c.request? <;> simp [h]
  · rfl

theorem pending_requeue (q : RebuildQueue) (r : RebuildRequest) :
    (q.requeue r).pending = some (q.pending.elim r (·.merge r)) := by
  rw [requeue]
  split <;> simp [*]

/-- What is pending is what was asked for since the last take. -/
theorem pending_afterAll (calls : List Call) :
    (afterAll calls).pending = RebuildRequest.join (requests calls) := by
  induction calls using List.reverseRecOn with
  | nil => rfl
  | append_singleton calls c ih =>
      rw [afterAll_concat, requests_concat]
      cases c with
      | enqueue paths =>
          cases paths with
          | nil => simpa [after, enqueue, Call.isPut, Call.request?] using ih
          | cons p ps =>
              simp [after, enqueue, Call.isPut, Call.request?, pending_requeue,
                RebuildRequest.join_concat, ih]
      | requeue r =>
          simp [after, Call.isPut, Call.request?, pending_requeue, RebuildRequest.join_concat, ih]
      | take => rfl

/-! ### Calls and what they ask for -/

/-- Nothing is asked for by calls that bring no paths. -/
theorem requests_eq_nil_iff : requests calls = [] ↔ ∀ c ∈ sinceTake calls, c = .enqueue [] := by
  rw [requests, List.filterMap_eq_nil_iff]
  refine forall₂_congr fun c hc => ?_
  have hput : c.isPut = true := List.mem_rtakeWhile_imp hc
  cases c with
  | enqueue paths => cases paths <;> simp [Call.request?]
  | requeue r => simp [Call.request?]
  | take => cases hput

theorem all_mem_requests_iff : .all ∈ requests calls ↔ .requeue .all ∈ sinceTake calls := by
  rw [requests, List.mem_filterMap]
  constructor
  · rintro ⟨c, hc, hrequest⟩
    cases c with
    | enqueue paths =>
        rw [Call.request?] at hrequest
        split at hrequest <;> cases hrequest
    | requeue r =>
        cases hrequest
        exact hc
    | take => cases hrequest
  · exact fun hall => ⟨_, hall, rfl⟩

/-- What is asked for by a call is what came in by it. -/
theorem partSet_request? (c : Call) :
    Path.partSet (c.request?.toList.flatMap RebuildRequest.listed) = Path.partSet c.given := by
  cases c with
  | enqueue paths =>
      cases paths with
      | nil => rfl
      | cons p ps =>
          simpa [Call.request?, Call.given, RebuildRequest.listed, RebuildRequest.hints?] using
            PathSet.partSet_ofPaths (p :: ps)
  | requeue r => simp [Call.request?, Call.given]
  | take => rfl

theorem partSet_requests (calls : List Call) :
    Path.partSet ((requests calls).flatMap RebuildRequest.listed) = Path.partSet (given calls) := by
  rw [requests, given]
  induction sinceTake calls with
  | nil => rfl
  | cons c rest ih =>
      rw [List.flatMap_cons, Path.partSet_append, ← ih, ← partSet_request?, ← Path.partSet_append,
        ← List.flatMap_append]
      cases h : c.request? <;> simp [h]

theorem listed_requests_subset (calls : List Call) :
    (requests calls).flatMap RebuildRequest.listed ⊆ given calls := by
  intro p hp
  obtain ⟨r, hr, hp⟩ := List.mem_flatMap.mp hp
  obtain ⟨c, hc, hrequest⟩ := List.mem_filterMap.mp hr
  refine List.mem_flatMap.mpr ⟨c, hc, ?_⟩
  cases c with
  | enqueue paths =>
      rw [Call.request?] at hrequest
      split at hrequest
      · cases hrequest
      · obtain rfl := Option.some.inj hrequest
        obtain ⟨e, he, rfl⟩ := List.mem_map.mp hp
        obtain ⟨q, hq, rfl⟩ := List.mem_map.mp (PathMap.mem_ofList he)
        exact hq
  | requeue r =>
      obtain rfl := Option.some.inj hrequest
      exact hp
  | take => cases hrequest

theorem isSet_requests (h : ∀ r, .requeue r ∈ sinceTake calls → r.IsSet) :
    ∀ r ∈ requests calls, r.IsSet := by
  intro r hr
  obtain ⟨c, hc, hrequest⟩ := List.mem_filterMap.mp hr
  cases c with
  | enqueue paths =>
      rw [Call.request?] at hrequest
      split at hrequest
      · cases hrequest
      · obtain rfl := Option.some.inj hrequest
        exact RebuildRequest.isSet_paths (PathMap.sorted_ofList _)
  | requeue r =>
      obtain rfl := Option.some.inj hrequest
      exact h _ hc
  | take => cases hrequest

/-! ## What is taken -/

/-- Whatever was done with a queue, the next take finds nothing exactly if nothing but empty lists came
in since the last one. A list of paths holds exactly those that came in, in one of their spellings, and
none of them twice, and then nobody asked for everything. Everything is asked for only if somebody did,
or if too many paths came in. -/
theorem take_afterAll (calls : List Call) :
    ((afterAll calls).take.1 = none ↔ ∀ c ∈ sinceTake calls, c = .enqueue []) ∧
    (∀ set, (afterAll calls).take.1 = some (.paths set) →
      (∀ p, set.contains p = true ↔ ∃ q ∈ given calls, q.parts = p.parts) ∧
      set.paths ⊆ given calls ∧ .requeue .all ∉ sinceTake calls ∧
      ((∀ r, .requeue r ∈ sinceTake calls → r.IsSet) → PathMap.Sorted set)) ∧
    ((afterAll calls).take.1 = some .all →
      .requeue .all ∈ sinceTake calls ∨
        RebuildRequest.capacity < (Path.partSet (given calls)).card) := by
  have htake : (afterAll calls).take.1 = RebuildRequest.join (requests calls) := pending_afterAll calls
  rw [htake, RebuildRequest.join_eq_none_iff]
  refine ⟨requests_eq_nil_iff, fun set hset => ?_, fun hall => ?_⟩
  · have hjoin := RebuildRequest.isJoin_of_join hset
    refine ⟨fun p => ?_, ?_, fun hall => ?_, fun hsets => ?_⟩
    · rw [PathMap.contains_iff, ← Path.mem_partSet, ← Path.mem_partSet, ← partSet_requests,
        ← hjoin.partSet_eq set rfl]
      rfl
    · exact List.Subset.trans hjoin.subset (listed_requests_subset calls)
    · cases hjoin.all_iff.mpr (.inl (all_mem_requests_iff.mpr hall))
    · exact hjoin.isSet (isSet_requests hsets) set rfl
  · rw [← all_mem_requests_iff, ← partSet_requests]
    exact ((RebuildRequest.isJoin_of_join hall).all_iff.mp rfl).imp_right And.right

end RebuildQueue

end SourceIndex
