import Mathlib
import SourceIndex.Proofs.Generation.Number
import SourceIndex.Proofs.Watch.Requests

/-! # How much a queue lists

A merged request lists no more than `RebuildRequest.capacity` paths. The request that is there first
is not merged with anything and is left as it is, so a single one may list more
(`RebuildQueue.Overfull`), though the same paths would be too many if they came in two requests
(`RebuildQueue.overfull_numbered`).

Apart from that, and from whether anything was asked for at all, a take does not depend on the order in
which paths came in and on how they were grouped (`RebuildQueue.take_alike_iff`).
-/

set_option autoImplicit false

namespace SourceIndex

/-! ## Requests that say the same -/

namespace RebuildRequest

/-- Two requests for everything, or for the same paths, each in some spelling. -/
def Alike : RebuildRequest → RebuildRequest → Prop
  | .all, .all => True
  | .paths s, .paths t => s.paths.map Path.parts = t.paths.map Path.parts
  | _, _ => False

variable {rs rs' : List RebuildRequest} {joined joined' : RebuildRequest}

/-- What requests come to that list the same paths is alike, unless it is everything for one side
only. -/
theorem IsJoin.alike_iff (h : IsJoin rs joined) (h' : IsJoin rs' joined')
    (hsets : ∀ r ∈ rs, r.IsSet) (hsets' : ∀ r ∈ rs', r.IsSet)
    (hsame : Path.partSet (rs'.flatMap listed) = Path.partSet (rs.flatMap listed)) :
    joined'.Alike joined ↔ (joined' = .all ↔ joined = .all) := by
  cases joined' with
  | all => cases joined <;> simp [Alike]
  | paths s =>
      cases joined with
      | all => simp [Alike]
      | paths t =>
          have hparts : Path.partSet s.paths = Path.partSet t.paths := by
            rw [h.partSet_eq t rfl, h'.partSet_eq s rfl, hsame]
          have halike : s.paths.map Path.parts = t.paths.map Path.parts := by
            refine PathMap.Sorted.map_parts_eq (h'.isSet hsets' s rfl) (h.isSet hsets t rfl) fun ps => ?_
            exact Path.mem_partSet.symm.trans ((Finset.ext_iff.mp hparts ps).trans Path.mem_partSet)
          simp [Alike, halike]

/-- More paths than a merged request may list are those of a single request. -/
theorem IsJoin.single_of_overfull {set : PathSet} (hjoin : join rs = some (.paths set))
    (hmany : capacity < (Path.partSet (rs.flatMap listed)).card) : rs = [.paths set] := by
  have hfew := (isJoin_of_join hjoin).all_iff.not.mp (by simp)
  match rs, hjoin, hfew with
  | [], hjoin, _ => cases hjoin
  | [r], hjoin, _ => exact congrArg (fun request => [request]) (Option.some.inj hjoin)
  | _ :: _ :: rest, _, hfew => exact absurd (.inr ⟨by simp, hmany⟩) hfew

end RebuildRequest

/-! ## Calls that ask for the same -/

namespace RebuildQueue

/-- Nothing was asked for since the last take. -/
def Idle (calls : List Call) : Prop := ∀ c ∈ sinceTake calls, c = .enqueue []

/-- One single request was made since the last take, and it lists more paths than a merged one may. -/
def Overfull (calls : List Call) : Prop :=
  ∃ set, requests calls = [.paths set] ∧ RebuildRequest.capacity < set.size

variable {calls calls' : List Call}

/-- A pending list has as many paths as came in. -/
theorem size_of_pending (hsets : ∀ r, .requeue r ∈ sinceTake calls → r.IsSet) {set : PathSet}
    (h : RebuildRequest.join (requests calls) = some (.paths set)) :
    set.size = (Path.partSet (given calls)).card := by
  have hjoin := RebuildRequest.isJoin_of_join h
  rw [PathSet.size_eq_card (hjoin.isSet (isSet_requests hsets) set rfl), hjoin.partSet_eq set rfl,
    partSet_requests]

/-- The pending list is too long exactly if it is that of a single request. -/
theorem overfull_iff (hsets : ∀ r, .requeue r ∈ sinceTake calls → r.IsSet) :
    Overfull calls ↔ ∃ set, (afterAll calls).pending = some (.paths set) ∧
      RebuildRequest.capacity < set.size := by
  rw [pending_afterAll]
  constructor
  · rintro ⟨set, hset, hmany⟩
    exact ⟨set, by rw [hset]; rfl, hmany⟩
  · rintro ⟨set, hset, hmany⟩
    refine ⟨set, RebuildRequest.IsJoin.single_of_overfull hset ?_, hmany⟩
    rw [partSet_requests, ← size_of_pending hsets hset]
    exact hmany

/-- The same for a request that is known. -/
theorem overfull_iff_of_join (hsets : ∀ r, .requeue r ∈ sinceTake calls → r.IsSet)
    {joined : RebuildRequest} (h : RebuildRequest.join (requests calls) = some joined) :
    Overfull calls ↔
      joined ≠ .all ∧ RebuildRequest.capacity < (Path.partSet (given calls)).card := by
  rw [overfull_iff hsets, pending_afterAll, h]
  cases joined with
  | all => simp
  | paths set =>
      rw [← size_of_pending hsets h]
      simp

/-- A pending request lists too many paths exactly if it is a single one. Two histories that brought
the same paths since the last take, and asked for everything or not, give the same to the next take,
except where one of them asked for nothing, or one made a single request that is too long. -/
theorem take_alike_iff (hsets : ∀ r, .requeue r ∈ sinceTake calls → r.IsSet) :
    ((∃ set, (afterAll calls).pending = some (.paths set) ∧ RebuildRequest.capacity < set.size) ↔
      Overfull calls) ∧
    ∀ calls', (∀ r, .requeue r ∈ sinceTake calls' → r.IsSet) →
      Path.partSet (given calls') = Path.partSet (given calls) →
      (.requeue .all ∈ sinceTake calls' ↔ .requeue .all ∈ sinceTake calls) →
      (Option.Rel RebuildRequest.Alike (afterAll calls').take.1 (afterAll calls).take.1 ↔
        (Idle calls' ↔ Idle calls) ∧ (Overfull calls' ↔ Overfull calls)) := by
  refine ⟨(overfull_iff hsets).symm, fun calls' hsets' hgiven hall => ?_⟩
  show Option.Rel RebuildRequest.Alike (afterAll calls').pending (afterAll calls).pending ↔ _
  rw [Idle, Idle, ← requests_eq_nil_iff, ← requests_eq_nil_iff, ← RebuildRequest.join_eq_none_iff,
    ← RebuildRequest.join_eq_none_iff, pending_afterAll, pending_afterAll]
  cases h' : RebuildRequest.join (requests calls') with
  | none =>
      cases h : RebuildRequest.join (requests calls) with
      | none => simp [Overfull, RebuildRequest.join_eq_none_iff.mp h, RebuildRequest.join_eq_none_iff.mp h']
      | some joined => simp
  | some joined' =>
      cases h : RebuildRequest.join (requests calls) with
      | none => simp
      | some joined =>
          have hjoin := RebuildRequest.isJoin_of_join h
          have hjoin' := RebuildRequest.isJoin_of_join h'
          have hsame := (partSet_requests calls').trans (hgiven.trans (partSet_requests calls).symm)
          rw [Option.rel_some_some,
            hjoin.alike_iff hjoin' (isSet_requests hsets) (isSet_requests hsets') hsame,
            overfull_iff_of_join hsets h, overfull_iff_of_join hsets' h', hgiven]
          by_cases hmany : RebuildRequest.capacity < (Path.partSet (given calls)).card
          · simp [hmany, not_iff_not]
          · -- few paths are not too many, however they come
            have hfew : ¬ RebuildRequest.capacity <
                (Path.partSet ((requests calls).flatMap RebuildRequest.listed)).card := by
              rwa [partSet_requests]
            rw [hjoin.all_iff, hjoin'.all_iff, hsame, all_mem_requests_iff, all_mem_requests_iff, hall]
            simp [hmany, hfew]

/-! ## Lists that come in one after the other -/

theorem sinceTake_enqueues (lists : List (List Path)) :
    sinceTake (lists.map .enqueue) = lists.map .enqueue := by
  refine List.rtakeWhile_eq_self_iff.mpr fun c hc => ?_
  obtain ⟨ps, -, rfl⟩ := List.mem_map.mp hc
  rfl

theorem requests_enqueues (lists : List (List Path)) (h : ∀ ps ∈ lists, ps ≠ []) :
    requests (lists.map .enqueue) = lists.map fun ps => .paths (.ofPaths ps) := by
  rw [requests, sinceTake_enqueues, List.filterMap_map, ← List.filterMap_eq_map]
  refine List.filterMap_congr fun ps hps => ?_
  simp [Call.request?, h ps hps]

theorem given_enqueues (lists : List (List Path)) : given (lists.map .enqueue) = lists.flatten := by
  rw [given, sinceTake_enqueues, List.flatMap_map]
  exact List.flatMap_id

theorem requeue_not_mem_enqueues (lists : List (List Path)) (r : RebuildRequest) :
    .requeue r ∉ sinceTake (lists.map .enqueue) := by
  rw [sinceTake_enqueues]
  simp

theorem not_idle_enqueues (lists : List (List Path)) (h : ∃ ps ∈ lists, ps ≠ []) :
    ¬ Idle (lists.map .enqueue) := by
  obtain ⟨ps, hps, hne⟩ := h
  intro hidle
  rw [Idle, sinceTake_enqueues] at hidle
  cases hidle _ (List.mem_map_of_mem hps)
  exact hne rfl

/-- Two files that come in one by one, or together in the other order. -/
theorem take_alike_regrouped :
    Option.Rel RebuildRequest.Alike (afterAll [.enqueue [⟨"b"⟩, ⟨"a"⟩]]).take.1
      (afterAll [.enqueue [⟨"a"⟩], .enqueue [⟨"b"⟩]]).take.1 := by
  have htogether := requeue_not_mem_enqueues [[⟨"b"⟩, ⟨"a"⟩]]
  have hapart := requeue_not_mem_enqueues [[⟨"a"⟩], [⟨"b"⟩]]
  refine ((take_alike_iff fun r hr => absurd hr (hapart r)).2 [.enqueue [⟨"b"⟩, ⟨"a"⟩]]
    (fun r hr => absurd hr (htogether r)) ?_ (iff_of_false (htogether _) (hapart _))).mpr ⟨?_, ?_⟩
  · show Path.partSet [⟨"b"⟩, ⟨"a"⟩] = Path.partSet [⟨"a"⟩, ⟨"b"⟩]
    simp [Path.partSet, Finset.pair_comm]
  · exact iff_of_false (not_idle_enqueues [[⟨"b"⟩, ⟨"a"⟩]] (by simp))
      (not_idle_enqueues [[⟨"a"⟩], [⟨"b"⟩]] (by simp))
  · refine iff_of_false ?_ ?_
    · rintro ⟨set, hset, hmany⟩
      cases hset
      rw [PathSet.size_ofPaths] at hmany
      exact absurd (hmany.trans_le (List.toFinset_card_le _)) (by decide)
    · rintro ⟨set, hset, -⟩
      cases hset

/-! ## Too many paths at once -/

/-- A single list that comes in is listed, however long it is. -/
theorem take_enqueue {ps : List Path} (h : ps ≠ []) :
    (afterAll [.enqueue ps]).take.1 = some (.paths (.ofPaths ps)) := by
  have hrequests := requests_enqueues [ps] (by simpa using h)
  exact (pending_afterAll _).trans (congrArg RebuildRequest.join hrequests)

/-- If the same paths come in two lists, everything is asked for once they are too many. -/
theorem take_enqueue_enqueue {ps qs : List Path} (hps : ps ≠ []) (hqs : qs ≠ [])
    (hmany : RebuildRequest.capacity < (Path.partSet (ps ++ qs)).card) :
    (afterAll [.enqueue ps, .enqueue qs]).take.1 = some .all := by
  have hrequests := requests_enqueues [ps, qs] (by simp [hps, hqs])
  have hgiven : given [.enqueue ps, .enqueue qs] = ps ++ qs := by
    simpa using given_enqueues [ps, qs]
  cases hjoin : RebuildRequest.join (requests [.enqueue ps, .enqueue qs]) with
  | none => cases (congrArg RebuildRequest.join hrequests).symm.trans hjoin
  | some joined =>
      have hall : joined = .all := by
        rw [(RebuildRequest.isJoin_of_join hjoin).all_iff, partSet_requests, hgiven]
        refine .inr ⟨?_, hmany⟩
        exact (congrArg List.length hrequests).symm ▸ Nat.one_lt_two
      exact (pending_afterAll _).trans (hall ▸ hjoin)

/-- Some paths with a number. -/
def numbered (count : Nat) : List Path := (List.range count).map fun n => ⟨"f" ++ toString n⟩

theorem parts_numbered (n : Nat) :
    (⟨"f" ++ toString n⟩ : Path).parts = [.name ("f" ++ toString n)] := by
  have hlist : ("f" ++ toString n).toList = 'f' :: (toString n).toList := by simp
  have hhead : ("f" ++ toString n).toList.head? = some 'f' := by
    rw [hlist]
    rfl
  have hname : Path.IsName ("f" ++ toString n) := by
    refine ⟨fun h => ?_, fun h => ?_, fun h => ?_, fun h => ?_⟩
    · exact absurd (h ▸ hhead) (by decide)
    · exact absurd (h ▸ hhead) (by decide)
    · exact absurd (h ▸ hhead) (by decide)
    · rw [hlist] at h
      rcases List.mem_cons.mp h with h | h
      · cases h
      · cases isDigit_of_mem_toString h
  have hnames : ∀ name ∈ ["f" ++ toString n], Path.IsName name := by simpa using hname
  have hparts : (⟨"/".intercalate ["f" ++ toString n]⟩ : Path).parts = [.name ("f" ++ toString n)] :=
    Path.parts_intercalate hnames
  rwa [String.intercalate_singleton] at hparts

/-- Different numbers make different paths. -/
theorem card_numbered {count : Nat} (h : count ≤ UInt64.size) :
    (Path.partSet (numbered count)).card = count := by
  have hnodup : ((numbered count).map Path.parts).Nodup := by
    rw [numbered, List.map_map]
    refine List.Nodup.map_on (fun m hm n hn hmn => ?_) List.nodup_range
    have hm := readNumber?_toString ((List.mem_range.mp hm).trans_le h)
    have hn := readNumber?_toString ((List.mem_range.mp hn).trans_le h)
    have hparts := (parts_numbered m).symm.trans (Eq.trans hmn (parts_numbered n))
    have htext := (String.append_right_inj _).mp (Part.name.inj (List.singleton_inj.mp hparts))
    rw [htext, hn] at hm
    exact (Option.some.inj hm).symm
  rw [Path.partSet, List.toFinset_card_of_nodup hnodup, List.length_map, numbered, List.length_map,
    List.length_range]

/-- One path more than a merged request may list is listed all the same if it comes in at once, and
everything is asked for if the same paths come in two calls. -/
theorem overfull_numbered :
    (∃ set, (afterAll [.enqueue (numbered 4097)]).take.1 = some (.paths set) ∧
      set.size = 4097 ∧ RebuildRequest.capacity = 4096) ∧
    (afterAll [.enqueue ((numbered 4097).take 1), .enqueue ((numbered 4097).drop 1)]).take.1 =
      some .all := by
  have hcard : (Path.partSet (numbered 4097)).card = 4097 := card_numbered (by decide)
  have hlength : (numbered 4097).length = 4097 := by simp [numbered]
  have hne : ∀ ps : List Path, 0 < ps.length → ps ≠ [] := fun ps => List.length_pos_iff.mp
  refine ⟨⟨_, take_enqueue (hne _ (by omega)), ?_, rfl⟩,
    take_enqueue_enqueue (hne _ ?_) (hne _ ?_) ?_⟩
  · rw [PathSet.size_ofPaths, hcard]
  · rw [List.length_take]
    omega
  · rw [List.length_drop]
    omega
  · rw [List.take_append_drop, hcard]
    decide

end RebuildQueue

end SourceIndex
