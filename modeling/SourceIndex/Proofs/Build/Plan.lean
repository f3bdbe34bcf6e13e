import Mathlib
import SourceIndex.Build.Plan
import SourceIndex.Proofs.Files.Listing
import SourceIndex.Proofs.Path.Map

/-! # What a plan reads and carries over

A hint stands for itself, or for the listed files under it if it is a directory
(`ReadPlan.StandsFor`). A plan that follows hints reads what they stand for and carries over the
earlier paths that lie under none of them (`ReadPlan.ofHints_spec`). No plan reads a path twice,
and none reads a path that it carries over (`ReadPlan.Sound`, and `ReadPlan.Apart` for paths in any
spelling).
-/

set_option autoImplicit false

namespace SourceIndex

namespace ReadPlan

variable {t : FileTree} {root : Path} {o : WalkOptions}

/-- A hint stands for a path: for itself, or as a directory for the listed files under it. -/
def StandsFor (t : FileTree) (root : Path) (o : WalkOptions) (hint p : Path) : Prop :=
  if t.isDirectory (root.join hint) then
    ∃ listed, Listing.files t root o = .ok listed ∧ p ∈ listed ∧ p.isUnder hint = true
  else p = hint

theorem StandsFor.isUnder {hint p : Path} (h : StandsFor t root o hint p) :
    p.isUnder hint = true := by
  rw [StandsFor] at h
  split at h
  · obtain ⟨_, _, _, hunder⟩ := h
    exact hunder
  · rw [h]
    exact Path.isUnder_self hint

/-- A normal hint stands for normal paths. -/
theorem StandsFor.normal (hwf : t.WellFormed) {hint p : Path} (h : StandsFor t root o hint p)
    (hhint : hint.IsNormal) : p.IsNormal := by
  rw [StandsFor] at h
  split at h
  · obtain ⟨listed, hlisted, hp, -⟩ := h
    exact Listing.files_normal hwf hlisted p hp
  · exact h ▸ hhint

/-! ## One hint and many -/

/-- What a hint adds to a set, in any spelling. -/
theorem addHint_spec {set set' : PathSet} {hint : Path} (h : addHint t root o set hint = .ok set') :
    (set.Sorted → set'.Sorted) ∧ (∀ p ∈ set'.keys, StandsFor t root o hint p ∨ p ∈ set.keys) ∧
      ∀ ps, (∃ k ∈ set'.keys, k.parts = ps) ↔
        (∃ k, StandsFor t root o hint k ∧ k.parts = ps) ∨ ∃ k ∈ set.keys, k.parts = ps := by
  rw [addHint] at h
  by_cases hdir : t.isDirectory (root.join hint) = true
  · rw [if_pos hdir] at h
    split at h
    · rename_i listed hlisted
      cases h
      have hstands : ∀ p, StandsFor t root o hint p ↔ p ∈ listed.filter (·.isUnder hint) := by
        intro p
        rw [StandsFor, if_pos hdir, hlisted, List.mem_filter]
        simp only [Except.ok.injEq, exists_eq_left']
      refine ⟨fun _ => PathMap.sorted_extend _ _, fun p hp => ?_, fun ps => ?_⟩
      · rw [hstands]
        exact (PathSet.mem_union hp).symm
      · simp only [hstands]
        rw [PathSet.exists_parts_union, or_comm]
    · cases h
  · rw [if_neg hdir] at h
    cases h
    have hstands : ∀ p, StandsFor t root o hint p ↔ p = hint := by
      intro p
      rw [StandsFor, if_neg hdir]
    refine ⟨fun hs => PathMap.sorted_insert hs _ _, fun p hp => ?_, fun ps => ?_⟩
    · rw [hstands]
      exact PathMap.mem_keys_insert hp
    · simp only [hstands, exists_eq_left]
      exact PathMap.exists_parts_insert

/-- What hints add to a set, in any spelling. -/
theorem addHints_spec {hints : List Path} {set set' : PathSet}
    (h : addHints t root o set hints = .ok set') :
    (set.Sorted → set'.Sorted) ∧
      (∀ p ∈ set'.keys, (∃ k ∈ hints, StandsFor t root o k p) ∨ p ∈ set.keys) ∧
      ∀ ps, (∃ k ∈ set'.keys, k.parts = ps) ↔
        (∃ hint ∈ hints, ∃ k, StandsFor t root o hint k ∧ k.parts = ps) ∨
          ∃ k ∈ set.keys, k.parts = ps := by
  induction hints generalizing set with
  | nil =>
      rw [addHints] at h
      cases h
      exact ⟨fun hs => hs, fun p hp => .inr hp, fun ps => by simp⟩
  | cons hint hints ih =>
      rw [addHints] at h
      split at h
      · rename_i mid hmid
        obtain ⟨hsorted, hkeys, hparts⟩ := addHint_spec hmid
        obtain ⟨hsorted', hkeys', hparts'⟩ := ih h
        refine ⟨fun hs => hsorted' (hsorted hs), fun p hp => ?_, fun ps => ?_⟩
        · rcases hkeys' p hp with ⟨k, hk, hstands⟩ | hp
          · exact .inl ⟨k, List.mem_cons_of_mem _ hk, hstands⟩
          · exact (hkeys p hp).imp_left fun hstands => ⟨hint, List.mem_cons_self, hstands⟩
        · rw [hparts', hparts, ← or_assoc, List.exists_mem_cons_iff, or_comm (a := ∃ x ∈ hints, _)]
      · cases h

/-- What normal hints stand for. -/
theorem addHints_empty_spec (hwf : t.WellFormed) {hints : List Path}
    (hhints : ∀ h ∈ hints, h.IsNormal) {set : PathSet}
    (h : addHints t root o .empty hints = .ok set) :
    set.IsNormal ∧ set.Sorted ∧
      ∀ p, p ∈ set.keys ↔ ∃ hint ∈ hints, StandsFor t root o hint p := by
  obtain ⟨hsorted, hkeys, hparts⟩ := addHints_spec h
  have hmem : ∀ p ∈ set.keys, ∃ hint ∈ hints, StandsFor t root o hint p := by
    intro p hp
    refine (hkeys p hp).resolve_right ?_
    simp [PathMap.empty, PathMap.keys]
  have hnormal : ∀ p ∈ set.keys, p.IsNormal := by
    intro p hp
    obtain ⟨hint, hhint, hstands⟩ := hmem p hp
    exact hstands.normal hwf (hhints hint hhint)
  refine ⟨hnormal, hsorted PathMap.sorted_empty, fun p => ⟨hmem p, ?_⟩⟩
  rintro ⟨hint, hhint, hstands⟩
  obtain ⟨k, hk, hkp⟩ := (hparts p.parts).mpr (.inl ⟨hint, hhint, p, hstands, rfl⟩)
  exact (hnormal k hk).eq_of_parts (hstands.normal hwf (hhints hint hhint)) hkp ▸ hk

theorem addHint_isOk (hint : Path) (set : PathSet) {listed : List Path}
    (hlisted : Listing.files t root o = .ok listed) : ∃ set', addHint t root o set hint = .ok set' := by
  rw [addHint, hlisted]
  split
  · exact ⟨_, rfl⟩
  · exact ⟨_, rfl⟩

/-- Hints can be followed if the project can be listed. -/
theorem addHints_isOk (hints : List Path) (set : PathSet) {listed : List Path}
    (hlisted : Listing.files t root o = .ok listed) :
    ∃ set', addHints t root o set hints = .ok set' := by
  induction hints generalizing set with
  | nil => exact ⟨set, rfl⟩
  | cons hint hints ih =>
      obtain ⟨mid, hmid⟩ := addHint_isOk hint set hlisted
      obtain ⟨set', hset'⟩ := ih mid
      exact ⟨set', by rw [addHints, hmid]; exact hset'⟩

/-! ## Plans -/

/-- The paths of a plan are normal, and each of them is read once or carried over, not both. -/
structure Sound (plan : ReadPlan) : Prop where
  nodup : plan.read.Nodup
  read : ∀ p ∈ plan.read, p.IsNormal
  carry : plan.carry.IsNormal
  sorted : plan.carry.Sorted
  disjoint : ∀ p ∈ plan.read, p ∉ plan.carry.keys

/-- A plan tells the paths that it reads and carries over apart by their parts. -/
structure Apart (plan : ReadPlan) : Prop where
  read : (plan.read.map Path.parts).Nodup
  carry : plan.carry.Sorted
  disjoint : ∀ p ∈ plan.read, ∀ q ∈ plan.carry.keys, p.parts ≠ q.parts

/-- Normal paths are told apart by their parts. -/
theorem Sound.apart {plan : ReadPlan} (h : plan.Sound) : plan.Apart where
  read := h.nodup.map_on fun p hp q hq hparts => (h.read p hp).eq_of_parts (h.read q hq) hparts
  carry := h.sorted
  disjoint p hp q hq hparts :=
    h.disjoint p hp ((h.read p hp).eq_of_parts (h.carry q hq) hparts ▸ hq)

theorem isHinted_iff (hints : List Path) (p : Path) :
    isHinted hints p = true ↔ ∃ h ∈ hints, p.isUnder h = true :=
  List.any_eq_true

/-- The plan of a build that follows hints. -/
theorem ofHints_spec (hwf : t.WellFormed) {earlier hints : List Path}
    (hearlier : ∀ p ∈ earlier, p.IsNormal) (hhints : ∀ h ∈ usefulHints root o hints, h.IsNormal)
    {plan : ReadPlan} (h : ofHints t root o earlier hints = .ok plan) :
    plan.Sound ∧
      (∀ p, p ∈ plan.read ↔ ∃ h ∈ usefulHints root o hints, StandsFor t root o h p) ∧
      ∀ p, p ∈ plan.carry.keys ↔ p ∈ earlier ∧ isHinted (usefulHints root o hints) p = false := by
  rw [ofHints] at h
  split at h
  · cases h
  · rename_i set hset
    cases h
    obtain ⟨hnormal, hsorted, hread⟩ := addHints_empty_spec hwf hhints hset
    have hkept : ∀ p ∈ earlier.filter (fun p => !isHinted (usefulHints root o hints) p),
        p.IsNormal := fun p hp => hearlier p (List.mem_filter.mp hp).1
    have hcarry : ∀ p, p ∈ (PathSet.ofPaths (earlier.filter fun p =>
        !isHinted (usefulHints root o hints) p)).keys ↔
          p ∈ earlier ∧ isHinted (usefulHints root o hints) p = false := by
      intro p
      rw [PathSet.mem_ofPaths_iff hkept, List.mem_filter, Bool.not_eq_true']
    refine ⟨⟨hsorted.nodup_keys, hnormal, ?_, PathMap.sorted_ofList _, ?_⟩, hread, hcarry⟩
    · intro p hp
      exact hearlier p ((hcarry p).mp hp).1
    · intro p hp hpc
      obtain ⟨hint, hhint, hstands⟩ := (hread p).mp hp
      have hhinted := (isHinted_iff _ p).mpr ⟨hint, hhint, hstands.isUnder⟩
      rw [((hcarry p).mp hpc).2] at hhinted
      cases hhinted

/-- The plan of a build without hints. -/
theorem sound_ofListed (hwf : t.WellFormed) {listed : List Path}
    (h : Listing.files t root o = .ok listed) : Sound ⟨listed, .empty⟩ where
  nodup := Listing.files_nodup hwf h
  read := Listing.files_normal hwf h
  carry := by simp [PathMap.IsNormal, PathMap.empty, PathMap.keys]
  sorted := PathMap.sorted_empty
  disjoint := by simp [PathMap.empty, PathMap.keys]

/-- A plan follows hints, or reads what is listed and carries nothing over. -/
theorem make_cases {earlier hints : Option (List Path)} {plan : ReadPlan}
    (h : make t root o earlier hints = .ok plan) :
    (∃ ps hs, earlier = some ps ∧ hints = some hs ∧ ofHints t root o ps hs = .ok plan) ∨
      ∃ listed, Listing.files t root o = .ok listed ∧ plan = ⟨listed, .empty⟩ := by
  unfold make at h
  split at h
  · rename_i ps hs
    exact Or.inl ⟨ps, hs, rfl, rfl, h⟩
  · split at h
    · rename_i listed hlisted
      exact Or.inr ⟨listed, hlisted, (Except.ok.inj h).symm⟩
    · cases h

/-- Without hints what is listed is read, and nothing is carried over. -/
theorem make_unhinted_iff {earlier : Option (List Path)} {plan : ReadPlan} :
    make t root o earlier none = .ok plan ↔
      ∃ listed, Listing.files t root o = .ok listed ∧ plan = ⟨listed, .empty⟩ := by
  constructor
  · intro h
    rcases make_cases h with ⟨_, _, -, hhints, -⟩ | hlisted
    · cases hhints
    · exact hlisted
  · rintro ⟨listed, hlisted, rfl⟩
    rw [make, hlisted]
    simp

/-- Every plan is sound, and carries over earlier paths only. -/
theorem make_sound (hwf : t.WellFormed) {earlier hints : Option (List Path)}
    (hearlier : ∀ ps, earlier = some ps → ∀ p ∈ ps, p.IsNormal)
    (hhints : ∀ hs, hints = some hs → ∀ h ∈ usefulHints root o hs, h.IsNormal)
    {plan : ReadPlan} (h : make t root o earlier hints = .ok plan) :
    plan.Sound ∧ ∀ p ∈ plan.carry.keys, ∃ ps, earlier = some ps ∧ p ∈ ps := by
  rcases make_cases h with ⟨ps, hs, rfl, rfl, hplan⟩ | ⟨listed, hlisted, rfl⟩
  · obtain ⟨hsound, -, hcarry⟩ := ofHints_spec hwf (hearlier ps rfl) (hhints hs rfl) hplan
    exact ⟨hsound, fun p hp => ⟨ps, rfl, ((hcarry p).mp hp).1⟩⟩
  · exact ⟨sound_ofListed hwf hlisted, fun p hp => by simp [PathMap.empty, PathMap.keys] at hp⟩

end ReadPlan

end SourceIndex
