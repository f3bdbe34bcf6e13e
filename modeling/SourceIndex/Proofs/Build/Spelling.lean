import Mathlib
import SourceIndex.Proofs.Build.Plan
import SourceIndex.Proofs.Path.Spelling

/-! # Plans for hints in any spelling

A plan tells paths apart by their parts, however they are spelled (`ReadPlan.Apart`): no two paths that
it reads have the same parts, and none has those of a path that it carries over. Hints with the same
parts lead to plans that carry over the same paths and read the same parts in the same order
(`ReadPlan.ofHints_congr`); only how the paths to read are spelled is left to the hints.
-/

set_option autoImplicit false

namespace SourceIndex

/-! ## Directories in other spellings -/

namespace FileTree

variable {t : FileTree} {links left : Nat} {here pieces pieces' names : List String}

namespace Leads

/-- Pieces that say nothing may be put in front, if those after them start from a directory. -/
theorem append_idle (hdir : t.hasDirectory here = true) (h : t.Leads links here pieces left names)
    {idle : List String} (hidle : ∀ p ∈ idle, ¬ (!Path.isIdle p) = true) :
    t.Leads links here (idle ++ pieces) left names := by
  induction idle with
  | nil => exact h
  | cons p idle ih =>
      have hp : Path.isIdle p = true := by simpa using hidle p List.mem_cons_self
      have hp : p = "" ∨ p = "." := by simpa only [Path.isIdle, Bool.or_eq_true, beq_iff_eq] using hp
      exact .stay hdir hp (ih fun q hq => hidle q (List.mem_cons_of_mem p hq))

theorem isIdle_of_names {p : String} (h : Names p) : (!Path.isIdle p) = true := by
  have hp := h.1
  rw [not_or] at hp
  simp [Path.isIdle, hp]

/-- Pieces that say the same lead to a directory alike. -/
theorem respelled (h : t.Leads links here pieces left names) (hdir : t.hasDirectory names = true)
    (hsame : pieces'.filter (fun p => !Path.isIdle p) = pieces.filter fun p => !Path.isIdle p) :
    t.Leads links here pieces' left names := by
  induction h generalizing pieces' with
  | done =>
      have hidle := List.filter_eq_nil_iff.mp hsame
      rw [← List.append_nil pieces']
      exact append_idle hdir .done hidle
  | stay _ hp _ ih =>
      refine ih hdir (hsame.trans (List.filter_cons_of_neg ?_))
      rcases hp with rfl | rfl <;> decide
  | up hhere _ ih =>
      rw [List.filter_cons_of_pos (by decide)] at hsame
      obtain ⟨idle, rest, rfl, hidle, -, hrest⟩ := List.filter_eq_cons_iff.mp hsame
      exact append_idle hhere (.up hhere (ih hdir hrest)) hidle
  | down hhere hp hitem hlink _ ih =>
      rw [List.filter_cons, if_pos (isIdle_of_names hp)] at hsame
      obtain ⟨idle, rest, rfl, hidle, -, hrest⟩ := List.filter_eq_cons_iff.mp hsame
      exact append_idle hhere (.down hhere hp hitem hlink (ih hdir hrest)) hidle
  | along hhere hp hitem _ ih =>
      rw [List.filter_cons, if_pos (isIdle_of_names hp)] at hsame
      obtain ⟨idle, rest, rfl, hidle, -, hrest⟩ := List.filter_eq_cons_iff.mp hsame
      refine append_idle hhere (.along hhere hp hitem (ih hdir ?_)) hidle
      rw [List.filter_append, List.filter_append, hrest]

end Leads

theorem isDirectory_iff (t : FileTree) (path : Path) :
    t.isDirectory path = true ↔ ∃ names, t.locate path = .ok names ∧ t.hasDirectory names = true := by
  rw [isDirectory]
  cases t.locate path <;> simp

/-- The pieces that say something of a relative path taken from a root. -/
theorem filter_pieces_join (root : Path) {p : Path} (hp : p.isAbsolute = false) :
    (FileTree.pieces (root.join p)).filter (fun n => !Path.isIdle n) =
      (FileTree.pieces root).filter (fun n => !Path.isIdle n) ++
        (p.parts.filter Path.moves).map Path.partText := by
  obtain ⟨lead, hjoin, hlead⟩ := pieces_join root hp
  have hroot : (FileTree.pieces root).filter (fun n => !Path.isIdle n) =
      lead.filter fun n => !Path.isIdle n := by
    rcases hlead with hlead | hlead
    · rw [hlead]
    · rw [hlead, List.filter_append]
      simp [Path.isIdle]
  have hpieces : FileTree.pieces p = Text.split (· == '/') p.text := rfl
  rw [hjoin, List.filter_append, hroot, hpieces,
    Path.filter_pieces (Text.split (· == '/') p.text), Path.filterMap_partOf_split]

/-- Whether a relative path leads to a directory is told by its parts. -/
theorem isDirectory_join_congr (t : FileTree) (root : Path) {p q : Path}
    (hp : p.isAbsolute = false) (hq : q.isAbsolute = false) (h : p.parts = q.parts) :
    t.isDirectory (root.join p) = t.isDirectory (root.join q) := by
  have himp : ∀ {p q : Path}, p.isAbsolute = false → q.isAbsolute = false → p.parts = q.parts →
      t.isDirectory (root.join p) = true → t.isDirectory (root.join q) = true := by
    intro p q hp hq h hdir
    obtain ⟨names, hlocate, hdir⟩ := (isDirectory_iff t _).mp hdir
    obtain ⟨left, hleads⟩ := leads_of_locateFrom hlocate
    have hsame : (FileTree.pieces (root.join q)).filter (fun n => !Path.isIdle n) =
        (FileTree.pieces (root.join p)).filter fun n => !Path.isIdle n := by
      rw [filter_pieces_join root hq, filter_pieces_join root hp, h]
    have hrespelled := hleads.respelled hdir hsame
    exact (isDirectory_iff t _).mpr ⟨names, hrespelled.locateFrom_eq, hdir⟩
  rw [Bool.eq_iff_iff]
  exact ⟨himp hp hq h, himp hq hp h.symm⟩

end FileTree

/-! ## Hints in other spellings -/

namespace ReadPlan

variable {t : FileTree} {root : Path} {o : WalkOptions} {hint hint' p q : Path}
  {hints hints' earlier : List Path} {start start' set set' : PathSet} {plan : ReadPlan}

/-- Paths have the same parts. -/
abbrev SameParts (p q : Path) : Prop := p.parts = q.parts

/-- Relative paths with the same parts: what one hint is taken for in two spellings. -/
structure Respelled (p q : Path) : Prop where
  parts : SameParts p q
  left : p.isAbsolute = false
  right : q.isAbsolute = false

namespace Respelled

theorem symm (h : Respelled p q) : Respelled q p := ⟨h.parts.symm, h.right, h.left⟩

theorem isDirectory_eq (h : Respelled p q) (t : FileTree) (root : Path) :
    t.isDirectory (root.join p) = t.isDirectory (root.join q) :=
  FileTree.isDirectory_join_congr t root h.left h.right h.parts

/-- Whether a path counts as a hint is told by its parts. -/
theorem counts_iff (h : Respelled p q) :
    (p.text ≠ "" && !o.isIgnored p) = true ↔ (q.text ≠ "" && !o.isIgnored q) = true := by
  have hnames : p.names = q.names := by rw [Path.names, Path.names, h.parts]
  have htext : p.text = "" ↔ q.text = "" := by
    rw [Path.text_eq_empty_iff h.left, Path.text_eq_empty_iff h.right, h.parts]
  rw [WalkOptions.isIgnored, WalkOptions.isIgnored, hnames]
  simp only [ne_eq, htext]

/-- What a hint stands for is told by its parts. -/
theorem standsFor (h : Respelled hint hint') {ps : List Part}
    (hstands : ∃ k, StandsFor t root o hint k ∧ k.parts = ps) :
    ∃ k, StandsFor t root o hint' k ∧ k.parts = ps := by
  obtain ⟨k, hstands, hparts⟩ := hstands
  rw [StandsFor] at hstands
  by_cases hdir : t.isDirectory (root.join hint) = true
  · -- a directory stands for the files under it, and those are listed in one spelling only
    rw [if_pos hdir] at hstands
    obtain ⟨listed, hlisted, hmem, hunder⟩ := hstands
    rw [Path.isUnder, h.parts] at hunder
    refine ⟨k, ?_, hparts⟩
    rw [StandsFor, ← h.isDirectory_eq, if_pos hdir]
    exact ⟨listed, hlisted, hmem, hunder⟩
  · rw [if_neg hdir] at hstands
    refine ⟨hint', ?_, by rw [← h.parts, ← hparts, hstands]⟩
    rw [StandsFor, ← h.isDirectory_eq, if_neg hdir]

end Respelled

/-- Hints with the same parts are taken from the root alike. -/
theorem relativeHint_congr (h : SameParts hint hint') :
    Option.Rel Respelled (relativeHint root hint) (relativeHint root hint') := by
  have habs : hint.isAbsolute = hint'.isAbsolute := by
    rw [Bool.eq_iff_iff, Path.isAbsolute_iff, Path.isAbsolute_iff, h]
  have hisSome : (hint.below? root).isSome = (hint'.below? root).isSome := by
    rw [Path.below?, Path.below?, Option.isSome_map, Option.isSome_map, h]
  by_cases hrel : hint.isAbsolute = true
  · rw [relativeHint, relativeHint, ← habs, if_pos hrel, if_pos hrel]
    cases hq : hint.below? root with
    | none =>
        rw [hq, Option.isSome_none] at hisSome
        rw [Option.not_isSome_iff_eq_none.mp (ne_true_of_eq_false hisSome.symm)]
        exact .none
    | some q =>
        rw [hq, Option.isSome_some] at hisSome
        obtain ⟨q', hq'⟩ := Option.isSome_iff_exists.mp hisSome.symm
        obtain ⟨hleft, hparts⟩ := Path.parts_below? hq
        obtain ⟨hright, hparts'⟩ := Path.parts_below? hq'
        rw [hq']
        refine .some ⟨?_, hleft, hright⟩
        rw [SameParts, hparts, hparts', h]
  · rw [relativeHint, relativeHint, ← habs, if_neg hrel, if_neg hrel]
    rw [Bool.not_eq_true] at hrel
    exact .some ⟨h, hrel, habs ▸ hrel⟩

/-- The same of them count. -/
theorem usefulHints_congr (h : List.Forall₂ SameParts hints hints') :
    List.Forall₂ Respelled (usefulHints root o hints) (usefulHints root o hints') :=
  List.rel_filter (fun _ _ hk => hk.counts_iff)
    (List.rel_filterMap (fun _ _ hk => relativeHint_congr hk) h)

/-! ## Sets of hinted paths -/

/-- What hints are followed to: sets in order that hold the same parts. -/
structure SameSets (set set' : PathSet) : Prop where
  left : set.Sorted
  right : set'.Sorted
  parts : set.keys.map Path.parts = set'.keys.map Path.parts

/-- A hint with the same parts can be followed alike, to a set with the same parts. -/
theorem SameSets.addHint (h : SameSets start start') (hhint : Respelled hint hint')
    (hset : addHint t root o start hint = .ok set) :
    ∃ set', addHint t root o start' hint' = .ok set' ∧ SameSets set set' := by
  obtain ⟨set', hset'⟩ : ∃ set', ReadPlan.addHint t root o start' hint' = .ok set' := by
    rw [ReadPlan.addHint] at hset ⊢
    rw [← hhint.isDirectory_eq]
    split at hset
    · rename_i hdir
      rw [if_pos hdir]
      split at hset
      · exact ⟨_, rfl⟩
      · cases hset
    · rename_i hdir
      exact ⟨_, if_neg hdir⟩
  obtain ⟨hsorted, -, hparts⟩ := addHint_spec hset
  obtain ⟨hsorted', -, hparts'⟩ := addHint_spec hset'
  refine ⟨set', hset', hsorted h.left, hsorted' h.right, ?_⟩
  -- sets in order are told apart by the parts that they hold
  refine (hsorted h.left).map_parts_eq (hsorted' h.right) fun ps => ?_
  have hstart : (∃ k ∈ start.keys, k.parts = ps) ↔ ∃ k ∈ start'.keys, k.parts = ps := by
    rw [← List.mem_map, ← List.mem_map, h.parts]
  rw [hparts, hparts', hstart]
  exact or_congr_left ⟨hhint.standsFor, hhint.symm.standsFor⟩

theorem SameSets.addHints (h : SameSets start start') (hhints : List.Forall₂ Respelled hints hints')
    (hset : addHints t root o start hints = .ok set) :
    ∃ set', addHints t root o start' hints' = .ok set' ∧ SameSets set set' := by
  induction hhints generalizing start start' with
  | nil =>
      cases hset
      exact ⟨start', rfl, h⟩
  | cons hhint _ ih =>
      rw [ReadPlan.addHints] at hset
      split at hset
      · rename_i mid hmid
        obtain ⟨mid', hmid', hsame⟩ := h.addHint hhint hmid
        rw [ReadPlan.addHints, hmid']
        exact ih hsame hset
      · cases hset

/-! ## Plans -/

theorem isHinted_congr (h : SameParts p q) : isHinted hints p = isHinted hints q := by
  simp only [isHinted, Path.isUnder, h]

theorem isHinted_respelled (h : List.Forall₂ Respelled hints hints') (p : Path) :
    isHinted hints p = isHinted hints' p := by
  rw [isHinted, isHinted]
  induction h with
  | nil => rfl
  | cons hk _ ih => rw [List.any_cons, List.any_cons, ih, Path.isUnder, Path.isUnder, hk.parts]

/-- The plan of a build that follows hints reads what they stand for, and carries earlier paths
over. -/
theorem ofHints_apart (h : ofHints t root o earlier hints = .ok plan) :
    plan.Apart ∧ (∀ p ∈ plan.carry.keys, p ∈ earlier) ∧
      ∀ p ∈ plan.read, ∃ k ∈ usefulHints root o hints, StandsFor t root o k p := by
  rw [ofHints] at h
  split at h
  · cases h
  · rename_i set hset
    cases h
    obtain ⟨hsorted, hkeys, -⟩ := addHints_spec hset
    have hsorted := hsorted PathMap.sorted_empty
    have hread : ∀ p ∈ set.keys, ∃ k ∈ usefulHints root o hints, StandsFor t root o k p := by
      intro p hp
      refine (hkeys p hp).resolve_right ?_
      simp [PathMap.empty, PathMap.keys]
    have hcarry : ∀ p ∈ (PathSet.ofPaths (earlier.filter fun p =>
        !isHinted (usefulHints root o hints) p)).keys,
        p ∈ earlier ∧ isHinted (usefulHints root o hints) p = false := by
      intro p hp
      obtain ⟨e, he, rfl⟩ := List.mem_map.mp hp
      obtain ⟨q, hq, rfl⟩ := List.mem_map.mp (PathMap.mem_ofList he)
      simpa [List.mem_filter] using hq
    refine ⟨⟨hsorted.nodup_parts, PathMap.sorted_ofList _, ?_⟩, fun p hp => (hcarry p hp).1, hread⟩
    intro p hp q hq hparts
    obtain ⟨k, hk, hstands⟩ := hread p hp
    have hhinted := (isHinted_iff _ p).mpr ⟨k, hk, hstands.isUnder⟩
    rw [isHinted_congr hparts, (hcarry q hq).2] at hhinted
    cases hhinted

/-- So does every other plan. -/
theorem make_apart (hwf : t.WellFormed) {earlier hints : Option (List Path)}
    (h : make t root o earlier hints = .ok plan) :
    plan.Apart ∧ ∀ p ∈ plan.carry.keys, ∃ ps, earlier = some ps ∧ p ∈ ps := by
  rcases make_cases h with ⟨ps, hs, rfl, rfl, hplan⟩ | ⟨listed, hlisted, rfl⟩
  · obtain ⟨hapart, hcarry, -⟩ := ofHints_apart hplan
    exact ⟨hapart, fun p hp => ⟨ps, rfl, hcarry p hp⟩⟩
  · exact ⟨(sound_ofListed hwf hlisted).apart, by simp [PathMap.empty, PathMap.keys]⟩

/-- Hints with the same parts lead to plans that carry over the same paths, and read the same parts
in the same order. -/
theorem ofHints_congr (h : List.Forall₂ SameParts hints hints')
    (hplan : ofHints t root o earlier hints = .ok plan) :
    ∃ plan', ofHints t root o earlier hints' = .ok plan' ∧ plan'.carry = plan.carry ∧
      List.Forall₂ SameParts plan.read plan'.read := by
  have huseful : List.Forall₂ Respelled (usefulHints root o hints) (usefulHints root o hints') :=
    usefulHints_congr h
  have hhinted : ∀ p, isHinted (usefulHints root o hints') p =
      isHinted (usefulHints root o hints) p :=
    fun p => (isHinted_respelled huseful p).symm
  rw [ofHints] at hplan
  split at hplan
  · cases hplan
  · rename_i set hset
    cases hplan
    have hempty : SameSets .empty .empty := ⟨PathMap.sorted_empty, PathMap.sorted_empty, rfl⟩
    obtain ⟨set', hset', hsame⟩ := hempty.addHints huseful hset
    refine ⟨{ read := set'.paths
              carry := .ofPaths (earlier.filter fun p => !isHinted (usefulHints root o hints) p) },
      ?_, rfl, ?_⟩
    · rw [ofHints, hset']
      simp only [hhinted]
    · have hparts := hsame.parts
      rw [← List.forall₂_eq_eq_eq, List.forall₂_map_left_iff, List.forall₂_map_right_iff] at hparts
      exact hparts

end ReadPlan

end SourceIndex
