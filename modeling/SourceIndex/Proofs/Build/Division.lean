import Mathlib
import SourceIndex.Proofs.Build.Taken

/-! # Read or carried over

Hints divide the earlier paths: those that equal a hint or lie under one are read, if they are still
there, and all others are carried over unread (`ReadPlan.Divides`), in whatever spelling the hints are
given and however they overlap. No path is in both parts, so no file is both carried over and cut anew,
and no file that is not hinted at is lost (`BuildContext.Settles`).

Nothing is assumed of the earlier records here, nor of the tree.
-/

set_option autoImplicit false

namespace SourceIndex

namespace ReadPlan

variable {t : FileTree} {root : Path} {o : WalkOptions} {earlier hints : List Path}
  {plan : ReadPlan}

/-- A path equals a hint that counts, or lies under one. -/
def HintedAt (root : Path) (o : WalkOptions) (hints : List Path) (p : Path) : Prop :=
  ∃ hint ∈ hints, ∃ r, relativeHint root hint = some r ∧ r.text ≠ "" ∧ o.isIgnored r = false ∧
    p.isUnder r = true

theorem hintedAt_iff {p : Path} :
    HintedAt root o hints p ↔ isHinted (usefulHints root o hints) p = true := by
  simp only [HintedAt, isHinted_iff, usefulHints, List.mem_filter, List.mem_filterMap, ne_eq,
    Bool.and_eq_true, decide_eq_true_eq, Bool.not_eq_true']
  constructor
  · rintro ⟨hint, hhint, r, hr, htext, hignored, hunder⟩
    exact ⟨r, ⟨⟨hint, hhint, hr⟩, htext, hignored⟩, hunder⟩
  · rintro ⟨r, ⟨⟨hint, hhint, hr⟩, htext, hignored⟩, hunder⟩
    exact ⟨hint, hhint, r, hr, htext, hignored, hunder⟩

/-- A plan divides the earlier paths: none that it carries over is read, none is read twice, and those
that are not carried over are hinted at. Paths with the same parts are the same. -/
structure Divides (plan : ReadPlan) (root : Path) (o : WalkOptions) (earlier hints : List Path) :
    Prop where
  disjoint : ∀ p ∈ plan.read, plan.carry.contains p = false
  nodup : plan.read.Pairwise fun p q => p.same q = false
  carried : ∀ p ∈ plan.carry.paths, p ∈ earlier ∧ ¬ HintedAt root o hints p
  hinted : ∀ p ∈ earlier, plan.carry.contains p = true ∨ HintedAt root o hints p

/-- Every earlier path that is not hinted at is carried over. -/
theorem contains_carry_iff (h : ofHints t root o earlier hints = .ok plan) {p : Path} :
    plan.carry.contains p = true ↔
      ∃ q ∈ earlier, isHinted (usefulHints root o hints) q = false ∧ q.parts = p.parts := by
  rw [ofHints] at h
  split at h
  · cases h
  · cases h
    simp [PathSet.contains_ofPaths_iff, List.mem_filter, and_assoc]

theorem ofHints_divides (h : ofHints t root o earlier hints = .ok plan) :
    plan.Divides root o earlier hints where
  disjoint p hp := by
    rw [Bool.eq_false_iff]
    intro hcontains
    obtain ⟨q, hq, hparts⟩ := (PathMap.contains_iff _ _).mp hcontains
    exact (ofHints_apart h).1.disjoint p hp q hq hparts.symm
  nodup := by
    refine (List.pairwise_map.mp (ofHints_apart h).1.read).imp fun {p q} hne => ?_
    simpa [Path.same] using hne
  carried p hp := by
    refine ⟨(ofHints_apart h).2.1 p hp, fun hhinted => ?_⟩
    have hcontains : plan.carry.contains p = true := (PathMap.contains_iff _ _).mpr ⟨p, hp, rfl⟩
    obtain ⟨q, -, hq, hparts⟩ := (contains_carry_iff h).mp hcontains
    rw [isHinted_congr hparts, hintedAt_iff.mp hhinted] at hq
    cases hq
  hinted p hp := by
    rw [contains_carry_iff h, hintedAt_iff]
    cases hhinted : isHinted (usefulHints root o hints) p with
    | true => exact .inr rfl
    | false => exact .inl ⟨p, hp, hhinted, rfl⟩

/-- Following hints fails only where the project cannot be listed. -/
theorem files_of_addHints_error {hs : List Path} {set : PathSet} {f : Fault}
    (h : addHints t root o set hs = .error f) : Listing.files t root o = .error f := by
  induction hs generalizing set with
  | nil => cases h
  | cons hint hs ih =>
    rw [addHints] at h
    split at h
    · exact ih h
    · rename_i f' hf
      cases h
      rw [addHint] at hf
      split at hf
      · split at hf
        · cases hf
        · rename_i hlisted
          cases hf
          exact hlisted
      · cases hf

theorem files_of_ofHints_error {f : Fault} (h : ofHints t root o earlier hints = .error f) :
    Listing.files t root o = .error f := by
  rw [ofHints] at h
  split at h
  · rename_i hset
    cases h
    exact files_of_addHints_error hset
  · cases h

end ReadPlan

namespace BuildContext

variable {x : BuildContext} {t : FileTree} {o : BuildOptions} {b : BuildBase} {plan : ReadPlan}
  {hints : List Path} {p : Prepared}

/-- What a plan that follows hints makes of the earlier files: every file of the new generation is
carried over or cut anew, no path is among both or twice among one, and what is not hinted at keeps
its record and its chunks, though these may lose their vectors. -/
structure Settles (x : BuildContext) (t : FileTree) (o : BuildOptions) (b : BuildBase)
    (hints : List Path) (plan : ReadPlan) (p : Prepared) : Prop where
  files : p.files.Perm ((x.cuts o (some b) (x.sorting t o (some b) plan)).map CutFile.record)
  apart : ((x.carriedCuts o (some b) (x.sorting t o (some b) plan) ++
    x.newCuts o (some b) (x.sorting t o (some b) plan)).map fun c => c.record.path.parts).Nodup
  kept : ∀ path ∈ b.records.keys, ¬ ReadPlan.HintedAt x.root (x.walk o (some b)) hints path →
    ∃ f, b.records.get? path = some f ∧ f.path = path ∧ f ∈ p.files ∧
      (b.store.chunksOf path).map Chunk.bare ⊆ p.chunks.map Chunk.bare

/-- What is carried over unread is kept. -/
theorem kept_of_mem_carry (h : plan.Apart) {path : Path} (hpath : path ∈ plan.carry.keys)
    (hkey : path ∈ b.records.keys) :
    ∃ f, b.records.get? path = some f ∧ f.path = path ∧
      f ∈ (Prepared.ofSorting x o (some b) (x.sorting t o (some b) plan)).files ∧
      (b.store.chunksOf path).map Chunk.bare ⊆
        (Prepared.ofSorting x o (some b) (x.sorting t o (some b) plan)).chunks.map Chunk.bare := by
  obtain ⟨⟨k, f⟩, hf, rfl⟩ := List.mem_map.mp hkey
  have hown : f.path = k := by
    obtain ⟨g, -, hg⟩ := List.mem_map.mp (PathMap.mem_ofList hf)
    cases hg
    rfl
  have hget : b.records.get? k = some f := (PathMap.sorted_ofList _).get?_of_mem hf rfl
  have hmem : x.keep o b k f ∈ x.planned t o b plan :=
    List.mem_append_left _ (List.mem_filterMap.mpr ⟨k, hpath, by rw [kept, hget]; rfl⟩)
  refine ⟨f, hget, hown, (perm_files h).mem_iff.mpr (List.mem_map_of_mem hmem), ?_⟩
  rw [← map_bare_keep (x := x) (o := o) k f]
  refine List.map_subset _ fun d hd => (perm_chunks h).mem_iff.mpr ?_
  exact List.mem_flatMap.mpr ⟨_, hmem, hd⟩

theorem settles_of_make
    (hplan : ReadPlan.ofHints t x.root (x.walk o (some b)) b.records.keys hints = .ok plan)
    (hp : p = Prepared.ofSorting x o (some b) (x.sorting t o (some b) plan)) :
    x.Settles t o b hints plan p := by
  have hapart := (ReadPlan.ofHints_apart hplan).1
  have hdivides := ReadPlan.ofHints_divides hplan
  subst hp
  refine ⟨?_, ?_, fun path hpath hhinted => ?_⟩
  · rw [Prepared.files_ofSorting]
    exact List.mergeSort_perm _ _
  · have hcuts := (perm_cuts (x := x) (t := t) (o := o) (b := b) hapart).map fun c =>
      c.record.path.parts
    exact hcuts.nodup_iff.mpr (nodup_planned hapart)
  · have hcontains := (hdivides.hinted path hpath).resolve_right hhinted
    obtain ⟨k, hk, hparts⟩ := (PathMap.contains_iff _ _).mp hcontains
    -- the earlier paths are told apart by their parts
    have hkey := (hdivides.carried k hk).1
    obtain rfl : k = path :=
      List.inj_on_of_nodup_map (PathMap.sorted_ofList _).nodup_parts hkey hpath hparts
    exact kept_of_mem_carry hapart hk hpath

end BuildContext

namespace ReadPlan

/-- For any earlier paths, any hints and any tree, a plan is made unless the project cannot be listed,
and it divides the earlier paths. So whatever is built by it from records with these paths neither
carries a file over that it cuts anew, nor loses one that is not hinted at. -/
theorem make_divides (t : FileTree) (root : Path) (o : WalkOptions) (earlier hints : List Path) :
    (∀ f, make t root o (some earlier) (some hints) = .error f →
      Listing.files t root o = .error f) ∧
    ∀ plan, make t root o (some earlier) (some hints) = .ok plan →
      plan.Divides root o earlier hints ∧
        ∀ (x : BuildContext) (o' : BuildOptions) (b : BuildBase) (p : Prepared),
          x.root = root → x.walk o' (some b) = o → b.records.keys = earlier →
          Prepared.make t x o' (some b) (some hints) = .ok p → x.Settles t o' b hints plan p := by
  refine ⟨fun f hf => files_of_ofHints_error hf, fun plan hplan => ?_⟩
  refine ⟨ofHints_divides hplan, ?_⟩
  rintro x o' b p rfl rfl rfl hp
  obtain ⟨plan', hplan', -, -, -, hp⟩ := (Prepared.make_ok_iff _ _).mp hp
  obtain rfl : plan' = plan := Except.ok.inj (hplan'.symm.trans hplan)
  exact BuildContext.settles_of_make hplan hp

/-- A project with a file in a directory. -/
def packageTree : FileTree :=
  ⟨[(["p"], .directory), (["p", "pkg"], .directory),
    (["p", "pkg", "b.py"], .file "y = 2\n".toUTF8)]⟩

/-- What it is built with. -/
def packageContext : BuildContext := ⟨⟨"/p"⟩, default, none, fun _ _ => none⟩

/-- An earlier generation of it, with another file. -/
def packageBase : BuildBase where
  facts := default
  store.files := [⟨⟨"a.py"⟩, "python", 6, 0, "", false⟩]

/-- Hints at the directory, at the file in it, at one that is gone and at one outside, some of them not
in their normal spelling. -/
def packageHints : List Path := [⟨"/p/./pkg/"⟩, ⟨"pkg//b.py"⟩, ⟨"gone.py"⟩, ⟨"/q/a.py"⟩]

/-- The hinted files are read once each, and the earlier file is carried over. -/
theorem divides_package : ∃ plan prepared,
    make packageTree packageContext.root (packageContext.walk {} (some packageBase))
      (some packageBase.records.keys) (some packageHints) = .ok plan ∧
    plan.read = [⟨"gone.py"⟩, ⟨"pkg/b.py"⟩] ∧ plan.carry.paths = [⟨"a.py"⟩] ∧
    Prepared.make packageTree packageContext {} (some packageBase) (some packageHints) =
      .ok prepared ∧
    plan.Divides packageContext.root (packageContext.walk {} (some packageBase))
      packageBase.records.keys packageHints ∧
    packageContext.Settles packageTree {} packageBase packageHints plan prepared := by
  have hplan : (make packageTree packageContext.root (packageContext.walk {} (some packageBase))
      (some packageBase.records.keys) (some packageHints)).toOption.map
        (fun plan => (plan.read, plan.carry.paths)) =
      some ([⟨"gone.py"⟩, ⟨"pkg/b.py"⟩], [⟨"a.py"⟩]) := by decide +kernel
  obtain ⟨plan, hplan, hpaths⟩ := Option.map_eq_some_iff.mp hplan
  obtain ⟨hread, hcarry⟩ := Prod.mk.inj hpaths
  have hplan := Except.eq_ok_of_toOption hplan
  obtain ⟨prepared, hprepared⟩ : ∃ prepared, Prepared.make packageTree packageContext {}
      (some packageBase) (some packageHints) = .ok prepared :=
    Except.exists_of_isOk (by decide +kernel)
  have hdivides := (make_divides packageTree packageContext.root
    (packageContext.walk {} (some packageBase)) packageBase.records.keys packageHints).2 plan hplan
  exact ⟨plan, prepared, hplan, hread, hcarry, hprepared, hdivides.1,
    hdivides.2 packageContext {} packageBase prepared rfl rfl rfl hprepared⟩

end ReadPlan

end SourceIndex
