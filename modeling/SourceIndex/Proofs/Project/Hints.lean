import Mathlib
import SourceIndex.Proofs.Project.Agreement

/-! # When hints will do

A build that follows hints yields the index that a build without hints yields exactly if the hints
suffice (`ReadPlan.Suffices`, `Run.hinted_agrees_iff`): whatever they do not cover is recorded as it
is, whatever they name is listed if it can be read, and gone from the index if it cannot. Hints that
name the root itself are not among those that count.
-/

set_option autoImplicit false

namespace SourceIndex

/-- A file is recorded with a digest. -/
def Store.Records (s : Store) (p : Path) (hash : String) : Prop :=
  ∃ f ∈ s.files, f.path = p ∧ f.contentHash = hash

/-- A file is listed, and its text has a digest. -/
def Listing.Holds (t : FileTree) (root : Path) (o : WalkOptions) (p : Path) (hash : String) : Prop :=
  ∃ listed, files t root o = .ok listed ∧ p ∈ listed ∧
    ∃ file, readSource t root p o = .ok (some file) ∧ file.contentHash = hash

/-- Hints suffice to bring an index up to date: a file that lies under none of them is recorded
exactly as it is listed, and a hint that is no directory is listed if a text can be read there, and
not recorded if it cannot be read although something is in its place. -/
structure ReadPlan.Suffices (t : FileTree) (root : Path) (o : WalkOptions) (earlier : Store)
    (hints : List Path) : Prop where
  unhinted : ∀ p, isHinted hints p = false → ∀ hash,
    earlier.Records p hash ↔ Listing.Holds t root o p hash
  listed : ∀ h ∈ hints, t.isDirectory (root.join h) = false → ∀ file,
    Listing.readSource t root h o = .ok (some file) →
      ∃ listed, Listing.files t root o = .ok listed ∧ h ∈ listed
  readable : ∀ h ∈ hints, t.isDirectory (root.join h) = false → ∀ obstacle,
    Listing.readSource t root h o = .error obstacle → obstacle ≠ .missing →
      ∀ hash, ¬ earlier.Records h hash

namespace ReadPlan

variable {t : FileTree} {root : Path} {o : WalkOptions} {hints listed : List Path}

/-- What a hint stands for is listed, or is the hint itself. -/
theorem StandsFor.listed_or_eq {h p : Path} (hstands : StandsFor t root o h p)
    (hlisted : Listing.files t root o = .ok listed) :
    p ∈ listed ∨ p = h ∧ t.isDirectory (root.join h) = false := by
  rw [StandsFor] at hstands
  split at hstands
  · obtain ⟨listed', hlisted', hp, -⟩ := hstands
    rw [hlisted] at hlisted'
    obtain rfl := Except.ok.inj hlisted'
    exact Or.inl hp
  · rename_i hdir
    exact Or.inr ⟨hstands, by simpa using hdir⟩

/-- A listed file is among those that a hint above it stands for. -/
theorem standsFor_of_listed (hwf : t.WellFormed) (hlisted : Listing.files t root o = .ok listed)
    {h p : Path} (hp : p ∈ listed) (hh : h.IsNormal) (hne : h.text ≠ "")
    (hunder : p.isUnder h = true) : StandsFor t root o h p := by
  rw [StandsFor]
  split
  · exact ⟨listed, hlisted, hp, hunder⟩
  · rename_i hdir
    by_contra hstrict
    exact hdir (Listing.isDirectory_of_listed hwf hlisted hp hh hne hunder hstrict)

/-- What hints stand for is covered by them. -/
theorem isHinted_of_standsFor {p : Path} (h : ∃ k ∈ hints, StandsFor t root o k p) :
    isHinted hints p = true := by
  obtain ⟨k, hk, hstands⟩ := h
  exact (isHinted_iff _ p).mpr ⟨k, hk, hstands.isUnder⟩

theorem standsFor_self {h : Path} (hdir : t.isDirectory (root.join h) = false) :
    StandsFor t root o h h := by
  rw [StandsFor, hdir]
  exact rfl

/-- Where the files can be listed, hints can be followed. -/
theorem ofHints_isOk (hlisted : Listing.files t root o = .ok listed) (earlier hints : List Path) :
    ∃ plan, ofHints t root o earlier hints = .ok plan := by
  obtain ⟨set, hset⟩ := addHints_isOk (usefulHints root o hints) .empty hlisted
  rw [ofHints, hset]
  exact ⟨_, rfl⟩

theorem text_ne_of_useful {hints : List Path} {h : Path} (hh : h ∈ usefulHints root o hints) :
    h.text ≠ "" := by
  have hkept := (List.mem_filter.mp hh).2
  simp only [Bool.and_eq_true, decide_eq_true_eq] at hkept
  exact hkept.1

end ReadPlan

variable {t : FileTree} {x : BuildContext} {o : BuildOptions} {b : BuildBase} {texts : Set String}
  {plan : ReadPlan} {hints listed : List Path}

theorem Sorting.fails_iff (r : Reading) :
    fails r = true ↔ ∃ obstacle, r.result = .error obstacle ∧ obstacle ≠ .missing := by
  rw [fails]
  split
  · simp_all
  · simp_all
  · rename_i obstacle hne herror
    simp only [herror, Except.error.injEq, exists_eq_left', true_iff]
    rintro rfl
    exact hne rfl

namespace BuildContext.Ready

/-- A file that no hint covers stays recorded as it was. -/
theorem records_unhinted (h : x.Ready t o (some b) texts plan) (hints : List Path)
    (hread : ∀ p ∈ plan.read, ReadPlan.isHinted hints p = true)
    (hcarry : ∀ p, p ∈ plan.carry.keys ↔ p ∈ b.records.keys ∧ ReadPlan.isHinted hints p = false)
    {p : Path} (hp : ReadPlan.isHinted hints p = false) (hash : String) :
    (∃ f ∈ (Prepared.ofSorting x o (some b) (x.sorting t o (some b) plan)).files,
        f.path = p ∧ f.contentHash = hash) ↔ b.store.Records p hash := by
  have hunread : p ∉ plan.read := by
    intro hmem
    rw [hread p hmem] at hp
    cases hp
  rw [h.mem_files_iff]
  constructor
  · rintro (⟨hmem, -⟩ | ⟨-, b', hb', hrecorded⟩)
    · exact absurd hmem hunread
    · obtain rfl := Option.some.inj hb'
      exact hrecorded
  · rintro ⟨f, hf, hpath, hhash⟩
    have hkey := (BuildBase.mem_keys_iff (h.fresh b rfl) p).mpr ⟨f, hf, hpath⟩
    exact Or.inr ⟨Or.inl ((hcarry p).mpr ⟨hkey, hp⟩), b, rfl, f, hf, hpath, hhash⟩

/-- A file that a hint covers is recorded as it was read, or as before if it could not be. -/
theorem records_hinted (h : x.Ready t o (some b) texts plan) (hints : List Path)
    (hcarry : ∀ p, p ∈ plan.carry.keys ↔ p ∈ b.records.keys ∧ ReadPlan.isHinted hints p = false)
    {p : Path} (hp : ReadPlan.isHinted hints p = true) (hash : String) :
    (∃ f ∈ (Prepared.ofSorting x o (some b) (x.sorting t o (some b) plan)).files,
        f.path = p ∧ f.contentHash = hash) ↔
      p ∈ plan.read ∧
        ((∃ file, Listing.readSource t x.root p (x.walk o (some b)) = .ok (some file) ∧
            file.contentHash = hash) ∨
          (∃ obstacle, Listing.readSource t x.root p (x.walk o (some b)) = .error obstacle ∧
            obstacle ≠ .missing) ∧ b.store.Records p hash) := by
  have huncarried : p ∉ plan.carry.keys := by
    intro hmem
    rw [((hcarry p).mp hmem).2] at hp
    cases hp
  rw [h.mem_files_iff]
  constructor
  · rintro (⟨hmem, hfile⟩ | ⟨hmem | ⟨hmem, hfails⟩, b', hb', hrecorded⟩)
    · exact ⟨hmem, Or.inl hfile⟩
    · exact absurd hmem huncarried
    · obtain rfl := Option.some.inj hb'
      exact ⟨hmem, Or.inr ⟨(Sorting.fails_iff _).mp hfails, hrecorded⟩⟩
  · rintro ⟨hmem, hfile | ⟨hfails, hrecorded⟩⟩
    · exact Or.inl ⟨hmem, hfile⟩
    · exact Or.inr ⟨Or.inr ⟨hmem, (Sorting.fails_iff _).mpr hfails⟩, b, rfl, hrecorded⟩

/-- If a build with hints records what is listed, then the hints suffice. -/
theorem suffices_of_holds (h : x.Ready t o (some b) texts plan) (hints : List Path)
    (hread : ∀ p, p ∈ plan.read ↔ ∃ k ∈ hints, ReadPlan.StandsFor t x.root (x.walk o (some b)) k p)
    (hcarry : ∀ p, p ∈ plan.carry.keys ↔ p ∈ b.records.keys ∧ ReadPlan.isHinted hints p = false)
    (hholds : ∀ p hash, (∃ f ∈ (Prepared.ofSorting x o (some b) (x.sorting t o (some b) plan)).files,
        f.path = p ∧ f.contentHash = hash) ↔
        Listing.Holds t x.root (x.walk o (some b)) p hash) :
    ReadPlan.Suffices t x.root (x.walk o (some b)) b.store hints := by
  have hcovered : ∀ p ∈ plan.read, ReadPlan.isHinted hints p = true := fun p hp =>
    ReadPlan.isHinted_of_standsFor ((hread p).mp hp)
  -- a hint that is no directory is read as it stands
  have hself : ∀ k ∈ hints, t.isDirectory (x.root.join k) = false → k ∈ plan.read :=
    fun k hk hdir => (hread k).mpr ⟨k, hk, ReadPlan.standsFor_self hdir⟩
  constructor
  case unhinted =>
    intro p hp hash
    rw [← h.records_unhinted _ hcovered hcarry hp]
    exact hholds p hash
  case listed =>
    intro k hk hdir file hfile
    have hmem := hself k hk hdir
    obtain ⟨listed, hlisted, hp, -⟩ := (hholds k file.contentHash).mp
      ((h.records_hinted _ hcarry (hcovered k hmem) _).mpr ⟨hmem, Or.inl ⟨file, hfile, rfl⟩⟩)
    exact ⟨listed, hlisted, hp⟩
  case readable =>
    intro k hk hdir obstacle herror hne hash hrecorded
    have hmem := hself k hk hdir
    obtain ⟨_, _, _, file, hfile, -⟩ := (hholds k hash).mp
      ((h.records_hinted _ hcarry (hcovered k hmem) _).mpr
        ⟨hmem, Or.inr ⟨⟨obstacle, herror, hne⟩, hrecorded⟩⟩)
    rw [herror] at hfile
    cases hfile

/-- What is recorded of a file that the hints cover is what is listed, if they suffice. -/
theorem read_iff_holds (hwf : t.WellFormed)
    (hlisted : Listing.files t x.root (x.walk o (some b)) = .ok listed)
    (hlegible : Listing.Legible t x.root (x.walk o (some b)))
    (hnormal : ∀ k ∈ hints, k.IsNormal ∧ k.text ≠ "")
    (hread : ∀ p, p ∈ plan.read ↔ ∃ k ∈ hints, ReadPlan.StandsFor t x.root (x.walk o (some b)) k p)
    (hsuffices : ReadPlan.Suffices t x.root (x.walk o (some b)) b.store hints) {p : Path}
    (hp : ReadPlan.isHinted hints p = true) (hash : String) :
    (p ∈ plan.read ∧
        ((∃ file, Listing.readSource t x.root p (x.walk o (some b)) = .ok (some file) ∧
            file.contentHash = hash) ∨
          (∃ obstacle, Listing.readSource t x.root p (x.walk o (some b)) = .error obstacle ∧
            obstacle ≠ .missing) ∧ b.store.Records p hash)) ↔
      Listing.Holds t x.root (x.walk o (some b)) p hash := by
  constructor
  · rintro ⟨hmem, hfound⟩
    obtain ⟨k, hk, hstands⟩ := (hread p).mp hmem
    rcases hstands.listed_or_eq hlisted with hp | ⟨rfl, hdir⟩
    · rcases hfound with hfile | ⟨⟨obstacle, herror, -⟩, -⟩
      · exact ⟨listed, hlisted, hp, hfile⟩
      · exact absurd herror (hlegible listed hlisted p hp obstacle)
    · -- the hint itself, which need not be listed
      rcases hfound with ⟨file, hfile, hhash⟩ | ⟨⟨obstacle, herror, hne⟩, hrecorded⟩
      · obtain ⟨listed', hlisted', hp⟩ := hsuffices.listed p hk hdir file hfile
        exact ⟨listed', hlisted', hp, file, hfile, hhash⟩
      · exact absurd hrecorded (hsuffices.readable p hk hdir obstacle herror hne hash)
  · rintro ⟨listed', hlisted', hmem, hfile⟩
    obtain ⟨k, hk, hunder⟩ := (ReadPlan.isHinted_iff _ p).mp hp
    obtain ⟨hk', hne⟩ := hnormal k hk
    exact ⟨(hread p).mpr ⟨k, hk, ReadPlan.standsFor_of_listed hwf hlisted' hmem hk' hne hunder⟩,
      Or.inl hfile⟩

/-- What a build with hints records is what is listed exactly if the hints suffice. -/
theorem holds_iff_suffices (h : x.Ready t o (some b) texts plan)
    (hwf : t.WellFormed) (hlisted : Listing.files t x.root (x.walk o (some b)) = .ok listed)
    (hlegible : Listing.Legible t x.root (x.walk o (some b)))
    (hhints : ∀ k ∈ ReadPlan.usefulHints x.root (x.walk o (some b)) hints, k.IsNormal)
    (hplan : ReadPlan.ofHints t x.root (x.walk o (some b)) b.records.keys hints = .ok plan) :
    (∀ p hash, (∃ f ∈ (Prepared.ofSorting x o (some b) (x.sorting t o (some b) plan)).files,
        f.path = p ∧ f.contentHash = hash) ↔
        Listing.Holds t x.root (x.walk o (some b)) p hash) ↔
      ReadPlan.Suffices t x.root (x.walk o (some b)) b.store
        (ReadPlan.usefulHints x.root (x.walk o (some b)) hints) := by
  have hearlier : ∀ p ∈ b.records.keys, p.IsNormal := by
    intro p hp
    obtain ⟨f, hf, rfl⟩ := BuildBase.exists_of_mem_keys hp
    exact (h.fresh b rfl).normal f hf
  obtain ⟨-, hread, hcarry⟩ := ReadPlan.ofHints_spec hwf hearlier hhints hplan
  refine ⟨h.suffices_of_holds _ hread hcarry, fun hsuffices p hash => ?_⟩
  cases hp : ReadPlan.isHinted (ReadPlan.usefulHints x.root (x.walk o (some b)) hints) p with
  | false =>
      rw [h.records_unhinted _ (fun p hp => ReadPlan.isHinted_of_standsFor ((hread p).mp hp)) hcarry
        hp]
      exact hsuffices.unhinted p hp hash
  | true =>
      rw [h.records_hinted _ hcarry hp]
      exact read_iff_holds hwf hlisted hlegible
        (fun k hk => ⟨hhints k hk, ReadPlan.text_ne_of_useful hk⟩) hread hsuffices hp hash

end BuildContext.Ready

/-- Not too large a share of what hints stand for cannot be read. -/
def BuildContext.Bears (x : BuildContext) (t : FileTree) (o : BuildOptions) (b : BuildBase)
    (hints : List Path) : Prop :=
  ∀ plan, ReadPlan.ofHints t x.root (x.walk o (some b)) b.records.keys hints = .ok plan →
    (x.sorting t o (some b) plan).exceeds plan.read.length x.settings.index.failureThreshold = false

theorem Listing.holds_iff {t : FileTree} {root : Path} {w : WalkOptions} {listed : List Path}
    (hlisted : files t root w = .ok listed) (p : Path) (hash : String) :
    Holds t root w p hash ↔ p ∈ listed ∧ ∃ file, readSource t root p w = .ok (some file) ∧
      file.contentHash = hash := by
  rw [Holds, hlisted]
  simp only [Except.ok.injEq, exists_eq_left']

theorem Store.SameIndex.records_iff {s s' : Store} (h : s.SameIndex s') (p : Path)
    (hash : String) : s.Records p hash ↔ s'.Records p hash := by
  rw [Records, Records]
  simp only [h.1.mem_iff]

namespace Project

/-- With hints the same start will do without them. -/
theorem Draftable.unhinted (h : Draftable texts t x (.incremental (some hints)) (some b)) :
    Draftable texts t x (.incremental none) (some b) where
  wellFormed := h.wellFormed
  fresh := h.fresh
  within := h.within
  inj := h.inj
  hints _ hhs := nomatch hhs

theorem Draftable.withHints (h : Draftable texts t x (.incremental none) (some b))
    (hhints : NormalHints x.root (some hints)) :
    Draftable texts t x (.incremental (some hints)) (some b) where
  wellFormed := h.wellFormed
  fresh := h.fresh
  within := h.within
  inj := h.inj
  hints := hhints

/-- A build with hints can draft the store that a build without hints drafts exactly if the hints
suffice and not too many files cannot be read. -/
theorem Draftable.hinted_iff (h : Draftable texts t x (.incremental (some hints)) (some b))
    (hlegible : Listing.Legible t x.root (x.walk o (some b))) (hstop : o.stop = none)
    (hmodel : ∀ m, x.model = some m → m.Replies) {id : Nat} {su : Store} {built : Built}
    (hsu : draft t x o (.incremental none) (some b) id = .ok (su, built)) (id' : Nat) :
    (∃ sh, (∃ built', draft t x o (.incremental (some hints)) (some b) id' = .ok (sh, built')) ∧
        sh.SameIndex su) ↔
      ReadPlan.Suffices t x.root (x.walk o (some b)) b.store
          (ReadPlan.usefulHints x.root (x.walk o (some b)) hints) ∧ x.Bears t o b hints := by
  have hnormal : ∀ k ∈ ReadPlan.usefulHints x.root (x.walk o (some b)) hints, k.IsNormal :=
    h.hints.useful _ rfl
  obtain ⟨plan, -, hplan, -, -, hfiles, hchunks⟩ := draft_spec h.unhinted hsu
  obtain ⟨listed, hlisted, rfl⟩ := ReadPlan.make_unhinted_iff.mp hplan
  have hready := h.unhinted.ready_listed rfl hlisted
  have hrecords : ∀ p hash, su.Records p hash ↔
      Listing.Holds t x.root (x.walk o (some b)) p hash := by
    intro p hash
    rw [Store.Records, hfiles, hready.mem_files_of_legible hlisted hlegible,
      Listing.holds_iff hlisted]
  constructor
  · rintro ⟨sh, ⟨built', hsh⟩, hsame⟩
    obtain ⟨plan, -, hplan, -, -, hfiles', -⟩ := draft_spec h hsh
    obtain ⟨plan', hplan', hfew, -⟩ := (draft_isOk_iff h hstop hmodel id').mp ⟨sh, built', hsh⟩
    refine ⟨((h.ready hplan).holds_iff_suffices h.wellFormed hlisted hlegible hnormal hplan).mp
      fun p hash => ?_, fun plan'' hplan'' => ?_⟩
    · rw [← hrecords, ← hsame.records_iff, Store.Records, hfiles']
    · have hplan' : ReadPlan.ofHints t x.root (x.walk o (some b)) b.records.keys hints =
          .ok plan' := hplan'
      rw [hplan''] at hplan'
      obtain rfl := Except.ok.inj hplan'
      exact hfew
  · rintro ⟨hsuffices, hbears⟩
    obtain ⟨plan, hplan⟩ := ReadPlan.ofHints_isOk hlisted b.records.keys hints
    have hready' := h.ready (o := o) hplan
    have hholds := (hready'.holds_iff_suffices h.wellFormed hlisted hlegible hnormal hplan).mpr
      hsuffices
    -- both builds record the same files, and so they have the same chunks
    have hperm := hready'.fresh_ofSorting.perm hready.fresh_ofSorting (h.inj b rfl) fun p hash => by
      rw [hholds, ← hrecords, Store.Records, hfiles]
    obtain ⟨_, hplanu, -, hunique⟩ :=
      (draft_isOk_iff h.unhinted hstop hmodel id).mp ⟨su, built, hsu⟩
    obtain ⟨listed', hlisted', rfl⟩ := ReadPlan.make_unhinted_iff.mp hplanu
    rw [hlisted] at hlisted'
    obtain rfl := Except.ok.inj hlisted'
    obtain ⟨sh, built', hsh⟩ := (draft_isOk_iff h hstop hmodel id').mpr
      ⟨plan, hplan, hbears plan hplan, (Store.SameIndex.nodup_iff hperm.2).mpr hunique⟩
    obtain ⟨plan', -, hplan', -, -, hfiles', hchunks'⟩ := draft_spec h hsh
    have hplan' : ReadPlan.ofHints t x.root (x.walk o (some b)) b.records.keys hints =
        .ok plan' := hplan'
    rw [hplan] at hplan'
    obtain rfl := Except.ok.inj hplan'
    refine ⟨sh, ⟨built', hsh⟩, ?_⟩
    rw [Store.SameIndex, hfiles, hfiles', hchunks, hchunks']
    exact hperm

end Project

/-! ## Runs -/

/-- Hints that yield what a build without hints yields suffice. -/
theorem Run.suffices_of_hinted {S : Scope} {w : Workspace} {p : Project}
    (hhint : ∀ q, S.hint q → q.IsNormal) (hinj : Set.InjOn Digest.ofText S.texts) (h : Run S w p)
    (htexts : ReadsWithin S.texts (Project.seen w p) p.root) {g : Generation}
    (hg : (Project.started w p).2.current = some g) {earlier : Store}
    (hearlier : g.reader (Project.seen w p) "failed to prepare query" "files" = .ok earlier)
    (hlegible : Listing.Legible (Project.seen w p) p.root
      ((WalkOptions.ofSettings p.settings.index).withLanguages g.facts.languages))
    (hnormal : Project.NormalHints p.root (some hints)) (hstop : o.stop = none)
    (hmodel : ∀ m, p.model = some m → m.Replies) {su sh : Store}
    (hsu : (Project.build w p S.parse (.incremental none) o).Yields su)
    (hsh : (Project.build w p S.parse (.incremental (some hints)) o).Yields sh)
    (hsame : sh.SameIndex su) :
    ReadPlan.Suffices (Project.seen w p) p.root
      ((WalkOptions.ofSettings p.settings.index).withLanguages g.facts.languages) earlier
      (ReadPlan.usefulHints p.root
        ((WalkOptions.ofSettings p.settings.index).withLanguages g.facts.languages) hints) := by
  have hprepares := (h.invariant (S.preserves_fresh hhint hinj)).prepares
  obtain ⟨-, id, -, _, hearlier', _, hdraft⟩ :=
    (Project.incremental_yields_iff hprepares hg none su).mp hsu
  rw [hearlier] at hearlier'
  obtain rfl := Except.ok.inj hearlier'
  obtain ⟨-, id', -, _, hearlier', built', hdraft'⟩ :=
    (Project.incremental_yields_iff hprepares hg (some hints) sh).mp hsh
  rw [hearlier] at hearlier'
  obtain rfl := Except.ok.inj hearlier'
  have hdraftable := (h.draftable hhint hinj htexts hg hearlier).withHints hnormal
  exact ((hdraftable.hinted_iff hlegible hstop hmodel hdraft id').mp ⟨sh, ⟨built', hdraft'⟩, hsame⟩).1

/-- In every run, a build with normal hints yields the index that a build without hints yields
exactly if the hints that count suffice and not too many files cannot be read. -/
theorem Run.hinted_agrees_iff {S : Scope} {w : Workspace} {p : Project}
    (hhint : ∀ q, S.hint q → q.IsNormal) (hinj : Set.InjOn Digest.ofText S.texts) (h : Run S w p)
    (htexts : ReadsWithin S.texts (Project.seen w p) p.root) {g : Generation}
    (hg : (Project.started w p).2.current = some g)
    (hlegible : Listing.Legible (Project.seen w p) p.root
      ((WalkOptions.ofSettings p.settings.index).withLanguages g.facts.languages))
    (hnormal : Project.NormalHints p.root (some hints)) (hstop : o.stop = none)
    (hmodel : ∀ m, p.model = some m → m.Replies) {su : Store}
    (hsu : (Project.build w p S.parse (.incremental none) o).Yields su) :
    (∃ sh, (Project.build w p S.parse (.incremental (some hints)) o).Yields sh ∧
        sh.SameIndex su) ↔
      ∃ earlier, g.reader (Project.seen w p) "failed to prepare query" "files" = .ok earlier ∧
        ReadPlan.Suffices (Project.seen w p) p.root
          ((WalkOptions.ofSettings p.settings.index).withLanguages g.facts.languages) earlier
          (ReadPlan.usefulHints p.root
            ((WalkOptions.ofSettings p.settings.index).withLanguages g.facts.languages) hints) ∧
        (p.context S.parse).Bears (Project.seen w p) o { facts := g.facts, store := earlier }
          hints := by
  have hprepares := (h.invariant (S.preserves_fresh hhint hinj)).prepares
  obtain ⟨hfree, id, hclear, earlier, hearlier, built, hdraft⟩ :=
    (Project.incremental_yields_iff hprepares hg none su).mp hsu
  have hdraftable := (h.draftable hhint hinj htexts hg hearlier).withHints hnormal
  have hiff := hdraftable.hinted_iff hlegible hstop hmodel hdraft id
  constructor
  · rintro ⟨sh, hsh, hsame⟩
    obtain ⟨-, id', hclear', earlier', hearlier', built', hdraft'⟩ :=
      (Project.incremental_yields_iff hprepares hg (some hints) sh).mp hsh
    rw [hearlier] at hearlier'
    obtain rfl := Except.ok.inj hearlier'
    obtain rfl : id' = id := Except.ok.inj (hclear'.next.symm.trans hclear.next)
    exact ⟨earlier, hearlier, hiff.mp ⟨sh, ⟨built', hdraft'⟩, hsame⟩⟩
  · rintro ⟨earlier', hearlier', hsuffices, hbears⟩
    rw [hearlier] at hearlier'
    obtain rfl := Except.ok.inj hearlier'
    obtain ⟨sh, ⟨built', hdraft'⟩, hsame⟩ := hiff.mpr ⟨hsuffices, hbears⟩
    refine ⟨sh, ?_, hsame⟩
    exact (Project.incremental_yields_iff hprepares hg (some hints) sh).mpr
      ⟨hfree, id, hclear, earlier, hearlier, built', hdraft'⟩

namespace Project

-- only the kernel is to compute the small project
attribute [local irreducible] smallBuilt smallEdited

theorem normalHints_file (root : Path) : NormalHints root (some [⟨"a.md"⟩]) := by
  intro hs hhs h hh q hq
  obtain rfl := Option.some.inj hhs
  obtain rfl := List.mem_singleton.mp hh
  have hrelative : ReadPlan.relativeHint root ⟨"a.md"⟩ = some ⟨"a.md"⟩ := by
    rw [ReadPlan.relativeHint, if_neg (by decide)]
  rw [hrelative] at hq
  obtain rfl := Option.some.inj hq
  exact ⟨["a.md"], by decide, rfl⟩

end Project

/-- The file that was edited as the hint. -/
theorem Run.hinted_agrees_smallEdited : ∃ (g : Generation) (su : Store),
    (Project.build Project.smallEdited Project.smallBuilt.project Scope.small.parse
      (.incremental none) {}).Yields su ∧
    ((∃ sh, (Project.build Project.smallEdited Project.smallBuilt.project Scope.small.parse
        (.incremental (some [⟨"a.md"⟩])) {}).Yields sh ∧ sh.SameIndex su) ↔
      ∃ earlier, g.reader (Project.seen Project.smallEdited Project.smallBuilt.project)
          "failed to prepare query" "files" = .ok earlier ∧
        ReadPlan.Suffices (Project.seen Project.smallEdited Project.smallBuilt.project)
          Project.smallBuilt.project.root
          ((WalkOptions.ofSettings Project.smallBuilt.project.settings.index).withLanguages
            g.facts.languages) earlier
          (ReadPlan.usefulHints Project.smallBuilt.project.root
            ((WalkOptions.ofSettings Project.smallBuilt.project.settings.index).withLanguages
              g.facts.languages) [⟨"a.md"⟩]) ∧
        (Project.smallBuilt.project.context Scope.small.parse).Bears
          (Project.seen Project.smallEdited Project.smallBuilt.project) {}
          { facts := g.facts, store := earlier } [⟨"a.md"⟩]) := by
  obtain ⟨g, -, su, hg, -, -, hlegible, hsu⟩ := Project.smallEdited_spec
  exact ⟨g, su, hsu, Run.hinted_agrees_iff (fun _ hq => hq) Project.injOn_smallTexts
    Project.run_smallEdited Project.readsWithin_smallEdited hg hlegible
    (Project.normalHints_file _) rfl Project.replies_smallBuilt hsu⟩

namespace Project

/-- The generation before recorded the old text, and the new one is there to be read. -/
theorem holds_smallEdited {g : Generation}
    (hg : (started smallEdited smallBuilt.project).2.current = some g) :
    Listing.Holds (seen smallEdited smallBuilt.project) smallBuilt.project.root
      ((WalkOptions.ofSettings smallBuilt.project.settings.index).withLanguages g.facts.languages)
      ⟨"a.md"⟩ (Digest.ofText "two\n") := by
  have hread : ((started smallEdited smallBuilt.project).2.current.bind fun g =>
      (Listing.files (seen smallEdited smallBuilt.project) smallBuilt.project.root
        ((WalkOptions.ofSettings smallBuilt.project.settings.index).withLanguages
          g.facts.languages)).toOption.bind fun listed =>
        (Listing.readSource (seen smallEdited smallBuilt.project) smallBuilt.project.root ⟨"a.md"⟩
          ((WalkOptions.ofSettings smallBuilt.project.settings.index).withLanguages
            g.facts.languages)).toOption.map fun file? =>
          (listed.contains ⟨"a.md"⟩, file?.map SourceFile.contentHash)) =
      some (true, some (Digest.ofText "two\n")) := by decide +kernel
  rw [hg, Option.bind_some] at hread
  obtain ⟨listed, hlisted, hread⟩ := Option.bind_eq_some_iff.mp hread
  obtain ⟨file?, hfile, hread⟩ := Option.map_eq_some_iff.mp hread
  obtain ⟨hmem, hhash⟩ := Prod.mk.inj hread
  obtain ⟨file, hsome, hhash⟩ := Option.map_eq_some_iff.mp hhash
  rw [hsome] at hfile
  exact ⟨listed, Except.eq_ok_of_toOption hlisted, List.contains_iff_mem.mp hmem, file,
    Except.eq_ok_of_toOption hfile, hhash⟩

theorem usefulHints_root (root : Path) (o : WalkOptions) :
    ReadPlan.usefulHints root o [⟨""⟩] = [] := by
  have habs : (⟨""⟩ : Path).isAbsolute = false := by decide
  simp [ReadPlan.usefulHints, ReadPlan.relativeHint, habs]

theorem normalHints_root (root : Path) : NormalHints root (some [⟨""⟩]) := by
  intro hs hhs h hh q hq
  obtain rfl := Option.some.inj hhs
  obtain rfl := List.mem_singleton.mp hh
  have hrelative : ReadPlan.relativeHint root ⟨""⟩ = some ⟨""⟩ := by
    rw [ReadPlan.relativeHint, if_neg (by decide)]
  rw [hrelative] at hq
  obtain rfl := Option.some.inj hq
  exact ⟨[], by decide, rfl⟩

/-- A hint that names the root does not count: although every path lies under it, the build does
not take up the new text. -/
theorem root_hint_misses : (∀ q : Path, q.isUnder ⟨""⟩ = true) ∧
    Run .small smallEdited smallBuilt.project ∧ ∃ su,
      (build smallEdited smallBuilt.project Scope.small.parse (.incremental none) {}).Yields su ∧
      ¬ ∃ sh, (build smallEdited smallBuilt.project Scope.small.parse
        (.incremental (some [⟨""⟩])) {}).Yields sh ∧ sh.SameIndex su := by
  obtain ⟨g, earlier, su, hg, hearlier, hfiles, hlegible, hsu⟩ := smallEdited_spec
  refine ⟨fun q => (Path.isUnder_iff q _).mpr List.nil_prefix, run_smallEdited, su, hsu, ?_⟩
  rintro ⟨sh, hsh, hsame⟩
  have hsuffices := run_smallEdited.suffices_of_hinted (fun _ hq => hq) injOn_smallTexts
    readsWithin_smallEdited hg hearlier hlegible (normalHints_root _) rfl replies_smallBuilt
    hsu hsh hsame
  rw [usefulHints_root] at hsuffices
  have hunhinted : ReadPlan.isHinted [] ⟨"a.md"⟩ = false := rfl
  obtain ⟨f, hf, -, hhash⟩ := (hsuffices.unhinted _ hunhinted _).mpr (holds_smallEdited hg)
  have hold : f.contentHash ∈ earlier.files.map FileRecord.contentHash := List.mem_map_of_mem hf
  rw [hfiles, List.mem_singleton, hhash] at hold
  have hdigests : Digest.ofText "two\n" ≠ Digest.ofText "one\n" := by decide +kernel
  exact hdigests hold

end Project

end SourceIndex
