import Mathlib
import SourceIndex.Project.Basic
import SourceIndex.Proofs.Build.Vectors
import SourceIndex.Proofs.Generation.Workspace
import SourceIndex.Proofs.Store.Insert

/-! # Drafts of a generation

A build first makes the store of its generation, from the tree, the settings and the generation
before, and then puts it into a file (`Project.draft`, `Project.write_ok_iff`). A draft that starts
from fresh contents is fresh (`Project.draft_fresh`), and vectors are vouched for from one draft to
the next (`Project.draft_vouched`).
-/

set_option autoImplicit false

namespace SourceIndex

namespace Project

open IndexDirectory

-- names of files are not to be computed
attribute [local irreducible] nameOf journalName

/-- The hints that a build follows. -/
def hintsFor (mode : BuildMode) (base : Option BuildBase) : Option (List Path) :=
  if base.isSome then hintsOf mode else none

/-- The store of a new generation, and what is told about the build. -/
def draft (t : FileTree) (x : BuildContext) (o : BuildOptions) (mode : BuildMode)
    (base : Option BuildBase) (id : Nat) : Except Fault (Store × Built) := do
  let p ← Prepared.make t x o base (hintsFor mode base)
  let asked := if (p.modelFor x).isSome then Prepared.missingTexts p.chunks else []
  let p ← p.complete x o
  let facts := p.facts x o id
  let store ← storeOf p facts
  o.pass .written
  return (store, { report := .ofPrepared p facts, asked })

variable {t t' : FileTree} {x : BuildContext} {o : BuildOptions} {mode : BuildMode}
  {base : Option BuildBase} {id : Nat} {store : Store} {built : Built}

theorem draft_ok_iff :
    draft t x o mode base id = .ok (store, built) ↔
      ∃ p q, Prepared.make t x o base (hintsFor mode base) = .ok p ∧ p.complete x o = .ok q ∧
        storeOf q (q.facts x o id) = .ok store ∧ o.pass .written = .ok () ∧
        built = { report := .ofPrepared q (q.facts x o id)
                  asked := if (p.modelFor x).isSome then Prepared.missingTexts p.chunks else [] } := by
  rw [draft]
  constructor
  · intro h
    obtain ⟨p, hmake, h⟩ := bind_ok_iff.mp h
    obtain ⟨q, hcomplete, h⟩ := bind_ok_iff.mp h
    obtain ⟨store', hstore, h⟩ := bind_ok_iff.mp h
    obtain ⟨_, hpass, h⟩ := bind_ok_iff.mp h
    cases h
    exact ⟨p, q, hmake, hcomplete, hstore, hpass, rfl⟩
  · rintro ⟨p, q, hmake, hcomplete, hstore, hpass, rfl⟩
    refine bind_ok_iff.mpr ⟨p, hmake, bind_ok_iff.mpr ⟨q, hcomplete, ?_⟩⟩
    exact bind_ok_iff.mpr ⟨store, hstore, bind_ok_iff.mpr ⟨(), hpass, rfl⟩⟩

theorem prepare_ok_iff {q : Prepared} {asked : List String} :
    prepare t x o mode base = .ok (q, asked) ↔
      ∃ p, Prepared.make t x o base (hintsFor mode base) = .ok p ∧ p.complete x o = .ok q ∧
        asked = if (p.modelFor x).isSome then Prepared.missingTexts p.chunks else [] := by
  rw [prepare]
  constructor
  · intro h
    obtain ⟨p, hmake, h⟩ := bind_ok_iff.mp h
    obtain ⟨q', hcomplete, h⟩ := bind_ok_iff.mp h
    cases h
    exact ⟨p, hmake, hcomplete, rfl⟩
  · rintro ⟨p, hmake, hcomplete, rfl⟩
    exact bind_ok_iff.mpr ⟨p, hmake, bind_ok_iff.mpr ⟨q, hcomplete, rfl⟩⟩

/-- A draft holds what was prepared. -/
theorem draft_ok_iff_prepare :
    draft t x o mode base id = .ok (store, built) ↔
      ∃ q asked, prepare t x o mode base = .ok (q, asked) ∧
        storeOf q (q.facts x o id) = .ok store ∧ o.pass .written = .ok () ∧
        built = { report := .ofPrepared q (q.facts x o id), asked } := by
  rw [draft_ok_iff]
  constructor
  · rintro ⟨p, q, hmake, hcomplete, hstore, hpass, rfl⟩
    exact ⟨q, _, prepare_ok_iff.mpr ⟨p, hmake, hcomplete, rfl⟩, hstore, hpass, rfl⟩
  · rintro ⟨q, asked, hprepare, hstore, hpass, rfl⟩
    obtain ⟨p, hmake, hcomplete, rfl⟩ := prepare_ok_iff.mp hprepare
    exact ⟨p, q, hmake, hcomplete, hstore, hpass, rfl⟩

/-! ## What is written -/

section Write

variable {d : IndexDirectory} {home : List String}

/-- Contents are put into a file if they make a store and the build is not stopped. -/
theorem fill_ok_iff (h : d.LiesAt t home) (hdir : t.hasDirectory (home ++ [nameOf id]) = false)
    {q : Prepared} {facts : BuildFacts} :
    fill t (d.fileFor id) o q facts = .ok t' ↔
      ∃ store, storeOf q facts = .ok store ∧ o.pass .written = .ok () ∧
        t' = t.set (home ++ [nameOf id]) (.index store) := by
  have hwrite : ∀ store, t.write (d.fileFor id) (.index store) =
      .ok (t.set (home ++ [nameOf id]) (.index store)) := by
    intro store
    rw [fileFor, h.write_entry (isName_nameOf id), hdir]
    rfl
  rw [fill]
  constructor
  · intro hfill
    obtain ⟨store, hstore, hfill⟩ := bind_ok_iff.mp hfill
    obtain ⟨_, hpass, hfill⟩ := bind_ok_iff.mp hfill
    simp only [hwrite store] at hfill
    cases hfill
    exact ⟨store, hstore, hpass, rfl⟩
  · rintro ⟨store, hstore, hpass, rfl⟩
    refine bind_ok_iff.mpr ⟨store, hstore, bind_ok_iff.mpr ⟨(), hpass, ?_⟩⟩
    simp only [hwrite store]
    rfl

/-- What a build leaves that has put nothing into the file of its generation: what there was, or an
empty file that no store can be created in, or what there was without a stale journal. -/
inductive Leaves (home : List String) (d : IndexDirectory) (t : FileTree) (id : Nat) :
    FileTree → Prop where
  | same : Leaves home d t id t
  | empty : t.item? (home ++ [nameOf id]) = none →
      t.hasDirectory (home ++ [journalName id]) = true →
      Leaves home d t id (t.set (home ++ [nameOf id]) (.file .empty))
  | undone : t.item? (home ++ [nameOf id]) = none →
      t.hasDirectory (home ++ [journalName id]) = false →
      Leaves home d t id (removeStore (stored home t id .empty) (d.fileFor id))

/-- A generation is written exactly if it can be drafted, its file is not there, and no directory
has the name of its journal. -/
theorem write_ok_iff (h : d.LiesAt t home) (hwf : t.WellFormed) :
    write t d x o mode base id = (t', .ok built) ↔
      ∃ store, draft t x o mode base id = .ok (store, built) ∧
        t.item? (home ++ [nameOf id]) = none ∧
        t.hasDirectory (home ++ [journalName id]) = false ∧ t' = stored home t id store := by
  -- the file is filled where the empty store was put
  have hfill : t.item? (home ++ [nameOf id]) = none →
      t.hasDirectory (home ++ [journalName id]) = false → ∀ {q facts filled},
      fill (stored home t id .empty) (d.fileFor id) o q facts = .ok filled ↔
        ∃ store, storeOf q facts = .ok store ∧ o.pass .written = .ok () ∧
          filled = stored home t id store := by
    intro hfree hjournal q facts filled
    have hlies := ((edits_stored hfree hjournal .empty).wellFormed hwf h).2
    rw [fill_ok_iff hlies (by rw [FileTree.hasDirectory, item?_stored])]
    simp only [stored, FileTree.set_set]
  unfold write
  constructor
  · intro hwrite
    split at hwrite
    · cases (Prod.mk.inj hwrite).2
    · rename_i q asked hprepare
      dsimp only at hwrite
      split at hwrite
      · cases (Prod.mk.inj hwrite).2
      · rename_i created hcreate
        obtain ⟨hfree, hjournal, rfl⟩ := (h.create_ok_iff hwf).mp hcreate
        split at hwrite
        · cases (Prod.mk.inj hwrite).2
        · rename_i filled hfilled
          obtain ⟨store, hstore, hpass, rfl⟩ := (hfill hfree hjournal).mp hfilled
          obtain ⟨rfl, hbuilt⟩ := Prod.mk.inj hwrite
          obtain rfl := Except.ok.inj hbuilt
          exact ⟨store, draft_ok_iff_prepare.mpr ⟨q, asked, hprepare, hstore, hpass, rfl⟩, hfree,
            hjournal, rfl⟩
  · rintro ⟨store, hdraft, hfree, hjournal, rfl⟩
    obtain ⟨q, asked, hprepare, hstore, hpass, rfl⟩ := draft_ok_iff_prepare.mp hdraft
    have hcreate : d.create t id .empty = .ok (stored home t id .empty) :=
      (h.create_ok_iff hwf).mpr ⟨hfree, hjournal, rfl⟩
    have hfilled := (hfill hfree hjournal).mpr ⟨store, hstore, hpass, rfl⟩
    simp only [hprepare, hcreate, hfilled]

/-- If a generation is not written, next to nothing is left of it. -/
theorem write_error (h : d.LiesAt t home) (hwf : t.WellFormed) {f : Fault}
    (hwrite : write t d x o mode base id = (t', .error f)) : Leaves home d t id t' := by
  unfold write at hwrite
  split at hwrite
  · obtain rfl := (Prod.mk.inj hwrite).1
    exact .same
  · dsimp only at hwrite
    split at hwrite
    · rename_i hcreate
      obtain rfl := (Prod.mk.inj hwrite).1
      rw [h.leftover_eq]
      split
      · exact .same
      · rename_i hsome
        have hfree : t.item? (home ++ [nameOf id]) = none := by simpa using hsome
        refine .empty hfree ?_
        by_contra hjournal
        have hok : d.create t id .empty = .ok (stored home t id .empty) :=
          (h.create_ok_iff hwf).mpr ⟨hfree, by simpa using hjournal, rfl⟩
        rw [hcreate] at hok
        cases hok
    · rename_i created hcreate
      obtain ⟨hfree, hjournal, rfl⟩ := (h.create_ok_iff hwf).mp hcreate
      split at hwrite
      · obtain rfl := (Prod.mk.inj hwrite).1
        exact .undone hfree hjournal
      · cases (Prod.mk.inj hwrite).2

end Write

/-! ## What is drafted -/

theorem storeOf_ok_iff {q : Prepared} {facts : BuildFacts} :
    storeOf q facts = .ok store ↔
      ∃ s, Store.empty.insert q.files q.chunks = .ok s ∧ store = s.writeFacts facts := by
  rw [storeOf]
  split
  · rename_i s hs
    simp [hs, eq_comm]
  · rename_i f hf
    simp [hf]

/-- A draft holds the chunks that were prepared, and the facts of the build. -/
theorem chunks_of_storeOf {q : Prepared} {facts : BuildFacts} (h : storeOf q facts = .ok store) :
    store.chunks = q.chunks ∧ store.facts = some facts := by
  obtain ⟨s, hs, rfl⟩ := storeOf_ok_iff.mp h
  have hempty : (({ Store.empty with files := q.files.foldl Store.addFile Store.empty.files } :
      Store).chunks.map Chunk.id).Nodup := List.nodup_nil
  obtain ⟨-, -, rfl⟩ := (Store.addChunks_ok_iff hempty q.chunks).mp hs
  exact ⟨rfl, rfl⟩

/-- A draft of files with different paths exists exactly if its chunks can be told apart and belong
to files. -/
theorem storeOf_ok_iff_of_nodup {q : Prepared} (hfiles : (q.files.map FileRecord.path).Nodup)
    (facts : BuildFacts) :
    storeOf q facts = .ok store ↔ (q.chunks.map Chunk.id).Nodup ∧
      (∀ c ∈ q.chunks, ∃ f ∈ q.files, f.path = c.path) ∧
      store = { files := q.files, chunks := q.chunks, facts := some facts } := by
  rw [storeOf_ok_iff]
  constructor
  · rintro ⟨s, hs, rfl⟩
    obtain ⟨hids, hrecorded, rfl⟩ := (Store.insert_empty_ok_iff hfiles q.chunks s).mp hs
    exact ⟨hids, hrecorded, rfl⟩
  · rintro ⟨hids, hrecorded, rfl⟩
    exact ⟨_, (Store.insert_empty_ok_iff hfiles q.chunks _).mpr ⟨hids, hrecorded, rfl⟩, rfl⟩

theorem pass_ok (hstop : o.stop = none) (point : Checkpoint) : o.pass point = .ok () := by
  rw [BuildOptions.pass, hstop]

section Planned

-- whatever the plan, the files have different paths
variable (hnodup : ∀ plan, ReadPlan.make t x.root (x.walk o base)
    ((base.map BuildBase.records).map PathMap.keys) (hintsFor mode base) = .ok plan →
  ((Prepared.ofSorting x o base (x.sorting t o base plan)).files.map FileRecord.path).Nodup)
include hnodup

/-- What is drafted: the contents that a plan leads to, with vectors, if not too many files cannot be
read and no two chunks have the same id. -/
theorem draft_planned (hdraft : draft t x o mode base id = .ok (store, built)) :
    ∃ plan facts, ReadPlan.make t x.root (x.walk o base)
        ((base.map BuildBase.records).map PathMap.keys) (hintsFor mode base) = .ok plan ∧
      (x.sorting t o base plan).exceeds plan.read.length x.settings.index.failureThreshold = false ∧
      ((Prepared.ofSorting x o base (x.sorting t o base plan)).chunks.map Chunk.id).Nodup ∧
      store.facts = some facts ∧
      facts.profile = (Prepared.ofSorting x o base (x.sorting t o base plan)).profile ∧
      store.files = (Prepared.ofSorting x o base (x.sorting t o base plan)).files ∧
      store.chunks.map Chunk.bare =
        (Prepared.ofSorting x o base (x.sorting t o base plan)).chunks.map Chunk.bare := by
  obtain ⟨p, q, hmake, hcomplete, hstore, -, -⟩ := draft_ok_iff.mp hdraft
  obtain ⟨plan, hplan, -, hexceeds, -, rfl⟩ := (Prepared.make_ok_iff _ p).mp hmake
  obtain ⟨hq, hbare⟩ := Prepared.complete_spec hcomplete
  have hfiles : q.files = (Prepared.ofSorting x o base (x.sorting t o base plan)).files := by
    rw [hq]
  have hprofile : q.profile = (Prepared.ofSorting x o base (x.sorting t o base plan)).profile := by
    rw [hq]
  obtain ⟨hunique, -, rfl⟩ := (storeOf_ok_iff_of_nodup (hfiles ▸ hnodup plan hplan) _).mp hstore
  rw [← Chunk.map_id_map_bare, hbare, Chunk.map_id_map_bare] at hunique
  exact ⟨plan, _, hplan, hexceeds, hunique, rfl, hprofile, hfiles, hbare⟩

/-- A build that is not stopped drafts a store if there is a plan, not too many files cannot be read,
and no two chunks have the same id. -/
theorem draft_isOk_of_planned (hstop : o.stop = none) (hmodel : ∀ m, x.model = some m → m.Replies)
    (id : Nat) {plan : ReadPlan} (hplan : ReadPlan.make t x.root (x.walk o base)
      ((base.map BuildBase.records).map PathMap.keys) (hintsFor mode base) = .ok plan)
    (hexceeds : (x.sorting t o base plan).exceeds plan.read.length
      x.settings.index.failureThreshold = false)
    (hunique : ((Prepared.ofSorting x o base (x.sorting t o base plan)).chunks.map Chunk.id).Nodup)
    (hrecorded : ∀ c ∈ (Prepared.ofSorting x o base (x.sorting t o base plan)).chunks,
      ∃ f ∈ (Prepared.ofSorting x o base (x.sorting t o base plan)).files, f.path = c.path) :
    ∃ store built, draft t x o mode base id = .ok (store, built) := by
  obtain ⟨q, hcomplete⟩ := Prepared.complete_isOk
    (Prepared.ofSorting x o base (x.sorting t o base plan)) hmodel (pass_ok hstop .embed)
  obtain ⟨hq, hbare⟩ := Prepared.complete_spec hcomplete
  have hfiles : q.files = (Prepared.ofSorting x o base (x.sorting t o base plan)).files := by
    rw [hq]
  rw [← Chunk.map_id_map_bare, ← hbare, Chunk.map_id_map_bare] at hunique
  have hmake := (Prepared.make_ok_iff _ _).mpr
    ⟨plan, hplan, pass_ok hstop .read, hexceeds, pass_ok hstop .cut, rfl⟩
  have hstore := (storeOf_ok_iff_of_nodup (q := q) (hfiles ▸ hnodup plan hplan) (q.facts x o id)).mpr
    ⟨hunique, hfiles ▸ Chunk.recorded_of_map_bare hrecorded hbare, rfl⟩
  exact ⟨_, _, draft_ok_iff.mpr ⟨_, q, hmake, hcomplete, hstore, pass_ok hstop .written, rfl⟩⟩

end Planned

/-- Hints are spelled as normal paths, once they are taken from the root. -/
def NormalHints (root : Path) (hints : Option (List Path)) : Prop :=
  ∀ hs, hints = some hs → ∀ h ∈ hs, ∀ q, ReadPlan.relativeHint root h = some q → q.IsNormal

theorem NormalHints.useful {root : Path} {hints : Option (List Path)} (h : NormalHints root hints)
    (w : WalkOptions) {hs : List Path} (hhs : hints = some hs) :
    ∀ q ∈ ReadPlan.usefulHints root w hs, q.IsNormal := by
  intro q hq
  obtain ⟨hint, hhint, hrelative⟩ := List.mem_filterMap.mp (List.mem_filter.mp hq).1
  exact h hs hhs hint hhint q hrelative

theorem NormalHints.followed {root : Path} (h : NormalHints root (hintsOf mode))
    (base : Option BuildBase) : NormalHints root (hintsFor mode base) := by
  rw [hintsFor]
  split
  · exact h
  · intro hs hhs
    cases hhs

/-- What a draft needs to be fresh: a well-formed tree with known texts, a fresh previous generation,
whose texts are told apart from the others by their digests, and normal hints. -/
structure Draftable (texts : Set String) (t : FileTree) (x : BuildContext) (mode : BuildMode)
    (base : Option BuildBase) : Prop where
  wellFormed : t.WellFormed
  fresh : BuildBase.IsFresh x.parse texts base
  within : ReadsWithin texts t x.root
  inj : ∀ b, base = some b → Set.InjOn Digest.ofText texts
  hints : NormalHints x.root (hintsOf mode)

/-- Nothing is asked of a build from nothing but that the tree is well-formed. -/
theorem Draftable.of_none (hwf : t.WellFormed) : Draftable Set.univ t x .full none where
  wellFormed := hwf
  fresh := nofun
  within _ _ _ _ := Set.mem_univ _
  inj := nofun
  hints := nofun

theorem Draftable.ready {texts : Set String} (h : Draftable texts t x mode base) {plan : ReadPlan}
    (hplan : ReadPlan.make t x.root (x.walk o base) ((base.map BuildBase.records).map PathMap.keys)
      (hintsFor mode base) = .ok plan) : x.Ready t o base texts plan :=
  .of_make h.wellFormed h.fresh h.within h.inj
    (fun _ hhs => (h.hints.followed base).useful (x.walk o base) hhs) hplan

/-- What is drafted: the contents that a plan leads to, with vectors, if no two chunks have the same
id. -/
theorem draft_spec {texts : Set String} (h : Draftable texts t x mode base)
    (hdraft : draft t x o mode base id = .ok (store, built)) :
    ∃ plan facts, ReadPlan.make t x.root (x.walk o base)
        ((base.map BuildBase.records).map PathMap.keys) (hintsFor mode base) = .ok plan ∧
      store.facts = some facts ∧
      facts.profile = (Prepared.ofSorting x o base (x.sorting t o base plan)).profile ∧
      store.files = (Prepared.ofSorting x o base (x.sorting t o base plan)).files ∧
      store.chunks.map Chunk.bare =
        (Prepared.ofSorting x o base (x.sorting t o base plan)).chunks.map Chunk.bare := by
  obtain ⟨plan, facts, hplan, -, -, hdrafted⟩ :=
    draft_planned (fun _ hplan => (h.ready hplan).fresh_ofSorting.nodup) hdraft
  exact ⟨plan, facts, hplan, hdrafted⟩

/-- A build that is not stopped drafts a store exactly if there is a plan, not too many files cannot
be read, and no two chunks have the same id. -/
theorem draft_isOk_iff {texts : Set String} (h : Draftable texts t x mode base)
    (hstop : o.stop = none) (hmodel : ∀ m, x.model = some m → m.Replies) (id : Nat) :
    (∃ store built, draft t x o mode base id = .ok (store, built)) ↔
      ∃ plan, ReadPlan.make t x.root (x.walk o base) ((base.map BuildBase.records).map PathMap.keys)
          (hintsFor mode base) = .ok plan ∧
        (x.sorting t o base plan).exceeds plan.read.length x.settings.index.failureThreshold
          = false ∧
        ((Prepared.ofSorting x o base (x.sorting t o base plan)).chunks.map Chunk.id).Nodup := by
  have hnodup : ∀ plan, ReadPlan.make t x.root (x.walk o base)
      ((base.map BuildBase.records).map PathMap.keys) (hintsFor mode base) = .ok plan →
      ((Prepared.ofSorting x o base (x.sorting t o base plan)).files.map FileRecord.path).Nodup :=
    fun _ hplan => (h.ready hplan).fresh_ofSorting.nodup
  constructor
  · rintro ⟨store, built, hdraft⟩
    obtain ⟨plan, -, hplan, hexceeds, hunique, -⟩ := draft_planned hnodup hdraft
    exact ⟨plan, hplan, hexceeds, hunique⟩
  · rintro ⟨plan, hplan, hexceeds, hunique⟩
    exact draft_isOk_of_planned hnodup hstop hmodel id hplan hexceeds hunique
      (h.ready hplan).fresh_ofSorting.recorded

/-- A draft that starts from fresh contents is fresh. -/
theorem draft_fresh {texts : Set String} (h : Draftable texts t x mode base)
    (hdraft : draft t x o mode base id = .ok (store, built)) :
    ∃ facts, store.facts = some facts ∧
      Fresh x.parse texts facts.profile.params.toChunkLimits store.files store.chunks := by
  obtain ⟨plan, facts, hplan, hfacts, hprofile, hfiles, hbare⟩ := draft_spec h hdraft
  refine ⟨facts, hfacts, ?_⟩
  rw [hfiles, hprofile]
  exact (h.ready hplan).fresh_ofSorting.of_map_bare hbare

/-- Vectors are vouched for in a draft if they are in the previous generation. -/
theorem draft_vouched {models : EmbeddingModel → Prop} (hmodel : ∀ m, x.model = some m → models m)
    (hbase : ∀ b, base = some b → Vouched models b.facts b.store.chunks)
    (hdraft : draft t x o mode base id = .ok (store, built)) :
    ∃ facts, store.facts = some facts ∧ Vouched models facts store.chunks := by
  obtain ⟨p, q, hmake, hcomplete, hstore, -, -⟩ := draft_ok_iff.mp hdraft
  obtain ⟨plan, -, -, -, -, rfl⟩ := (Prepared.make_ok_iff _ p).mp hmake
  obtain ⟨hchunks, hfacts⟩ := chunks_of_storeOf hstore
  refine ⟨_, hfacts, ?_⟩
  rw [hchunks]
  exact Prepared.vouched_complete hbase hmodel hcomplete id

end Project

end SourceIndex
