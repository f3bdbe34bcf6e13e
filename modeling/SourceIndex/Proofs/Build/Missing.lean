import Mathlib
import SourceIndex.Proofs.Build.Taken
import SourceIndex.Proofs.Build.Vectors

/-! # Chunks without a vector

An incremental build puts together the earlier chunks of the paths that it takes over
(`BuildContext.oldChunks`) and the chunks of the files that it cuts anew (`BuildContext.newChunks`).
If the model and the dimension are those that are recorded, the old chunks keep their vectors
(`BuildContext.perm_chunks_of_keeps`); otherwise they lose all of them
(`BuildContext.embedding_of_drops`). New chunks never have a vector.

The model is asked for the texts of the chunks that have none, and for nothing else
(`Prepared.complete_ok_iff`). What it gives goes to these chunks, and the others stay as they are
(`Prepared.perm_attach`).
-/

set_option autoImplicit false

namespace SourceIndex

@[simp] theorem Chunk.embeddingText_bare (c : Chunk) : c.bare.embeddingText = c.embeddingText := rfl

theorem Chunk.map_embeddingText_bare (cs : List Chunk) :
    (cs.map bare).map embeddingText = cs.map embeddingText := by
  rw [List.map_map]
  rfl

/-- What comes of the elements that have an image. -/
theorem flatMap_filterMap_eq {α β γ : Type} (f : α → Option β) (g : β → List γ) (l : List α) :
    (l.filterMap f).flatMap g = l.flatMap fun a => (f a).elim [] g := by
  induction l with
  | nil => rfl
  | cons a l ih =>
      rw [List.flatMap_cons, ← ih]
      cases hf : f a with
      | none => rw [List.filterMap_cons_none hf, Option.elim_none, List.nil_append]
      | some c => rw [List.filterMap_cons_some hf, List.flatMap_cons, Option.elim_some]

/-! ## Old and new chunks -/

namespace BuildContext

variable (x : BuildContext) (t : FileTree) (o : BuildOptions) (b : BuildBase) (plan : ReadPlan)

/-- The paths whose earlier chunks are taken over: they are not looked at, or what was recorded is
retained once they are. -/
def oldPaths : List Path :=
  plan.carry.keys ++
    plan.read.filter fun p => Sorting.retains b.records (x.readingOf t o (some b) p)

/-- The files that are cut anew: they were read, and have no record or another digest. -/
def newFiles : List SourceFile :=
  plan.read.filterMap fun p => Sorting.changed? b.records (x.readingOf t o (some b) p)

/-- The chunks that are taken over, as they were in the generation before. -/
def oldChunks : List Chunk := (x.oldPaths t o b plan).flatMap b.store.chunksOf

/-- The chunks of the files that are cut anew. -/
def newChunks : List Chunk :=
  (x.newFiles t o b plan).flatMap fun file =>
    (CutFile.ofFile x.parse b.facts.profile.params.toChunkLimits file).chunks

variable {x t o b plan}

theorem embedding_of_mem_newChunks {c : Chunk} (hc : c ∈ x.newChunks t o b plan) :
    c.embedding = none := by
  obtain ⟨file, -, hc⟩ := List.mem_flatMap.mp hc
  exact (Chunk.emitted_ofFile _ _ _ c hc).2

/-- Where nothing is recorded there are no chunks. -/
theorem chunksOf_of_get?_eq_none (hb : Keyed b.store.files b.store.chunks) {p : Path}
    (h : b.records.get? p = none) : b.store.chunksOf p = [] := by
  rw [List.eq_nil_iff_forall_not_mem]
  intro c hc
  obtain ⟨hmem, rfl⟩ := Keyed.mem_chunksOf.mp hc
  obtain ⟨f, hf, hpath⟩ := hb.recorded c hmem
  have hget : b.records.get? c.path = some f :=
    (BuildBase.get?_records_of_keyed hb f).mpr ⟨hf, congrArg Path.parts hpath⟩
  rw [h] at hget
  cases hget

/-- The chunks of a file that is taken over. -/
theorem chunks_keep (p : Path) (record : FileRecord) :
    (x.keep o b p record).chunks =
      (b.store.chunksOf p).map
        (if x.keepsVectors b (x.profileFor o (some b) []).2 then id else Chunk.bare) := by
  rw [keep]
  dsimp only
  split
  · rw [List.map_id]
  · rfl

/-- Taking files over gives their earlier chunks, with or without vectors. -/
theorem perm_flatMap_carriedCuts (hb : Keyed b.store.files b.store.chunks) (h : plan.Apart) :
    ((x.carriedCuts o (some b) (x.sorting t o (some b) plan)).flatMap CutFile.chunks).Perm
      ((x.oldChunks t o b plan).map
        (if x.keepsVectors b (x.profileFor o (some b) []).2 then id else Chunk.bare)) := by
  refine ((perm_carriedCuts h).flatMap_right _).trans (List.Perm.of_eq ?_)
  rw [oldChunks, oldPaths, List.map_flatMap, List.flatMap_append, List.flatMap_append,
    flatMap_filterMap_eq, flatMap_filterMap_eq, ← List.filterMap_eq_filter, flatMap_filterMap_eq]
  congr 1
  · refine List.flatMap_congr fun p _ => ?_
    rw [kept]
    cases hget : b.records.get? p with
    | none => simp [chunksOf_of_get?_eq_none hb hget]
    | some record => simp [chunks_keep]
  · refine List.flatMap_congr fun p _ => ?_
    rw [Option.guard, ← Sorting.isSome_retained?]
    cases Sorting.retained? b.records (x.readingOf t o (some b) p) with
    | none => rfl
    | some record => simp [chunks_keep]

theorem newCuts_eq_map :
    x.newCuts o (some b) (x.sorting t o (some b) plan) =
      (x.newFiles t o b plan).map (CutFile.ofFile x.parse b.facts.profile.params.toChunkLimits) := by
  rw [newCuts_eq, newFiles, List.map_filterMap]

/-- Cutting files anew gives the new chunks. -/
theorem flatMap_newCuts :
    (x.newCuts o (some b) (x.sorting t o (some b) plan)).flatMap CutFile.chunks =
      x.newChunks t o b plan := by
  rw [newCuts_eq_map, List.flatMap_map]
  rfl

/-- So many files are reported to be cut anew. -/
theorem rebuilt_ofSorting :
    (Prepared.ofSorting x o (some b) (x.sorting t o (some b) plan)).rebuilt =
      (x.newFiles t o b plan).length := by
  have hrebuilt : (Prepared.ofSorting x o (some b) (x.sorting t o (some b) plan)).rebuilt =
      (x.newCuts o (some b) (x.sorting t o (some b) plan)).length := rfl
  rw [hrebuilt, newCuts_eq_map, List.length_map]

theorem perm_chunks_ofSorting (hb : Keyed b.store.files b.store.chunks) (h : plan.Apart) :
    (Prepared.ofSorting x o (some b) (x.sorting t o (some b) plan)).chunks.Perm
      ((x.oldChunks t o b plan).map
          (if x.keepsVectors b (x.profileFor o (some b) []).2 then id else Chunk.bare) ++
        x.newChunks t o b plan) := by
  rw [Prepared.chunks_ofSorting, cuts, List.flatMap_append, flatMap_newCuts]
  exact (perm_flatMap_carriedCuts hb h).append_right _

theorem keepsVectors_iff {m : EmbeddingModel} (hm : x.model = some m) (dimension : Nat) :
    x.keepsVectors b dimension = true ↔
      b.facts.model = some m.name ∧ b.facts.dimension = dimension := by
  rw [keepsVectors, hm, Bool.and_eq_true, beq_iff_eq, beq_iff_eq, and_comm]
  rfl

theorem nativeDimension_eq {m : EmbeddingModel} (hm : x.model = some m) :
    x.nativeDimension = m.dimension := by
  rw [nativeDimension, hm]

/-- A generation has no more dimensions than the one before. -/
theorem dimension_ofSorting_of_recorded {s : Sorting} (hpos : 0 < b.facts.dimension) :
    (Prepared.ofSorting x o (some b) s).dimension = min b.facts.dimension x.nativeDimension := by
  have hdimension : (Prepared.ofSorting x o (some b) s).dimension =
      min (if 0 < b.facts.dimension then b.facts.dimension else b.facts.profile.dimension)
        x.nativeDimension := rfl
  rw [hdimension, if_pos hpos]

/-- If vectors are kept, the old chunks stay as they were. -/
theorem perm_chunks_of_keeps (hb : Keyed b.store.files b.store.chunks) (h : plan.Apart)
    (hkeeps : x.keepsVectors b (x.profileFor o (some b) []).2 = true) :
    (Prepared.ofSorting x o (some b) (x.sorting t o (some b) plan)).chunks.Perm
      (x.oldChunks t o b plan ++ x.newChunks t o b plan) := by
  have hperm := perm_chunks_ofSorting (x := x) (t := t) (o := o) hb h
  rwa [if_pos hkeeps, List.map_id] at hperm

/-- Otherwise no chunk has a vector. -/
theorem embedding_of_drops (hb : Keyed b.store.files b.store.chunks) (h : plan.Apart)
    (hdrops : x.keepsVectors b (x.profileFor o (some b) []).2 = false) {c : Chunk}
    (hc : c ∈ (Prepared.ofSorting x o (some b) (x.sorting t o (some b) plan)).chunks) :
    c.embedding = none := by
  have hperm := perm_chunks_ofSorting (x := x) (t := t) (o := o) hb h
  rw [if_neg (Bool.eq_false_iff.mp hdrops)] at hperm
  rcases List.mem_append.mp (hperm.mem_iff.mp hc) with hc | hc
  · obtain ⟨d, -, rfl⟩ := List.mem_map.mp hc
    rfl
  · exact embedding_of_mem_newChunks hc

/-- But for their vectors the chunks are the old and the new ones. -/
theorem perm_map_bare_ofSorting (hb : Keyed b.store.files b.store.chunks) (h : plan.Apart) :
    ((Prepared.ofSorting x o (some b) (x.sorting t o (some b) plan)).chunks.map Chunk.bare).Perm
      ((x.oldChunks t o b plan ++ x.newChunks t o b plan).map Chunk.bare) := by
  refine ((perm_chunks_ofSorting hb h).map Chunk.bare).trans (List.Perm.of_eq ?_)
  rw [List.map_append, List.map_append, List.map_map]
  congr 2
  funext c
  split <;> rfl

end BuildContext

/-! ## What the model is asked for -/

namespace Prepared

variable {x : BuildContext} {o : BuildOptions} {p q : Prepared} {m : EmbeddingModel}

/-- The model is asked for the texts of the chunks that have no vector. -/
theorem complete_ok_iff (hm : p.modelFor x = some m) :
    p.complete x o = .ok q ↔ o.pass .embed = .ok () ∧ ∃ slots,
      m.embedTexts p.dimension x.settings.embedding.batchSize (missingTexts p.chunks) = some slots ∧
        q = { p with chunks := attach p.chunks slots } := by
  rw [complete, hm]
  constructor
  · intro h
    obtain ⟨_, hpass, hembed⟩ := bind_ok_iff.mp h
    refine ⟨hpass, ?_⟩
    rw [embed] at hembed
    split at hembed
    · cases hembed
    · rename_i slots hslots
      exact ⟨slots, hslots, (Except.ok.inj hembed).symm⟩
  · rintro ⟨hpass, slots, hslots, rfl⟩
    refine bind_ok_iff.mpr ⟨(), hpass, ?_⟩
    rw [embed, hslots]

/-- Chunks that have a vector stay as they are, and the others get what is there for them. -/
theorem perm_attach (cs : List Chunk) (slots : List (Option Embedding)) :
    (attach cs slots).Perm (cs.filter (fun c => c.embedding.isSome) ++
      attach (cs.filter fun c => c.embedding.isNone) slots) := by
  induction cs generalizing slots with
  | nil => exact List.Perm.refl _
  | cons c cs ih =>
      cases hc : c.embedding with
      | some v =>
          rw [attach_cons_of_some hc, List.filter_cons_of_pos (by simp [hc]),
            List.filter_cons_of_neg (by simp [hc])]
          exact (ih slots).cons c
      | none =>
          rw [List.filter_cons_of_neg (by simp [hc]), List.filter_cons_of_pos (by simp [hc])]
          cases slots with
          | nil =>
              have hrest := ih []
              rw [attach_nil, attach_nil] at hrest ⊢
              exact (hrest.cons c).trans List.perm_middle.symm
          | cons v slots =>
              rw [attach_cons_of_none hc, attach_cons_of_none hc]
              exact ((ih slots).cons _).trans List.perm_middle.symm

/-- If no chunk has a vector, all texts are missing. -/
theorem missingTexts_of_bare {cs : List Chunk} (h : ∀ c ∈ cs, c.embedding = none) :
    missingTexts cs = cs.map Chunk.embeddingText := by
  rw [missingTexts, List.filter_eq_self.mpr fun c hc => by rw [h c hc]; rfl]

end Prepared

/-! ## What is missing after the old and the new chunks are put together -/

namespace BuildContext

variable {x : BuildContext} {t : FileTree} {o : BuildOptions} {b : BuildBase} {plan : ReadPlan}

section Keeps

variable (hb : Keyed b.store.files b.store.chunks) (h : plan.Apart)
  (hkeeps : x.keepsVectors b (x.profileFor o (some b) []).2 = true)
include hb h hkeeps

/-- If vectors are kept, the new chunks have none, and the old ones that had none. -/
theorem perm_missingTexts_of_keeps :
    (Prepared.missingTexts
        (Prepared.ofSorting x o (some b) (x.sorting t o (some b) plan)).chunks).Perm
      (((x.oldChunks t o b plan).filter (·.embedding.isNone) ++ x.newChunks t o b plan).map
        Chunk.embeddingText) := by
  have hnew : ∀ c ∈ x.newChunks t o b plan, c.embedding.isNone = true := by
    intro c hc
    rw [embedding_of_mem_newChunks hc]
    rfl
  refine (((perm_chunks_of_keeps hb h hkeeps).filter _).map _).trans (List.Perm.of_eq ?_)
  rw [List.filter_append, List.filter_eq_self.mpr hnew]

/-- Old chunks that have a vector stay as they are when the others get one. -/
theorem subperm_attach_of_keeps (slots : List (Option Embedding)) :
    ((x.oldChunks t o b plan).filter (·.embedding.isSome)).Subperm
      (Prepared.attach (Prepared.ofSorting x o (some b) (x.sorting t o (some b) plan)).chunks
        slots) := by
  have hperm := (perm_chunks_of_keeps (t := t) hb h hkeeps).filter (·.embedding.isSome)
  rw [List.filter_append] at hperm
  have hold := (List.sublist_append_left ((x.oldChunks t o b plan).filter (·.embedding.isSome))
    ((x.newChunks t o b plan).filter (·.embedding.isSome))).subperm
  refine (hold.trans hperm.symm.subperm).trans ?_
  exact (List.sublist_append_left _ _).subperm.trans (Prepared.perm_attach _ slots).symm.subperm

end Keeps

/-- If vectors are dropped, all chunks are without one. -/
theorem missingTexts_of_drops (hb : Keyed b.store.files b.store.chunks) (h : plan.Apart)
    (hdrops : x.keepsVectors b (x.profileFor o (some b) []).2 = false) :
    Prepared.missingTexts (Prepared.ofSorting x o (some b) (x.sorting t o (some b) plan)).chunks =
      (Prepared.ofSorting x o (some b) (x.sorting t o (some b) plan)).chunks.map
        Chunk.embeddingText :=
  Prepared.missingTexts_of_bare fun _ hc => embedding_of_drops hb h hdrops hc

end BuildContext

end SourceIndex
