import Mathlib
import SourceIndex.Proofs.Project.Run

/-! # Stored chunks are those of the recorded text

Throughout a run whose hints are normal paths, the chunks that a store has for a file are those of
the text with the recorded digest, cut with the recorded limits, and no chunk is without a record
(`Run.chunksOf_current`): however often the file was carried over, whatever could not be read, and
however the settings changed meanwhile.
-/

set_option autoImplicit false

namespace SourceIndex

variable {S : Scope} {w : Workspace} {p : Project}

/-- A store is fresh for the limits that its generation was built with. -/
def Scope.FreshStore (S : Scope) (facts : BuildFacts) (store : Store) : Prop :=
  Fresh S.parse S.texts facts.profile.params.toChunkLimits store.files store.chunks

theorem Scope.preserves_fresh (hhint : ∀ q, S.hint q → q.IsNormal)
    (hinj : Set.InjOn Digest.ofText S.texts) : S.Preserves S.FreshStore := by
  intro t x o mode base id store built hwf _ hparse hmode hread hbase hdraft
  have hdraftable : Project.Draftable S.texts t x mode base := {
    wellFormed := hwf
    fresh := fun b hb => by
      rw [hparse]
      exact hbase b hb
    within := hread
    inj := fun _ _ => hinj
    hints := fun hs hhs h hh q hq => hhint q (hmode hs hhs h hh q hq) }
  obtain ⟨facts, hfacts, hfresh⟩ := Project.draft_fresh hdraftable hdraft
  rw [hparse] at hfresh
  exact ⟨facts, hfacts, hfresh⟩

/-- The chunks of a file in fresh contents are those of every text with the recorded digest. -/
theorem Fresh.chunksOf_eq {parse : Chunk.Parse} {texts : Set String} {limits : ChunkLimits}
    {store : Store} (h : Fresh parse texts limits store.files store.chunks)
    (hinj : Set.InjOn Digest.ofText texts) {f : FileRecord} (hf : f ∈ store.files) {text : String}
    (htext : text ∈ texts) (hhash : Digest.ofText text = f.contentHash) :
    ((store.chunksOf f.path).map Chunk.bare).Perm
      (Chunk.ofFile parse (SourceFile.ofPath f.path text) limits).chunks := by
  obtain ⟨text', htext', hrecord, hperm⟩ := h.cut f hf
  have hsame : text = text' := by
    refine hinj htext htext' ?_
    rw [hhash, hrecord, CutFile.ofText_contentHash]
  rw [hsame]
  exact ((List.mergeSort_perm _ _).map _).trans hperm

/-- Throughout every run, the generation in use is what its store says, the chunks that the store
has for a file are those of the text with the recorded digest, cut with the recorded limits, and
every chunk belongs to a file. -/
theorem Run.chunksOf_current (hhint : ∀ q, S.hint q → q.IsNormal)
    (hinj : Set.InjOn Digest.ofText S.texts) (h : Run S w p) {g : Generation}
    (hg : p.current = some g) {purpose table : String} {store : Store}
    (hstore : g.reader w.tree purpose table = .ok store) :
    store.facts = some g.facts ∧
      (∀ f ∈ store.files, ∃ text ∈ S.texts, Digest.ofText text = f.contentHash ∧
        ∀ text ∈ S.texts, Digest.ofText text = f.contentHash →
          ((store.chunksOf f.path).map Chunk.bare).Perm
            (Chunk.ofFile S.parse (SourceFile.ofPath f.path text)
              g.facts.profile.params.toChunkLimits).chunks) ∧
      ∀ c ∈ store.chunks, ∃ f ∈ store.files, f.path = c.path := by
  have hinvariant := h.invariant (S.preserves_fresh hhint hinj)
  obtain ⟨hfacts, hfresh⟩ := hinvariant.read hg hstore
  refine ⟨hfacts, fun f hf => ?_, hfresh.recorded⟩
  obtain ⟨text, htext, hrecord, -⟩ := hfresh.cut f hf
  refine ⟨text, htext, ?_, fun text htext hhash => hfresh.chunksOf_eq hinj hf htext hhash⟩
  rw [hrecord, CutFile.ofText_contentHash]

/-- After the first build of a small project. -/
theorem Run.chunksOf_smallBuilt : ∃ (g : Generation) (store : Store),
    Project.smallBuilt.project.current = some g ∧
    store.files.map FileRecord.path = [⟨"a.md"⟩] ∧ store.facts = some g.facts ∧
      (∀ f ∈ store.files, ∃ text ∈ Scope.small.texts, Digest.ofText text = f.contentHash ∧
        ∀ text ∈ Scope.small.texts, Digest.ofText text = f.contentHash →
          ((store.chunksOf f.path).map Chunk.bare).Perm
            (Chunk.ofFile Scope.small.parse (SourceFile.ofPath f.path text)
              g.facts.profile.params.toChunkLimits).chunks) ∧
      ∀ c ∈ store.chunks, ∃ f ∈ store.files, f.path = c.path := by
  obtain ⟨g, store, hg, hstore, hfiles⟩ := Project.smallBuilt_spec
  exact ⟨g, store, hg, hfiles, Run.chunksOf_current (fun _ hq => hq) Project.injOn_smallTexts
    Project.run_smallBuilt hg hstore⟩

end SourceIndex
