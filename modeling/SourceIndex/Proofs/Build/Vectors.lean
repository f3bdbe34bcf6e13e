import Mathlib
import SourceIndex.Proofs.Build.Prepared
import SourceIndex.Proofs.Embedding.Model

/-! # Vectors of a new generation

Making vectors changes nothing but vectors (`Prepared.complete_spec`). A vector that a generation
stores was given by a model of the name that is recorded, for the text of its chunk, and has the
dimension that is recorded (`Vouched`): a build keeps this, whether it carries vectors over, drops
them or asks for new ones (`Prepared.vouched_complete`).
-/

set_option autoImplicit false

namespace SourceIndex

namespace Prepared

variable {t : FileTree} {x : BuildContext} {o : BuildOptions} {base : Option BuildBase}

/-! ## Only vectors change -/

theorem attach_cons_of_some {c : Chunk} {v : Embedding} (h : c.embedding = some v)
    (cs : List Chunk) (slots : List (Option Embedding)) :
    attach (c :: cs) slots = c :: attach cs slots := by
  rw [attach]
  simp [h]

theorem attach_cons_of_none {c : Chunk} (h : c.embedding = none) (cs : List Chunk)
    (v : Option Embedding) (slots : List (Option Embedding)) :
    attach (c :: cs) (v :: slots) = { c with embedding := v } :: attach cs slots := by
  rw [attach]
  exact h

theorem attach_nil (cs : List Chunk) : attach cs [] = cs := by
  induction cs with
  | nil => rfl
  | cons c cs ih =>
      rw [attach, ih]
      simp

theorem map_bare_attach (cs : List Chunk) (slots : List (Option Embedding)) :
    (attach cs slots).map Chunk.bare = cs.map Chunk.bare := by
  induction cs generalizing slots with
  | nil => rfl
  | cons c cs ih =>
      cases hc : c.embedding with
      | some v => rw [attach_cons_of_some hc, List.map_cons, List.map_cons, ih]
      | none =>
          cases slots with
          | nil => rw [attach_nil]
          | cons v slots =>
              rw [attach_cons_of_none hc, List.map_cons, List.map_cons, ih]
              rfl

/-- Making vectors changes nothing but the vectors of chunks. -/
theorem complete_spec {p p' : Prepared} (h : p.complete x o = .ok p') :
    p' = { p with chunks := p'.chunks } ∧ p'.chunks.map Chunk.bare = p.chunks.map Chunk.bare := by
  rw [complete] at h
  split at h
  · cases h
    exact ⟨rfl, rfl⟩
  · rename_i m _
    obtain ⟨_, -, hembed⟩ := bind_ok_iff.mp h
    rw [embed] at hembed
    split at hembed
    · cases hembed
    · cases hembed
      exact ⟨rfl, map_bare_attach _ _⟩

/-- Vectors are made if the model replies and the build is not stopped meanwhile. -/
theorem complete_isOk (p : Prepared) (hmodel : ∀ m, x.model = some m → m.Replies)
    (hpass : o.pass .embed = .ok ()) : ∃ p', p.complete x o = .ok p' := by
  rw [complete]
  split
  · exact ⟨p, rfl⟩
  · rename_i m hm
    have hx : x.model = some m := by
      rw [modelFor] at hm
      split at hm
      · exact hm
      · cases hm
    obtain ⟨slots, hslots⟩ := EmbeddingModel.embedTexts_isSome (hmodel m hx) p.dimension
      x.settings.embedding.batchSize (missingTexts p.chunks)
    refine ⟨{ p with chunks := attach p.chunks slots }, bind_ok_iff.mpr ⟨(), hpass, ?_⟩⟩
    rw [embed, hslots]

end Prepared

/-! ## Where vectors come from -/

/-- What is recorded about vectors is so: there are some only if a model is recorded, and each was
given by a model of that name for the text of its chunk, at the recorded dimension. -/
structure Vouched (models : EmbeddingModel → Prop) (facts : BuildFacts) (chunks : List Chunk) :
    Prop where
  dimension_zero : facts.model = none → facts.dimension = 0
  dimension_pos : ∀ name, facts.model = some name → 0 < facts.dimension
  given : ∀ c ∈ chunks, ∀ v, c.embedding = some v →
    ∃ m, models m ∧ facts.model = some m.name ∧ m.Gives facts.dimension c.embeddingText v

namespace Prepared

variable {t : FileTree} {x : BuildContext} {o : BuildOptions} {base : Option BuildBase}

/-- A vector before new ones are made comes from a chunk of the previous generation, whose vectors
are kept. -/
theorem embedding_ofSorting {s : Sorting} {c : Chunk} (hc : c ∈ (ofSorting x o base s).chunks)
    {v : Embedding} (hv : c.embedding = some v) :
    ∃ b, base = some b ∧ x.keepsVectors b (ofSorting x o base s).dimension = true ∧
      c ∈ b.store.chunks := by
  rw [chunks_ofSorting] at hc
  obtain ⟨cut, hcut, hc⟩ := List.mem_flatMap.mp hc
  rcases List.mem_append.mp hcut with hcut | hcut
  · cases base with
    | none => cases hcut
    | some b =>
        obtain ⟨p, -, hcarry⟩ := List.mem_filterMap.mp hcut
        obtain ⟨record, -, rfl⟩ := Option.map_eq_some_iff.mp hcarry
        dsimp only at hc
        split at hc
        · rename_i hkeeps
          refine ⟨b, rfl, hkeeps, ?_⟩
          rw [Store.chunksOf, List.mem_mergeSort] at hc
          exact (List.mem_filter.mp hc).1
        · obtain ⟨d, -, rfl⟩ := List.mem_map.mp hc
          cases hv
  · obtain ⟨file, -, rfl⟩ := List.mem_map.mp hcut
    have hnone := (Chunk.emitted_ofFile _ _ _ c hc).2
    rw [hnone] at hv
    cases hv

/-- A vector after new ones were made is an old one or was given for the text of its chunk. -/
theorem embedding_attach {m : EmbeddingModel} {dimension : Nat} {cs : List Chunk}
    {slots : List (Option Embedding)} (h : m.Filled dimension (missingTexts cs) slots) {c : Chunk}
    (hc : c ∈ attach cs slots) {v : Embedding} (hv : c.embedding = some v) :
    c ∈ cs ∨ m.Gives dimension c.embeddingText v := by
  induction cs generalizing slots with
  | nil => cases hc
  | cons d cs ih =>
      cases hd : d.embedding with
      | some w =>
          have hrest : m.Filled dimension (missingTexts cs) slots := by
            simpa [missingTexts, hd] using h
          rw [attach_cons_of_some hd] at hc
          rcases List.mem_cons.mp hc with rfl | hc
          · exact Or.inl List.mem_cons_self
          · exact (ih hrest hc).imp_left (List.mem_cons_of_mem d)
      | none =>
          have hcons : missingTexts (d :: cs) = d.embeddingText :: missingTexts cs := by
            simp [missingTexts, hd]
          rw [hcons] at h
          obtain ⟨w, slots, rfl, hw, hrest⟩ := h.cons
          rw [attach_cons_of_none hd] at hc
          rcases List.mem_cons.mp hc with rfl | hc
          · exact Or.inr (hw v hv)
          · exact (ih hrest hc).imp_left (List.mem_cons_of_mem d)

/-- The dimension of a generation is not larger than that of the model. -/
theorem dimension_ofSorting_le (x : BuildContext) (o : BuildOptions) (base : Option BuildBase)
    (s : Sorting) : (ofSorting x o base s).dimension ≤ x.nativeDimension := by
  cases base with
  | none => exact Nat.min_le_right _ _
  | some b => exact Nat.min_le_right _ _

theorem modelFor_eq_some_iff (p : Prepared) (m : EmbeddingModel) :
    p.modelFor x = some m ↔ 0 < p.dimension ∧ x.model = some m := by
  rw [modelFor]
  split <;> simp_all

/-- A vector that is carried over is from the model in use, at the dimension in use. -/
theorem given_ofSorting {models : EmbeddingModel → Prop}
    (hbase : ∀ b, base = some b → Vouched models b.facts b.store.chunks) {s : Sorting} {c : Chunk}
    (hc : c ∈ (ofSorting x o base s).chunks) {v : Embedding} (hv : c.embedding = some v) :
    0 < (ofSorting x o base s).dimension ∧
      ∃ m, models m ∧ x.model.map EmbeddingModel.name = some m.name ∧
        m.Gives (ofSorting x o base s).dimension c.embeddingText v := by
  obtain ⟨b, hb, hkeeps, hmem⟩ := embedding_ofSorting hc hv
  simp only [BuildContext.keepsVectors, Bool.and_eq_true, beq_iff_eq] at hkeeps
  obtain ⟨m, hm, hname, hgives⟩ := (hbase b hb).given c hmem v hv
  have hpos := (hbase b hb).dimension_pos m.name hname
  rw [hkeeps.1] at hgives hpos
  exact ⟨hpos, m, hm, hkeeps.2.symm.trans hname, hgives⟩

theorem facts_of_none {p : Prepared} (h : p.modelFor x = none) (id : Nat) :
    (p.facts x o id).dimension = 0 ∧ (p.facts x o id).model = none := by
  rw [facts, h]
  exact ⟨rfl, rfl⟩

theorem facts_of_some {p : Prepared} {m : EmbeddingModel} (h : p.modelFor x = some m) (id : Nat) :
    (p.facts x o id).dimension = p.dimension ∧ (p.facts x o id).model = some m.name := by
  rw [facts, h]
  exact ⟨rfl, rfl⟩

section

variable {models : EmbeddingModel → Prop}
  (hbase : ∀ b, base = some b → Vouched models b.facts b.store.chunks) {s : Sorting}

include hbase

/-- Without a model for it, a new generation has no vectors. -/
theorem vouched_of_none (hnone : (ofSorting x o base s).modelFor x = none) (id : Nat) :
    Vouched models ((ofSorting x o base s).facts x o id) (ofSorting x o base s).chunks := by
  obtain ⟨hdim, hname⟩ := facts_of_none (o := o) hnone id
  refine ⟨fun _ => hdim, fun name hsome => ?_, fun c hc v hv => ?_⟩
  · rw [hname] at hsome
    cases hsome
  · -- a vector would be carried over from a model, and then vectors are made
    obtain ⟨hpos, m, -, hmodel, -⟩ := given_ofSorting hbase hc hv
    obtain ⟨m', hm', -⟩ := Option.map_eq_some_iff.mp hmodel
    rw [(modelFor_eq_some_iff _ m').mpr ⟨hpos, hm'⟩] at hnone
    cases hnone

/-- With a model, the vectors of a new generation are its own or carried over from it. -/
theorem vouched_attach (hmodel : ∀ m, x.model = some m → models m) {m : EmbeddingModel} {size : Nat}
    {slots : List (Option Embedding)} (hsome : (ofSorting x o base s).modelFor x = some m)
    (hslots : m.embedTexts (ofSorting x o base s).dimension size
      (missingTexts (ofSorting x o base s).chunks) = some slots) (id : Nat) :
    Vouched models (({ ofSorting x o base s with
        chunks := attach (ofSorting x o base s).chunks slots } : Prepared).facts x o id)
      (attach (ofSorting x o base s).chunks slots) := by
  obtain ⟨hpos, hx⟩ := (modelFor_eq_some_iff _ m).mp hsome
  have hle : (ofSorting x o base s).dimension ≤ m.dimension := by
    have hle := dimension_ofSorting_le x o base s
    rwa [BuildContext.nativeDimension, hx] at hle
  have hfilled := EmbeddingModel.embedTexts_spec hslots
  rw [Nat.min_eq_left hle] at hfilled
  -- which model there is does not depend on the chunks
  obtain ⟨hdim, hname⟩ := facts_of_some (o := o) (p := { ofSorting x o base s with
    chunks := attach (ofSorting x o base s).chunks slots }) hsome id
  refine ⟨fun hnone => ?_, fun _ _ => ?_, fun c hc v hv => ?_⟩
  · rw [hname] at hnone
    cases hnone
  · rw [hdim]
    exact hpos
  · rw [hdim, hname]
    rcases embedding_attach hfilled hc hv with hold | hnew
    · obtain ⟨-, m', hm', hname', hgives⟩ := given_ofSorting hbase hold hv
      rw [hx] at hname'
      exact ⟨m', hm', hname', hgives⟩
    · exact ⟨m, hmodel m hx, rfl, hnew⟩

/-- A new generation vouches for its vectors if the previous one does. -/
theorem vouched_complete (hmodel : ∀ m, x.model = some m → models m) {p : Prepared}
    (h : (ofSorting x o base s).complete x o = .ok p) (id : Nat) :
    Vouched models (p.facts x o id) p.chunks := by
  rw [complete] at h
  split at h
  · rename_i hnone
    cases h
    exact vouched_of_none hbase hnone id
  · rename_i m hsome
    obtain ⟨_, -, hembed⟩ := bind_ok_iff.mp h
    rw [embed] at hembed
    split at hembed
    · cases hembed
    · rename_i slots hslots
      cases hembed
      exact vouched_attach hbase hmodel hsome hslots id

end

end Prepared

end SourceIndex
