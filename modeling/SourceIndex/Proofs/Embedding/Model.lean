import Mathlib
import SourceIndex.Embedding.Model

/-! # Where vectors come from

Every slot that is filled for a text holds a vector that the model gave for that very text, cut
to the dimension (`EmbeddingModel.embedTexts_spec`), whichever batches failed.
-/

set_option autoImplicit false

namespace SourceIndex

namespace EmbeddingModel

/-- A model gave a vector for a text: in an answer with one vector for each text of a batch, it is
the vector at the place of the text, cut to a dimension that it reaches. -/
def Gives (m : EmbeddingModel) (dimension : Nat) (text : String) (v : Embedding) : Prop :=
  ∃ (batch : List String) (vectors : List Embedding) (i : Nat) (raw : Embedding),
    m.documents batch = .answer vectors ∧ vectors.length = batch.length ∧
      batch[i]? = some text ∧ vectors[i]? = some raw ∧ dimension ≤ raw.length ∧
        v = Embedding.cut dimension raw

theorem Gives.length {m : EmbeddingModel} {dimension : Nat} {text : String} {v : Embedding}
    (h : m.Gives dimension text v) : v.length = dimension := by
  obtain ⟨-, -, -, raw, -, -, -, -, hle, rfl⟩ := h
  rw [Embedding.length_cut]
  exact Nat.min_eq_left hle

/-! ## Batches -/

/-- A batch is a slice of the list. -/
theorem getElem?_batches {α : Type} (size : Nat) (l : List α) {i : Nat} {batch : List α}
    (h : (batches size l)[i]? = some batch) :
    batch = (l.drop (i * max 1 size)).take (max 1 size) := by
  have hsize : max 1 size = size - 1 + 1 := by omega
  induction l using batches.induct size generalizing i with
  | case1 => simp [batches] at h
  | case2 a rest ih =>
      rw [batches] at h
      cases i with
      | zero =>
          cases h
          rw [hsize, Nat.zero_mul, List.drop_zero, List.take_succ_cons]
      | succ i =>
          rw [List.getElem?_cons_succ] at h
          rw [ih h, List.drop_drop]
          congr 1
          rw [hsize, Nat.succ_mul, ← Nat.add_assoc, List.drop_succ_cons, Nat.add_comm]

/-- What came of a batch is the reply to a slice of the texts. -/
theorem of_mem_ask {m : EmbeddingModel} {size : Nat} {texts : List String} {r : BatchResult}
    (h : r ∈ m.ask size texts) :
    ∃ batch, r.reply = m.documents batch ∧ r.size = batch.length ∧
      (∀ j text, batch[j]? = some text → texts[r.offset + j]? = some text) := by
  obtain ⟨i, hi, rfl⟩ := List.mem_mapIdx.mp h
  have hbatch := getElem?_batches size texts (List.getElem?_eq_getElem hi)
  refine ⟨_, rfl, rfl, fun j text hj => ?_⟩
  rw [hbatch, List.getElem?_take] at hj
  split at hj
  · rwa [List.getElem?_drop] at hj
  · cases hj

/-! ## Slots -/

/-- The slots of texts: one for each, and every vector was given for its text. -/
structure Filled (m : EmbeddingModel) (dimension : Nat) (texts : List String)
    (slots : List (Option Embedding)) : Prop where
  length : slots.length = texts.length
  given : ∀ (i : Nat) (v : Embedding), slots[i]? = some (some v) →
    ∃ text, texts[i]? = some text ∧ m.Gives dimension text v

/-- The slot of the first text, and those of the others. -/
theorem Filled.cons {m : EmbeddingModel} {dimension : Nat} {text : String} {texts : List String}
    {slots : List (Option Embedding)} (h : m.Filled dimension (text :: texts) slots) :
    ∃ v slots', slots = v :: slots' ∧ (∀ w, v = some w → m.Gives dimension text w) ∧
      m.Filled dimension texts slots' := by
  cases slots with
  | nil =>
      have hlength := h.length
      simp at hlength
  | cons v slots =>
      refine ⟨v, slots, rfl, ?_, by simpa using h.length, ?_⟩
      · rintro w rfl
        obtain ⟨text', htext, hgives⟩ := h.given 0 w rfl
        cases htext
        exact hgives
      · intro i w hw
        exact h.given (i + 1) w hw

theorem filled_replicate (m : EmbeddingModel) (dimension : Nat) (texts : List String) :
    m.Filled dimension texts (List.replicate texts.length none) where
  length := List.length_replicate
  given i v h := by
    rw [List.getElem?_replicate] at h
    split at h <;> cases h

/-- Vectors that were given for the texts from a place on may be written there. -/
theorem Filled.write {m : EmbeddingModel} {dimension : Nat} {texts : List String}
    {slots : List (Option Embedding)} (h : m.Filled dimension texts slots) {offset : Nat}
    {vectors : List Embedding} (hroom : offset + vectors.length ≤ texts.length)
    (hgiven : ∀ (j : Nat) (raw : Embedding), vectors[j]? = some raw → dimension ≤ raw.length →
      ∃ text, texts[offset + j]? = some text ∧ m.Gives dimension text (Embedding.cut dimension raw)) :
    m.Filled dimension texts (write dimension slots offset vectors) := by
  rw [← h.length] at hroom
  have hbefore : (slots.take offset).length = offset := by
    rw [List.length_take]
    omega
  constructor
  · rw [EmbeddingModel.write, ← h.length]
    simp only [List.length_append, List.length_take, List.length_map, List.length_drop]
    omega
  · intro i v hv
    rw [EmbeddingModel.write, List.append_assoc, List.getElem?_append, hbefore] at hv
    split at hv
    · rename_i hi
      rw [List.getElem?_take_of_lt hi] at hv
      exact h.given i v hv
    · rename_i hi
      rw [List.getElem?_append, List.length_map] at hv
      split at hv
      · rw [List.getElem?_map, Option.map_eq_some_iff] at hv
        obtain ⟨raw, hraw, hfit⟩ := hv
        rw [Embedding.fit?] at hfit
        split at hfit
        · cases hfit
        · rename_i hlong
          cases hfit
          obtain ⟨text, htext, hgives⟩ := hgiven _ raw hraw (by omega)
          rw [Nat.add_sub_cancel' (by omega)] at htext
          exact ⟨text, htext, hgives⟩
      · rw [List.getElem?_drop] at hv
        refine h.given i v ?_
        rw [← hv]
        congr 1
        omega

/-- What one batch fills in was given for its texts. -/
theorem Filled.fill {m : EmbeddingModel} {dimension : Nat} {texts : List String}
    {slots : List (Option Embedding)} (h : m.Filled dimension texts slots) {r : BatchResult}
    {batch : List String} (hreply : r.reply = m.documents batch) (hsize : r.size = batch.length)
    (htexts : ∀ (j : Nat) (text : String), batch[j]? = some text →
      texts[r.offset + j]? = some text) :
    m.Filled dimension texts (fill dimension slots r) := by
  rw [EmbeddingModel.fill]
  split
  · rename_i vectors hanswer
    split
    · rename_i hlength
      rw [hsize] at hlength
      by_cases hempty : vectors = []
      · subst hempty
        simpa [EmbeddingModel.write] using h
      · have hpos := List.length_pos_iff.mpr hempty
        have hlast : batch.length - 1 < batch.length := by omega
        have hin := htexts _ _ (List.getElem?_eq_getElem hlast)
        have hbound := (List.getElem?_eq_some_iff.mp hin).1
        refine h.write (by omega) fun j raw hraw hlong => ?_
        have hj : j < batch.length := hlength ▸ (List.getElem?_eq_some_iff.mp hraw).1
        have hbatch := List.getElem?_eq_getElem hj
        exact ⟨batch[j], htexts j _ hbatch,
          batch, vectors, j, raw, hreply ▸ hanswer, hlength, hbatch, hraw, hlong, rfl⟩
    · exact h
  · exact h
  · exact h

/-- Every vector was given for its text. -/
theorem embedTexts_spec {m : EmbeddingModel} {dimension size : Nat} {texts : List String}
    {slots : List (Option Embedding)} (h : m.embedTexts dimension size texts = some slots) :
    m.Filled (min dimension m.dimension) texts slots := by
  rw [embedTexts] at h
  split at h
  · cases h
  · cases h
    rw [collect]
    have hfold : ∀ results : List BatchResult, (∀ r ∈ results, r ∈ m.ask size texts) →
        ∀ slots, m.Filled (min dimension m.dimension) texts slots →
          m.Filled (min dimension m.dimension) texts
            (results.foldl (fill (min dimension m.dimension)) slots) := by
      intro results
      induction results with
      | nil => exact fun _ slots hslots => hslots
      | cons r results ih =>
          intro hmem slots hslots
          obtain ⟨batch, hreply, hsize, htexts⟩ := of_mem_ask (hmem r List.mem_cons_self)
          exact ih (fun q hq => hmem q (List.mem_cons_of_mem r hq)) _
            (hslots.fill hreply hsize htexts)
    exact hfold _ (fun r hr => hr) _ (filled_replicate m _ texts)

/-- A model always replies, with vectors or with a failure. -/
def Replies (m : EmbeddingModel) : Prop := ∀ batch, m.documents batch ≠ .silence

/-- A model that always replies gives slots for all texts. -/
theorem embedTexts_isSome {m : EmbeddingModel} (hm : m.Replies)
    (dimension size : Nat) (texts : List String) :
    ∃ slots, m.embedTexts dimension size texts = some slots := by
  rw [embedTexts]
  have hsilent : (m.ask size texts).any BatchResult.isSilent = false := by
    rw [List.any_eq_false]
    intro r hr
    obtain ⟨batch, hreply, -, -⟩ := of_mem_ask hr
    have hne := hm batch
    rw [← hreply] at hne
    rw [BatchResult.isSilent]
    split
    · rename_i hsilence
      exact absurd hsilence hne
    · simp
    · simp
  rw [hsilent]
  exact ⟨_, rfl⟩

end EmbeddingModel

end SourceIndex
