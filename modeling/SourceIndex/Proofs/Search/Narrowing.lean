import Mathlib
import SourceIndex.Proofs.Search.Lists
import SourceIndex.Proofs.Search.Numbers
import SourceIndex.Proofs.Search.Response
import SourceIndex.Proofs.Store.Transaction

/-! # Narrower searches

A store has one ranking for a query, that of all its chunks without a limit. Every other search for the
query shows a part of it (`Store.Narrows`): the language filter leaves out the entries of chunks of other
languages, and the limit cuts off what comes last. A filter that came after the cut, or an order in which
the place of a chunk in the store mattered, would not do.

Both searches rank what a chunk by itself amounts to (`Store.rank`): the similarity of its vector, or the
score of its words, for which the whole store counts, whatever the filter.
-/

set_option autoImplicit false

namespace SourceIndex

namespace Store

/-- The ranking of the chunks that pass a filter by what is found out about each, cut to a limit. -/
def rank (s : Store) (found : Chunk → Option (Ranked Float)) (language : Option String) (limit : Nat) :
    List (Ranked Float) :=
  (Ranked.ranking ((s.chunks.filter (passes language)).filterMap found)).take limit

/-- The answers of a search are parts of its answer for all languages without a limit: the entries of
chunks that pass the filter, up to the limit. So a smaller limit gives the first entries of a longer
answer, and no filter changes a score or the order. -/
structure Narrows (s : Store) (search : Option String → Nat → List (Ranked Float)) : Prop where
  answer_eq : ∀ language limit all, s.chunks.length ≤ all →
    search language limit =
      ((search none all).filter fun e => (s.chunk? e.id).any (passes language)).take limit
  take_eq : ∀ language fewer limit, fewer ≤ limit →
    search language fewer = (search language limit).take fewer
  sublist : ∀ language limit all, s.chunks.length ≤ all →
    (search language limit).Sublist (search none all)

variable (s : Store)

/-! ## One ranking -/

section Rank

variable (found : Chunk → Option (Ranked Float))

/-- Without a filter and with room for all chunks nothing is left out. -/
theorem rank_none {all : Nat} (hall : s.chunks.length ≤ all) :
    s.rank found none all = Ranked.ranking (s.chunks.filterMap found) := by
  have hpass : s.chunks.filter (passes none) = s.chunks := List.filter_eq_self.mpr fun _ _ => rfl
  unfold rank
  rw [hpass]
  apply List.take_of_length_le
  calc (Ranked.ranking (s.chunks.filterMap found)).length
      = (s.chunks.filterMap found).length := List.length_mergeSort _
    _ ≤ s.chunks.length := List.length_filterMap_le _ _
    _ ≤ all := hall

variable {s found}

/-- Among the entries of a ranking those of chunks that pass a filter are found by their ids. -/
theorem filter_filterMap_found (hids : (s.chunks.map Chunk.id).Nodup)
    (hfound : ∀ c e, found c = some e → e.id = c.id) (language : Option String) :
    (s.chunks.filterMap found).filter (fun e => (s.chunk? e.id).any (passes language)) =
      (s.chunks.filter (passes language)).filterMap found := by
  rw [List.filter_filterMap, List.filterMap_filter]
  apply List.filterMap_congr
  intro c hc
  cases he : found c with
  | none => simp
  | some e =>
      have hchunk : s.chunk? e.id = some c := by
        rw [hfound c e he]
        exact chunk?_of_mem hids hc
      simp [Option.filter, hchunk]

theorem nodup_filterMap_found (hids : (s.chunks.map Chunk.id).Nodup)
    (hfound : ∀ c e, found c = some e → e.id = c.id) :
    ((s.chunks.filterMap found).map Ranked.id).Nodup := by
  have hsub : ∀ cs : List Chunk, ((cs.filterMap found).map Ranked.id).Sublist (cs.map Chunk.id) := by
    intro cs
    induction cs with
    | nil => exact .slnil
    | cons c cs ih =>
        cases he : found c with
        | none =>
            rw [List.filterMap_cons_none he]
            exact ih.cons _
        | some e =>
            rw [List.filterMap_cons_some he, List.map_cons, List.map_cons, hfound c e he]
            exact ih.cons_cons _
  exact hids.sublist (hsub _)

/-- A search that ranks chunks one by one narrows a single ranking. -/
theorem narrows_rank (hids : (s.chunks.map Chunk.id).Nodup)
    (hfound : ∀ c e, found c = some e → e.id = c.id)
    (hscores : Ranked.Comparable ((s.rank found none s.chunks.length).map Ranked.score)) :
    s.Narrows (s.rank found) := by
  have hall : Ranked.Comparable ((s.chunks.filterMap found).map Ranked.score) := by
    rw [s.rank_none found le_rfl] at hscores
    exact hscores.perm ((List.mergeSort_perm _ _).symm.map Ranked.score)
  have hanswer : ∀ language limit all, s.chunks.length ≤ all → s.rank found language limit =
      ((s.rank found none all).filter fun e => (s.chunk? e.id).any (passes language)).take limit := by
    intro language limit all hle
    rw [s.rank_none found hle]
    show _ = ((Ranked.arrange Ranked.score Ranked.id _).filter _).take limit
    rw [hall.filter_arrange (nodup_filterMap_found hids hfound), filter_filterMap_found hids hfound]
    rfl
  refine ⟨hanswer, fun language fewer limit hle => ?_, fun language limit all hle => ?_⟩
  · unfold rank
    rw [List.take_take, Nat.min_eq_left hle]
  · rw [hanswer language limit all hle]
    exact (List.take_sublist _ _).trans List.filter_sublist

end Rank

/-! ## Both searches -/

/-- What the words of a query find of a chunk: the score that its document has among all documents, if
it has a term of the query. -/
def wordScore? (query : String) (c : Chunk) : Option (Ranked Float) :=
  if (document c).hasAny (Keyword.phrases query) then
    some ⟨c.id, Keyword.score (Keyword.averageLength (s.chunks.map document))
      (Keyword.weigh (s.chunks.map document) (Keyword.phrases query)) (document c)⟩
  else none

/-- Scoring documents and then filtering them comes to the same as filtering chunks first. -/
theorem map_scored_documents (score : Keyword.Document → Float) (ps : List Keyword.Phrase)
    (language : Option String) (cs : List Chunk) :
    ((((cs.map document).filter (·.hasAny ps)).map fun d => (d, score d)).filter
        fun d => passesDocument language d.1).map (fun d => (⟨d.1.id, d.2⟩ : Ranked Float)) =
      (cs.filter (passes language)).filterMap fun c =>
        if (document c).hasAny ps then some ⟨c.id, score (document c)⟩ else none := by
  induction cs with
  | nil => rfl
  | cons c cs ih =>
      have hpass := passesDocument_document language c
      by_cases hany : (document c).hasAny ps = true
      · cases hlanguage : passes language c with
        | true =>
            have hid : (document c).id = c.id := rfl
            simpa [hany, hlanguage, hpass, hid] using ih
        | false => simpa [hany, hlanguage, hpass] using ih
      · cases hlanguage : passes language c with
        | true => simpa [hany, hlanguage] using ih
        | false => simpa [hany, hlanguage] using ih

theorem vectorSearch_eq_rank (query : Embedding) : s.vectorSearch query = s.rank (similarity? query) :=
  rfl

theorem keywordSearch_eq_rank (query : String) : s.keywordSearch query = s.rank (s.wordScore? query) := by
  funext language limit
  have hfound := map_scored_documents (Keyword.score (Keyword.averageLength (s.chunks.map document))
    (Keyword.weigh (s.chunks.map document) (Keyword.phrases query))) (Keyword.phrases query) language s.chunks
  exact congrArg (fun entries => (Ranked.ranking entries).take limit) hfound

theorem id_of_similarity? {query : Embedding} {c : Chunk} {e : Ranked Float}
    (h : similarity? query c = some e) : e.id = c.id := by
  obtain ⟨v, -, hv⟩ := Option.bind_eq_some_iff.mp h
  split at hv
  · cases hv
  · cases hv
    rfl

variable {s} in
theorem id_of_wordScore? {query : String} {c : Chunk} {e : Ranked Float}
    (h : s.wordScore? query c = some e) : e.id = c.id := by
  unfold wordScore? at h
  split at h
  · cases h
    rfl
  · cases h

variable {s}

/-- The searches of a store for a vector or for words narrow one ranking, the filter first and the limit
last, if the scores of that ranking can be compared, as any that are numbers can
(`Ranked.comparable_of_numbers`). -/
theorem Sound.narrows_searches (h : s.Sound) :
    (∀ query : Embedding,
      Ranked.Comparable ((s.vectorSearch query none s.chunks.length).map Ranked.score) →
        s.Narrows (s.vectorSearch query)) ∧
    (∀ query : String,
      Ranked.Comparable ((s.keywordSearch query none s.chunks.length).map Ranked.score) →
        s.Narrows (s.keywordSearch query)) := by
  refine ⟨fun query hscores => ?_, fun query hscores => ?_⟩
  · exact narrows_rank h.ids (fun _ _ => id_of_similarity?) hscores
  · rw [keywordSearch_eq_rank] at hscores ⊢
    exact narrows_rank h.ids (fun _ _ => id_of_wordScore?) hscores

/-! ### A store of two languages -/

/-- Two chunks with the same word and the same vector, in different languages. -/
def bilingual : Store where
  files := [default]
  chunks :=
    [{ Search.smallChunk "a" "one" (some [1]) with language := "python" },
      Search.smallChunk "b" "one" (some [1])]

theorem sound_bilingual : bilingual.Sound :=
  ⟨by decide, by decide, by decide⟩

/-- Its chunks have the same vector and the same words. -/
theorem of_mem_bilingual {c : Chunk} (h : c ∈ bilingual.chunks) :
    c.embedding = some [1] ∧ columns c = columns (Search.smallChunk "b" "one" none) := by
  rcases List.mem_cons.mp h with rfl | h
  · exact ⟨rfl, rfl⟩
  · obtain rfl := List.mem_singleton.mp h
    exact ⟨rfl, rfl⟩

theorem mem_rank_none (found : Chunk → Option (Ranked Float)) {e : Ranked Float}
    (he : e ∈ s.rank found none s.chunks.length) : ∃ c ∈ s.chunks, found c = some e := by
  rw [s.rank_none found le_rfl] at he
  exact List.mem_filterMap.mp (List.mem_mergeSort.mp he)

theorem comparable_vectors_bilingual :
    Ranked.Comparable ((bilingual.vectorSearch [1] none bilingual.chunks.length).map Ranked.score) := by
  apply Ranked.comparable_of_eq (Embedding.cosine [1] [1])
  intro x hx
  obtain ⟨e, he, rfl⟩ := List.mem_map.mp hx
  obtain ⟨c, hc, hfound⟩ := mem_rank_none (similarity? [1]) he
  unfold similarity? at hfound
  rw [(of_mem_bilingual hc).1] at hfound
  obtain rfl := Option.some.inj hfound
  rfl

/-- The score of a document depends on its columns only. -/
theorem score_eq_of_columns {d d' : Keyword.Document} (h : d.columns = d'.columns) (average : Float)
    (weighed : List (Keyword.Phrase × Float)) :
    Keyword.score average weighed d = Keyword.score average weighed d' := by
  simp only [Keyword.score, Keyword.Document.frequency, Keyword.Document.length, h]

theorem comparable_words_bilingual :
    Ranked.Comparable ((bilingual.keywordSearch "one" none bilingual.chunks.length).map Ranked.score) := by
  apply Ranked.comparable_of_eq (Keyword.score
    (Keyword.averageLength (bilingual.chunks.map document))
    (Keyword.weigh (bilingual.chunks.map document) (Keyword.phrases "one"))
    (document (Search.smallChunk "b" "one" none)))
  intro x hx
  obtain ⟨e, he, rfl⟩ := List.mem_map.mp hx
  rw [keywordSearch_eq_rank] at he
  obtain ⟨c, hc, hfound⟩ := mem_rank_none _ he
  unfold wordScore? at hfound
  split at hfound
  · obtain rfl := Option.some.inj hfound
    exact score_eq_of_columns (of_mem_bilingual hc).2 _ _
  · cases hfound

/-- Searches of the store of two languages, by vectors and by words. -/
theorem narrows_searches_bilingual :
    bilingual.Sound ∧
      Ranked.Comparable ((bilingual.vectorSearch [1] none bilingual.chunks.length).map Ranked.score) ∧
      Ranked.Comparable
        ((bilingual.keywordSearch "one" none bilingual.chunks.length).map Ranked.score) ∧
      bilingual.Narrows (bilingual.vectorSearch [1]) ∧
      bilingual.Narrows (bilingual.keywordSearch "one") := by
  obtain ⟨hvectors, hwords⟩ := Sound.narrows_searches sound_bilingual
  exact ⟨sound_bilingual, comparable_vectors_bilingual, comparable_words_bilingual,
    hvectors [1] comparable_vectors_bilingual, hwords "one" comparable_words_bilingual⟩

end Store

end SourceIndex
