import Mathlib
import SourceIndex.Proofs.Embedding.Model

/-! # Slots in any order of completion

The batches of texts are sent in order, but only some of them are on their way at a time, and they are
replied to in any order (`Stream.Step`). Every reply has a place of its own among the slots
(`EmbeddingModel.pairwise_apart_resultsOf`), so the order makes no difference: what is in a slot is
told by the reply to the batch of its text (`EmbeddingModel.getElem?_collect`).
-/

set_option autoImplicit false

namespace SourceIndex

/-! ## Batches on their way -/

/-- Batches at some time: those that are not sent yet, those that are on their way, and those that were
replied to, in the order of their replies. -/
structure Stream where
  waiting : List EmbeddingModel.BatchResult
  flying : List EmbeddingModel.BatchResult
  done : List EmbeddingModel.BatchResult

namespace Stream

open EmbeddingModel

/-- What may happen while no more than `limit` batches are on their way at a time; a limit of zero counts
as one. -/
inductive Step (limit : Nat) : Stream → Stream → Prop where
  /-- The next batch is sent. -/
  | send {r : BatchResult} {waiting flying done : List BatchResult} :
      flying.length < max 1 limit →
        Step limit ⟨r :: waiting, flying, done⟩ ⟨waiting, r :: flying, done⟩
  /-- One of those on their way is replied to. -/
  | land {r : BatchResult} {waiting before after done : List BatchResult} : r.isSilent = false →
      Step limit ⟨waiting, before ++ r :: after, done⟩ ⟨waiting, before ++ after, done ++ [r]⟩

/-- What may come of time passing. -/
def Run (limit : Nat) : Stream → Stream → Prop := Relation.ReflTransGen (Step limit)

/-- Before anything is sent. -/
def start (results : List BatchResult) : Stream := ⟨results, [], []⟩

/-- After everything was replied to. -/
def finished (done : List BatchResult) : Stream := ⟨[], [], done⟩

/-- All batches, whatever became of them. -/
def all (s : Stream) : List BatchResult := s.waiting ++ (s.flying ++ s.done)

variable {limit : Nat} {s s' : Stream}

/-- No batch gets lost, and none comes twice. -/
theorem Step.perm (h : Step limit s s') : s'.all.Perm s.all := by
  cases h with
  | @send r waiting flying done _ => exact List.perm_middle
  | @land r waiting before after done _ =>
      refine List.Perm.append_left waiting ?_
      calc (before ++ after) ++ (done ++ [r])
        List.Perm _ ((before ++ after) ++ (r :: done)) :=
          (List.perm_append_singleton r done).append_left _
        List.Perm _ (r :: (before ++ after) ++ done) := List.perm_middle
        List.Perm _ ((before ++ r :: after) ++ done) := List.perm_middle.symm.append_right done

theorem Run.perm (h : Run limit s s') : s'.all.Perm s.all := by
  induction h with
  | refl => exact List.Perm.refl _
  | tail _ hstep ih => exact hstep.perm.trans ih

/-- Only what was replied to is done. -/
theorem Step.answered (h : Step limit s s') (hs : ∀ r ∈ s.done, r.isSilent = false) :
    ∀ r ∈ s'.done, r.isSilent = false := by
  cases h with
  | send _ => exact hs
  | land hr =>
      intro r hmem
      rcases List.mem_append.mp hmem with hmem | hmem
      · exact hs r hmem
      · rwa [List.mem_singleton.mp hmem]

theorem Run.answered (h : Run limit s s') (hs : ∀ r ∈ s.done, r.isSilent = false) :
    ∀ r ∈ s'.done, r.isSilent = false := by
  induction h with
  | refl => exact hs
  | tail _ hstep ih => exact hstep.answered ih

/-- As long as something is left, something can happen, and there is less left afterwards. -/
theorem exists_step (limit : Nat) (hs : ∀ r ∈ s.all, r.isSilent = false)
    (hleft : s.waiting ≠ [] ∨ s.flying ≠ []) :
    ∃ s', Step limit s s' ∧
      2 * s'.waiting.length + s'.flying.length < 2 * s.waiting.length + s.flying.length := by
  obtain ⟨waiting, flying, done⟩ := s
  cases flying with
  | cons r flying =>
      have hland : r.isSilent = false → Step limit ⟨waiting, [] ++ r :: flying, done⟩
          ⟨waiting, [] ++ flying, done ++ [r]⟩ := Step.land
      refine ⟨⟨waiting, flying, done ++ [r]⟩, hland (hs r ?_), ?_⟩
      · simp [all]
      · simp only [List.length_cons]
        omega
  | nil =>
      cases waiting with
      | nil => simp at hleft
      | cons r waiting =>
          refine ⟨⟨waiting, [r], done⟩, Step.send ?_, ?_⟩
          · simp only [List.length_nil]
            omega
          · simp only [List.length_cons, List.length_nil]
            omega

/-- If no batch stays without a reply, everything is replied to in the end. -/
theorem exists_finished (limit : Nat) (s : Stream) (hs : ∀ r ∈ s.all, r.isSilent = false) :
    ∃ done, Run limit s (finished done) := by
  by_cases hleft : s.waiting ≠ [] ∨ s.flying ≠ []
  · obtain ⟨s', hstep, hless⟩ := exists_step limit hs hleft
    obtain ⟨done, hrun⟩ := exists_finished limit s' fun r hr => hs r (hstep.perm.mem_iff.mp hr)
    exact ⟨done, Relation.ReflTransGen.head hstep hrun⟩
  · obtain ⟨waiting, flying, done⟩ := s
    simp only [ne_eq, not_or, not_not] at hleft
    obtain ⟨rfl, rfl⟩ := hleft
    exact ⟨done, Relation.ReflTransGen.refl⟩
termination_by 2 * s.waiting.length + s.flying.length

end Stream

namespace EmbeddingModel

/-! ## Batches and their places -/

/-- The batch with a number. -/
def batchAt (size : Nat) (texts : List String) (k : Nat) : List String :=
  (texts.drop (k * max 1 size)).take (max 1 size)

/-- There is a batch with a number as long as there are texts for it. -/
theorem lt_length_batches_iff {size : Nat} {texts : List String} {k : Nat} :
    k < (batches size texts).length ↔ k * max 1 size < texts.length := by
  have hsize : max 1 size = size - 1 + 1 := by omega
  rw [hsize]
  induction texts using batches.induct size generalizing k with
  | case1 => simp [batches]
  | case2 text rest ih =>
      rw [batches, List.length_cons, List.length_cons]
      cases k with
      | zero => simp
      | succ k =>
          rw [Nat.add_lt_add_iff_right]
          refine Iff.trans ih ?_
          rw [List.length_drop, Nat.succ_mul]
          omega

theorem getElem?_batches_of_lt {size : Nat} {texts : List String} {k : Nat}
    (h : k * max 1 size < texts.length) :
    (batches size texts)[k]? = some (batchAt size texts k) := by
  have hlt := lt_length_batches_iff.mpr h
  rw [List.getElem?_eq_getElem hlt, getElem?_batches size texts (List.getElem?_eq_getElem hlt)]
  rfl

theorem length_batchAt (size : Nat) (texts : List String) (k : Nat) :
    (batchAt size texts k).length = min (max 1 size) (texts.length - k * max 1 size) := by
  rw [batchAt, List.length_take, List.length_drop]

/-- The text at a place stands in the batch whose number is the place divided by the size. -/
theorem getElem?_batchAt (size : Nat) (texts : List String) (i : Nat) :
    (batchAt size texts (i / max 1 size))[i % max 1 size]? = texts[i]? := by
  have hmod : i % max 1 size < max 1 size := Nat.mod_lt i (by omega)
  rw [batchAt, List.getElem?_take_of_lt hmod, List.getElem?_drop, Nat.div_add_mod']

/-- What comes of the batches if each is replied to as it may be. -/
def resultsOf (reply : Nat → List String → Reply (List Embedding)) (size : Nat)
    (texts : List String) : List BatchResult :=
  (batches size texts).mapIdx fun k batch => ⟨k * max 1 size, batch.length, reply k batch⟩

/-- What comes of the batch with a number. -/
def resultAt (reply : Nat → List String → Reply (List Embedding)) (size : Nat) (texts : List String)
    (k : Nat) : BatchResult :=
  ⟨k * max 1 size, (batchAt size texts k).length, reply k (batchAt size texts k)⟩

/-- Whether a place is one of a batch. -/
def BatchResult.Covers (r : BatchResult) (i : Nat) : Prop := r.offset ≤ i ∧ i < r.offset + r.size

/-- Two batches have no place in common. -/
def BatchResult.Apart (r q : BatchResult) : Prop := ∀ i, r.Covers i → ¬ q.Covers i

section Places

variable (reply : Nat → List String → Reply (List Embedding)) (size : Nat) (texts : List String)

theorem getElem?_resultsOf {k : Nat} {r : BatchResult}
    (h : (resultsOf reply size texts)[k]? = some r) : r = resultAt reply size texts k := by
  rw [resultsOf, List.getElem?_mapIdx, Option.map_eq_some_iff] at h
  obtain ⟨batch, hbatch, rfl⟩ := h
  obtain rfl : batch = batchAt size texts k := getElem?_batches size texts hbatch
  rfl

/-- Every place belongs to a batch. -/
theorem exists_covers {i : Nat} (hi : i < texts.length) :
    resultAt reply size texts (i / max 1 size) ∈ resultsOf reply size texts ∧
      (resultAt reply size texts (i / max 1 size)).Covers i := by
  have hpos : 0 < max 1 size := by omega
  have hmod : i % max 1 size < max 1 size := Nat.mod_lt i hpos
  have hdiv : i / max 1 size * max 1 size + i % max 1 size = i := Nat.div_add_mod' i (max 1 size)
  constructor
  · refine List.mem_of_getElem? (i := i / max 1 size) ?_
    rw [resultsOf, List.getElem?_mapIdx, getElem?_batches_of_lt (by omega)]
    rfl
  · rw [BatchResult.Covers, resultAt, length_batchAt]
    dsimp only
    omega

/-- No place belongs to two batches. -/
theorem pairwise_apart_resultsOf : (resultsOf reply size texts).Pairwise BatchResult.Apart := by
  rw [List.pairwise_iff_getElem]
  intro j k hj hk hjk i hcovers hcovers'
  rw [getElem?_resultsOf reply size texts (List.getElem?_eq_getElem hj)] at hcovers
  rw [getElem?_resultsOf reply size texts (List.getElem?_eq_getElem hk)] at hcovers'
  simp only [BatchResult.Covers, resultAt, length_batchAt] at hcovers hcovers'
  -- a later batch begins where the earlier one ends, or further on
  have hnext : (j + 1) * max 1 size ≤ k * max 1 size := Nat.mul_le_mul_right _ hjk
  rw [Nat.succ_mul] at hnext
  omega

/-- No batch goes beyond the texts. -/
theorem le_length_of_mem_resultsOf {r : BatchResult} (h : r ∈ resultsOf reply size texts) :
    r.offset + r.size ≤ texts.length := by
  obtain ⟨k, hk, hr⟩ := List.mem_iff_getElem.mp h
  have hbatch : k < (batches size texts).length := by
    rwa [resultsOf, List.length_mapIdx] at hk
  have hlt := lt_length_batches_iff.mp hbatch
  rw [← hr, getElem?_resultsOf reply size texts (List.getElem?_eq_getElem hk), resultAt,
    length_batchAt]
  dsimp only
  omega

end Places

/-! ## What is written -/

/-- The vectors of a batch, if there is one for each of its texts. -/
def BatchResult.vectors? (r : BatchResult) : Option (List Embedding) :=
  match r.reply with
  | .answer vectors => if vectors.length = r.size then some vectors else none
  | .failure _ | .silence => none

/-- What a batch has for a place. -/
def BatchResult.slotAt (dimension : Nat) (r : BatchResult) (i : Nat) : Option Embedding :=
  r.vectors?.bind fun vectors => (vectors[i - r.offset]?).bind (Embedding.fit? dimension)

theorem BatchResult.vectors?_eq_some_iff {r : BatchResult} {vectors : List Embedding} :
    r.vectors? = some vectors ↔ r.reply = .answer vectors ∧ vectors.length = r.size := by
  rw [vectors?]
  cases r.reply with
  | answer vs =>
      simp only [Option.ite_none_right_eq_some, Option.some.injEq, Reply.answer.injEq]
      constructor
      · rintro ⟨hlength, rfl⟩
        exact ⟨rfl, hlength⟩
      · rintro ⟨rfl, hlength⟩
        exact ⟨hlength, rfl⟩
  | failure f => simp
  | silence => simp

section Fill

variable {dimension i : Nat} {slots : List (Option Embedding)} {r : BatchResult}

theorem fill_of_vectors {vectors : List Embedding} (h : r.vectors? = some vectors) :
    fill dimension slots r = write dimension slots r.offset vectors := by
  obtain ⟨hreply, hlength⟩ := BatchResult.vectors?_eq_some_iff.mp h
  rw [fill, hreply]
  exact if_pos hlength

theorem fill_of_none (h : r.vectors? = none) : fill dimension slots r = slots := by
  rw [fill]
  split
  · rename_i vectors hreply
    refine if_neg fun hlength => ?_
    rw [BatchResult.vectors?_eq_some_iff.mpr ⟨hreply, hlength⟩] at h
    cases h
  · rfl
  · rfl

theorem getElem?_write {offset : Nat} {vectors : List Embedding}
    (h : offset + vectors.length ≤ slots.length) (i : Nat) :
    (write dimension slots offset vectors)[i]? =
      if offset ≤ i ∧ i < offset + vectors.length then
        (vectors[i - offset]?).map (Embedding.fit? dimension)
      else slots[i]? := by
  have hbefore : (slots.take offset).length = offset := by
    rw [List.length_take]
    omega
  rw [write, List.append_assoc]
  by_cases hlow : i < offset
  · rw [List.getElem?_append_left (by omega), List.getElem?_take_of_lt hlow, if_neg (by omega)]
  · rw [List.getElem?_append_right (by omega), hbefore]
    by_cases hhigh : i < offset + vectors.length
    · rw [List.getElem?_append_left (by rw [List.length_map]; omega), List.getElem?_map,
        if_pos (by omega)]
    · rw [List.getElem?_append_right (by rw [List.length_map]; omega), List.length_map,
        List.getElem?_drop, if_neg (by omega)]
      congr 1
      omega

theorem length_write {offset : Nat} {vectors : List Embedding}
    (h : offset + vectors.length ≤ slots.length) :
    (write dimension slots offset vectors).length = slots.length := by
  rw [write]
  simp only [List.length_append, List.length_take, List.length_map, List.length_drop]
  omega

variable (h : r.offset + r.size ≤ slots.length)
include h

theorem length_fill : (fill dimension slots r).length = slots.length := by
  cases hvectors : r.vectors? with
  | none => rw [fill_of_none hvectors]
  | some vectors =>
      have hlength := (BatchResult.vectors?_eq_some_iff.mp hvectors).2
      rw [fill_of_vectors hvectors, length_write (by omega)]

/-- A batch leaves the slots of other batches alone. -/
theorem getElem?_fill_of_not_covers (hi : ¬ r.Covers i) :
    (fill dimension slots r)[i]? = slots[i]? := by
  cases hvectors : r.vectors? with
  | none => rw [fill_of_none hvectors]
  | some vectors =>
      have hlength := (BatchResult.vectors?_eq_some_iff.mp hvectors).2
      rw [fill_of_vectors hvectors, getElem?_write (by omega), if_neg (by rwa [hlength])]

/-- An empty slot of a batch gets what the batch has for it. -/
theorem getElem?_fill_of_covers (hi : r.Covers i) (hempty : slots[i]? = some none) :
    (fill dimension slots r)[i]? = some (r.slotAt dimension i) := by
  rw [BatchResult.slotAt]
  cases hvectors : r.vectors? with
  | none => rw [fill_of_none hvectors, hempty, Option.bind_none]
  | some vectors =>
      have hlength := (BatchResult.vectors?_eq_some_iff.mp hvectors).2
      obtain ⟨hlow, hhigh⟩ := hi
      have hin : i - r.offset < vectors.length := by omega
      rw [fill_of_vectors hvectors, getElem?_write (by omega), if_pos (by omega), Option.bind_some,
        List.getElem?_eq_getElem hin]
      rfl

end Fill

section Fold

variable {dimension i : Nat} {slots : List (Option Embedding)} {results : List BatchResult}

theorem length_foldl_fill (h : ∀ r ∈ results, r.offset + r.size ≤ slots.length) :
    (results.foldl (fill dimension) slots).length = slots.length := by
  induction results generalizing slots with
  | nil => rfl
  | cons r results ih =>
      have hlength : (fill dimension slots r).length = slots.length :=
        length_fill (h r List.mem_cons_self)
      rw [List.foldl_cons, ih fun q hq => ?_, hlength]
      rw [hlength]
      exact h q (List.mem_cons_of_mem r hq)

theorem getElem?_foldl_of_not_covers (h : ∀ r ∈ results, r.offset + r.size ≤ slots.length)
    (hi : ∀ r ∈ results, ¬ r.Covers i) :
    (results.foldl (fill dimension) slots)[i]? = slots[i]? := by
  induction results generalizing slots with
  | nil => rfl
  | cons r results ih =>
      have hr := h r List.mem_cons_self
      have hlength : (fill dimension slots r).length = slots.length := length_fill hr
      have hrest : ∀ q ∈ results, q.offset + q.size ≤ (fill dimension slots r).length := by
        intro q hq
        rw [hlength]
        exact h q (List.mem_cons_of_mem r hq)
      rw [List.foldl_cons, ih hrest fun q hq => hi q (List.mem_cons_of_mem r hq),
        getElem?_fill_of_not_covers hr (hi r List.mem_cons_self)]

/-- A slot gets what its batch has for it, whenever the batch is replied to. -/
theorem getElem?_foldl (h : ∀ r ∈ results, r.offset + r.size ≤ slots.length)
    (hapart : results.Pairwise BatchResult.Apart) {r : BatchResult} (hr : r ∈ results)
    (hi : r.Covers i) (hempty : slots[i]? = some none) :
    (results.foldl (fill dimension) slots)[i]? = some (r.slotAt dimension i) := by
  induction results generalizing slots with
  | nil => cases hr
  | cons q results ih =>
      obtain ⟨hq, hpairs⟩ := List.pairwise_cons.mp hapart
      have hbound := h q List.mem_cons_self
      have hlength : (fill dimension slots q).length = slots.length := length_fill hbound
      have hrest : ∀ p ∈ results, p.offset + p.size ≤ (fill dimension slots q).length := by
        intro p hp
        rw [hlength]
        exact h p (List.mem_cons_of_mem q hp)
      rw [List.foldl_cons]
      rcases List.mem_cons.mp hr with rfl | hr
      · rw [getElem?_foldl_of_not_covers hrest fun p hp => hq p hp i hi]
        exact getElem?_fill_of_covers hbound hi hempty
      · refine ih hrest hpairs hr ?_
        rw [getElem?_fill_of_not_covers hbound fun hcovers => hq r hr i hcovers hi]
        exact hempty

end Fold

/-! ## Slots in the end -/

section Collect

variable {reply : Nat → List String → Reply (List Embedding)} {size dimension : Nat}
  {texts : List String} {done : List BatchResult}

theorem length_collect (h : done.Perm (resultsOf reply size texts)) :
    (collect dimension texts.length done).length = texts.length := by
  rw [collect, length_foldl_fill, List.length_replicate]
  intro r hr
  rw [List.length_replicate]
  exact le_length_of_mem_resultsOf reply size texts (h.mem_iff.mp hr)

/-- Whatever the order of the replies, a slot has what the batch of its text has for it. -/
theorem getElem?_collect (h : done.Perm (resultsOf reply size texts)) {i : Nat}
    (hi : i < texts.length) :
    (collect dimension texts.length done)[i]? =
      some ((resultAt reply size texts (i / max 1 size)).slotAt dimension i) := by
  obtain ⟨hmem, hcovers⟩ := exists_covers reply size texts hi
  have hapart : done.Pairwise BatchResult.Apart :=
    (h.pairwise_iff fun happart j hq hr => happart j hr hq).mpr
      (pairwise_apart_resultsOf reply size texts)
  refine getElem?_foldl (fun r hr => ?_) hapart (h.mem_iff.mpr hmem) hcovers ?_
  · rw [List.length_replicate]
    exact le_length_of_mem_resultsOf reply size texts (h.mem_iff.mp hr)
  · rw [List.getElem?_replicate, if_pos hi]

/-- The order of the replies makes no difference. -/
theorem collect_eq_of_perm (h : done.Perm (resultsOf reply size texts)) :
    collect dimension texts.length done =
      collect dimension texts.length (resultsOf reply size texts) := by
  apply List.ext_getElem?
  intro i
  by_cases hi : i < texts.length
  · rw [getElem?_collect h hi, getElem?_collect (List.Perm.refl _) hi]
  · rw [List.getElem?_eq_none (by rw [length_collect h]; omega),
      List.getElem?_eq_none (by rw [length_collect (List.Perm.refl _)]; omega)]

/-- The batch of the text at a place was answered with one vector for each of its texts, and the one
for this text is long enough. -/
def Fits (reply : Nat → List String → Reply (List Embedding)) (dimension size : Nat)
    (texts : List String) (i : Nat) (raw : Embedding) : Prop :=
  ∃ vectors, reply (i / max 1 size) (batchAt size texts (i / max 1 size)) = .answer vectors ∧
    vectors.length = (batchAt size texts (i / max 1 size)).length ∧
      vectors[i % max 1 size]? = some raw ∧ dimension ≤ raw.length

theorem fit?_eq_some_iff {v raw : Embedding} :
    Embedding.fit? dimension raw = some v ↔ dimension ≤ raw.length ∧ v = Embedding.cut dimension raw := by
  rw [Embedding.fit?]
  split
  · simp
    omega
  · rename_i hlong
    rw [Option.some.injEq, eq_comm]
    exact (and_iff_right (Nat.le_of_not_lt hlong)).symm

theorem slotAt_eq_some_iff {i : Nat} {v : Embedding} :
    (resultAt reply size texts (i / max 1 size)).slotAt dimension i = some v ↔
      ∃ raw, Fits reply dimension size texts i raw ∧ v = Embedding.cut dimension raw := by
  have hplace : i - i / max 1 size * max 1 size = i % max 1 size := by
    have hdiv : i / max 1 size * max 1 size + i % max 1 size = i := Nat.div_add_mod' i (max 1 size)
    omega
  simp only [BatchResult.slotAt, Option.bind_eq_some_iff, BatchResult.vectors?_eq_some_iff,
    fit?_eq_some_iff, Fits]
  constructor
  · rintro ⟨vectors, ⟨hreply, hlength⟩, raw, hraw, hlong, rfl⟩
    rw [resultAt, hplace] at hraw
    exact ⟨raw, ⟨vectors, hreply, hlength, hraw, hlong⟩, rfl⟩
  · rintro ⟨raw, ⟨vectors, hreply, hlength, hraw, hlong⟩, rfl⟩
    refine ⟨vectors, ⟨hreply, hlength⟩, raw, ?_, hlong, rfl⟩
    rw [resultAt, hplace]
    exact hraw

end Collect

theorem ask_eq (m : EmbeddingModel) (size : Nat) (texts : List String) :
    m.ask size texts = resultsOf (fun _ => m.documents) size texts := rfl

/-- A model that has a vector for each text by itself leaves the same slots whatever the batches. -/
theorem collect_ask_of_map {m : EmbeddingModel} {f : String → Embedding}
    (hm : ∀ batch, m.documents batch = .answer (batch.map f)) (dimension size : Nat)
    (texts : List String) :
    collect dimension texts.length (m.ask size texts) =
      texts.map fun text => Embedding.fit? dimension (f text) := by
  apply List.ext_getElem?
  intro i
  by_cases hi : i < texts.length
  · rw [ask_eq, getElem?_collect (List.Perm.refl _) hi, List.getElem?_map,
      List.getElem?_eq_getElem hi, Option.map_some, Option.some.injEq]
    apply Option.ext
    intro v
    have htext := getElem?_batchAt size texts i
    rw [List.getElem?_eq_getElem hi] at htext
    rw [slotAt_eq_some_iff, fit?_eq_some_iff]
    constructor
    · rintro ⟨raw, ⟨vectors, hreply, -, hraw, hlong⟩, rfl⟩
      cases (hm _).symm.trans hreply
      rw [List.getElem?_map, htext] at hraw
      obtain rfl := Option.some.inj hraw
      exact ⟨hlong, rfl⟩
    · rintro ⟨hlong, rfl⟩
      refine ⟨f texts[i], ⟨_, hm _, List.length_map _, ?_, hlong⟩, rfl⟩
      rw [List.getElem?_map, htext]
      rfl
  · rw [ask_eq, List.getElem?_eq_none (by rw [length_collect (List.Perm.refl _)]; omega),
      List.getElem?_eq_none (by rw [List.length_map]; omega)]

theorem not_silent_of_mem_resultsOf {reply : Nat → List String → Reply (List Embedding)} {size : Nat}
    {texts : List String} (hreply : ∀ k batch, reply k batch ≠ .silence) :
    ∀ r ∈ resultsOf reply size texts, r.isSilent = false := by
  intro r hr
  obtain ⟨k, hk, rfl⟩ := List.mem_mapIdx.mp hr
  rw [BatchResult.isSilent]
  split
  · rename_i hsilent
    exact absurd hsilent (hreply _ _)
  · rfl
  · rfl

/-- Every text has a place in a batch. Batches that are sent with a limit and replied to in any order
leave one slot for each text, with a vector exactly where the batch of the text was answered with one
vector for each of its texts and that of the text is long enough. If every batch is replied to, they all
are in the end. So the order does not matter, and for a model that has a vector for each text by itself
the size of the batches neither. -/
theorem slots_in_any_order (m : EmbeddingModel) (dimension size limit : Nat) (texts : List String) :
    (∀ i, (batchAt size texts (i / max 1 size))[i % max 1 size]? = texts[i]?) ∧
    (∀ reply done, Stream.Run limit (.start (resultsOf reply size texts)) (.finished done) →
      (collect dimension texts.length done).length = texts.length ∧
        ∀ i v, (collect dimension texts.length done)[i]? = some (some v) ↔
          i < texts.length ∧
            ∃ raw, Fits reply dimension size texts i raw ∧ v = Embedding.cut dimension raw) ∧
    (∀ reply : Nat → List String → Reply (List Embedding), (∀ k batch, reply k batch ≠ .silence) →
      ∀ s, Stream.Run limit (.start (resultsOf reply size texts)) s →
        ∃ done, Stream.Run limit s (.finished done)) ∧
    (∀ done, Stream.Run limit (.start (m.ask size texts)) (.finished done) →
      m.embedTexts dimension size texts =
        some (collect (min dimension m.dimension) texts.length done)) ∧
    ∀ f : String → Embedding, (∀ batch, m.documents batch = .answer (batch.map f)) →
      m.embedTexts dimension size texts =
        some (texts.map fun text => Embedding.fit? (min dimension m.dimension) (f text)) := by
  have hperm : ∀ {results done}, Stream.Run limit (.start results) (.finished done) →
      done.Perm results := by
    intro results done hrun
    simpa [Stream.all, Stream.start, Stream.finished] using hrun.perm
  refine ⟨getElem?_batchAt size texts,
    fun reply done hrun => ⟨length_collect (hperm hrun), fun i v => ?_⟩,
    fun reply hreply s hrun => ?_, fun done hrun => ?_, fun f hf => ?_⟩
  · by_cases hi : i < texts.length
    · rw [getElem?_collect (hperm hrun) hi, Option.some.injEq, slotAt_eq_some_iff]
      exact (and_iff_right hi).symm
    · rw [List.getElem?_eq_none (by rw [length_collect (hperm hrun)]; omega)]
      simp [hi]
  · refine Stream.exists_finished limit s fun r hr => ?_
    have hmem : r ∈ resultsOf reply size texts := by
      simpa [Stream.all, Stream.start] using hrun.perm.mem_iff.mp hr
    exact not_silent_of_mem_resultsOf hreply r hmem
  · -- what was replied to is not silent, so the model gives slots
    have hanswered : ∀ r ∈ done, r.isSilent = false :=
      Stream.Run.answered hrun (by simp [Stream.start])
    have hsilent : (m.ask size texts).any BatchResult.isSilent = false := by
      rw [List.any_eq_false]
      intro r hr
      simp [hanswered r ((hperm hrun).mem_iff.mpr hr)]
    rw [embedTexts, hsilent]
    exact congrArg some (collect_eq_of_perm (hperm hrun)).symm
  · have hreplies : m.Replies := by
      intro batch hsilence
      rw [hf] at hsilence
      cases hsilence
    obtain ⟨slots, hslots⟩ := embedTexts_isSome hreplies dimension size texts
    rw [hslots]
    rw [embedTexts] at hslots
    split at hslots
    · cases hslots
    · rw [← hslots, collect_ask_of_map hf]

end EmbeddingModel

end SourceIndex
