import Mathlib
import SourceIndex.Proofs.Project.Hints
import SourceIndex.Proofs.Project.Places

/-! # Hints in other spellings

Hints with the same parts lead to plans that read the same parts in the same order. They yield the
same index exactly if every path that is read is taken alike in both spellings
(`Run.respelled_iff`): it is spelled the same, or it is not cut anew under either spelling, what was
recorded is retained or dropped under both, and it had no chunks under either.

A file that is cut anew is recorded as it was read, and a file that is retained keeps only those
chunks that are found under the spelling of the hint. So one that is recorded under another spelling
loses its chunks.
-/

set_option autoImplicit false

namespace SourceIndex

/-! ## Files that are the same but for vectors -/

/-- Two files have the same record, and the same chunks but for vectors and order. -/
structure CutFile.Alike (c d : CutFile) : Prop where
  record : c.record = d.record
  chunks : (c.chunks.map Chunk.bare).Perm (d.chunks.map Chunk.bare)

namespace CutFile

variable {cuts cuts' : List CutFile} {c d : CutFile}

theorem Alike.refl (c : CutFile) : c.Alike c := ⟨rfl, List.Perm.refl _⟩

theorem Alike.symm (h : c.Alike d) : d.Alike c := ⟨h.record.symm, h.chunks.symm⟩

theorem rel_symm {c? d? : Option CutFile} (h : Option.Rel Alike c? d?) : Option.Rel Alike d? c? := by
  cases h with
  | none => exact .none
  | some h => exact .some h.symm

/-- Two lists of files make the same index. -/
structure SameIndex (cuts cuts' : List CutFile) : Prop where
  records : (cuts.map CutFile.record).Perm (cuts'.map CutFile.record)
  chunks : ((cuts.flatMap CutFile.chunks).map Chunk.bare).Perm
    ((cuts'.flatMap CutFile.chunks).map Chunk.bare)

theorem SameIndex.symm (h : SameIndex cuts cuts') : SameIndex cuts' cuts :=
  ⟨h.records.symm, h.chunks.symm⟩

theorem SameIndex.append_left (h : SameIndex cuts cuts') (before : List CutFile) :
    SameIndex (before ++ cuts) (before ++ cuts') where
  records := by
    rw [List.map_append, List.map_append]
    exact h.records.append_left _
  chunks := by
    rw [List.flatMap_append, List.flatMap_append, List.map_append, List.map_append]
    exact h.chunks.append_left _

/-- Files that are alike make the same index. -/
theorem sameIndex_of_alike (h : List.Forall₂ Alike cuts cuts') : SameIndex cuts cuts' := by
  induction h with
  | nil => exact ⟨List.Perm.refl _, List.Perm.refl _⟩
  | cons hcd _ ih =>
      refine ⟨?_, ?_⟩
      · rw [List.map_cons, List.map_cons, hcd.record]
        exact ih.records.cons _
      · rw [List.flatMap_cons, List.flatMap_cons, List.map_append, List.map_append]
        exact hcd.chunks.append ih.chunks

/-- The chunks of one file among those of all, without their vectors. -/
theorem Distinct.filter_map_bare (h : Distinct cuts) (hc : c ∈ cuts) :
    ((cuts.flatMap CutFile.chunks).map Chunk.bare).filter (fun d => d.path = c.record.path) =
      c.chunks.map Chunk.bare := by
  have hpaths : (cuts.map fun c => c.record.path).Nodup := by
    refine List.Nodup.of_map Path.parts ?_
    rw [List.map_map]
    exact h.nodup
  rw [List.filter_map, ← filter_flatMap hpaths h.own hc]
  rfl

/-- In the same index every file has one that is like it. -/
theorem SameIndex.exists_alike (h : SameIndex cuts cuts') (hcuts : Distinct cuts)
    (hcuts' : Distinct cuts') (hc : c ∈ cuts) : ∃ d ∈ cuts', c.Alike d := by
  obtain ⟨d, hd, hrecord⟩ := List.mem_map.mp (h.records.mem_iff.mp (List.mem_map_of_mem hc))
  refine ⟨d, hd, hrecord.symm, ?_⟩
  have hfilter := h.chunks.filter fun e => e.path = c.record.path
  rw [hcuts.filter_map_bare hc, ← hrecord, hcuts'.filter_map_bare hd] at hfilter
  exact hfilter

end CutFile

/-! ## Paths in two spellings -/

namespace BuildContext

/-- A path is taken alike in two spellings: they are the same, or it is not cut anew under either,
the same becomes of its record, and if that stays there were no chunks under either. -/
def TakesAlike (x : BuildContext) (t : FileTree) (o : BuildOptions) (b : BuildBase)
    (q q' : Path) : Prop :=
  q = q' ∨
    Sorting.changed? b.records (x.readingOf t o (some b) q) = none ∧
    Sorting.changed? b.records (x.readingOf t o (some b) q') = none ∧
    Sorting.retained? b.records (x.readingOf t o (some b) q) =
      Sorting.retained? b.records (x.readingOf t o (some b) q') ∧
    (Sorting.retained? b.records (x.readingOf t o (some b) q) ≠ none →
      b.store.chunksOf q = [] ∧ b.store.chunksOf q' = [])

variable {x : BuildContext} {t : FileTree} {o : BuildOptions} {b : BuildBase} {q q' : Path}
  {c d : CutFile} {plan plan' : ReadPlan}

/-- A file that is cut anew under one spelling is not found under another one. -/
theorem changed?_eq_none_of_rel (hb : Keyed b.store.files b.store.chunks)
    (hparts : q.parts = q'.parts) (hne : q ≠ q')
    (hrel : Option.Rel CutFile.Alike (x.taken t o b q) (x.taken t o b q')) :
    Sorting.changed? b.records (x.readingOf t o (some b) q) = none := by
  cases hchanged : Sorting.changed? b.records (x.readingOf t o (some b) q) with
  | none => rfl
  | some file =>
      exfalso
      rw [taken_eq_some_iff.mpr (.inl ⟨file, hchanged, rfl⟩)] at hrel
      cases htaken : x.taken t o b q' with
      | none => rw [htaken] at hrel; cases hrel
      | some d =>
          rw [htaken] at hrel
          have hrecord : (CutFile.ofFile x.parse b.facts.profile.params.toChunkLimits file).record =
              d.record := (Option.rel_some_some.mp hrel).record
          rcases taken_eq_some_iff.mp htaken with ⟨file', hchanged', rfl⟩ | ⟨record, hretained, rfl⟩
          · have hpath : file.path = file'.path := congrArg FileRecord.path hrecord
            rw [path_of_changed hchanged, path_of_changed hchanged'] at hpath
            exact hne hpath
          · -- then its earlier record has the new digest, and it would not be cut anew
            obtain ⟨f, hf, hfparts, -, hhash⟩ := of_retained hretained
            obtain ⟨hfile, hrenewed⟩ := (Sorting.changed?_eq_some_iff _ _).mp hchanged
            have hget : b.records.get? (x.readingOf t o (some b) q).path = some f :=
              (BuildBase.get?_records_of_keyed hb f).mpr ⟨hf, hfparts.trans hparts.symm⟩
            have hnew : file.contentHash = record.contentHash :=
              congrArg FileRecord.contentHash hrecord
            simp [Sorting.renewed?, hfile, hget, hnew, hhash] at hrenewed

theorem taken_of_unchanged
    (h : Sorting.changed? b.records (x.readingOf t o (some b) q) = none) :
    x.taken t o b q =
      (Sorting.retained? b.records (x.readingOf t o (some b) q)).map (x.keep o b q) := by
  rw [taken, h]
  rfl

/-- A file that is kept alike under two spellings of its path has no chunks under either. -/
theorem chunksOf_eq_nil_of_alike (hb : Keyed b.store.files b.store.chunks)
    (hparts : q.parts = q'.parts) (hne : q ≠ q') {record record' : FileRecord}
    (hretained : Sorting.retained? b.records (x.readingOf t o (some b) q) = some record)
    (halike : (x.keep o b q record).Alike (x.keep o b q' record')) :
    b.store.chunksOf q = [] ∧ b.store.chunksOf q' = [] := by
  have hchunks := halike.chunks
  rw [map_bare_keep, map_bare_keep] at hchunks
  -- the earlier record has one spelling at most, and no chunks under the other
  obtain ⟨f, hf, hfparts, -⟩ := of_retained hretained
  have hfparts : f.path.parts = q.parts := hfparts
  by_cases hfq : f.path = q
  · have hnil := hb.chunksOf_eq_nil hf (hfparts.trans hparts) (hfq ▸ hne)
    rw [hnil] at hchunks
    exact ⟨by simpa using hchunks, hnil⟩
  · have hnil := hb.chunksOf_eq_nil hf hfparts hfq
    rw [hnil] at hchunks
    exact ⟨hnil, by simpa using hchunks.symm⟩

/-- What was recorded is retained alike under two spellings if the records are the same and there were
no chunks. -/
theorem rel_retained_iff (hb : Keyed b.store.files b.store.chunks) (hparts : q.parts = q'.parts)
    (hne : q ≠ q') :
    Option.Rel CutFile.Alike
        ((Sorting.retained? b.records (x.readingOf t o (some b) q)).map (x.keep o b q))
        ((Sorting.retained? b.records (x.readingOf t o (some b) q')).map (x.keep o b q')) ↔
      Sorting.retained? b.records (x.readingOf t o (some b) q) =
          Sorting.retained? b.records (x.readingOf t o (some b) q') ∧
        (Sorting.retained? b.records (x.readingOf t o (some b) q) ≠ none →
          b.store.chunksOf q = [] ∧ b.store.chunksOf q' = []) := by
  cases hretained : Sorting.retained? b.records (x.readingOf t o (some b) q) with
  | none =>
      cases Sorting.retained? b.records (x.readingOf t o (some b) q') with
      | none => simp
      | some record' => simp
  | some record =>
      cases Sorting.retained? b.records (x.readingOf t o (some b) q') with
      | none => simp
      | some record' =>
          rw [Option.map_some, Option.map_some, Option.rel_some_some, Option.some.injEq]
          constructor
          · intro halike
            exact ⟨halike.record, fun _ => chunksOf_eq_nil_of_alike hb hparts hne hretained halike⟩
          · rintro ⟨rfl, hchunks⟩
            obtain ⟨hq, hq'⟩ := hchunks (Option.some_ne_none record)
            refine ⟨rfl, ?_⟩
            rw [map_bare_keep, map_bare_keep, hq, hq']

/-- Whether a path is taken alike in two spellings is seen from what becomes of it. -/
theorem rel_taken_iff (hb : Keyed b.store.files b.store.chunks) (hparts : q.parts = q'.parts) :
    Option.Rel CutFile.Alike (x.taken t o b q) (x.taken t o b q') ↔ x.TakesAlike t o b q q' := by
  by_cases hsame : q = q'
  · subst hsame
    refine iff_of_true ?_ (.inl rfl)
    cases x.taken t o b q with
    | none => exact .none
    | some c => exact .some (.refl c)
  constructor
  · intro hrel
    have hchanged := changed?_eq_none_of_rel hb hparts hsame hrel
    have hchanged' := changed?_eq_none_of_rel hb hparts.symm (Ne.symm hsame) (CutFile.rel_symm hrel)
    rw [taken_of_unchanged hchanged, taken_of_unchanged hchanged'] at hrel
    exact .inr ⟨hchanged, hchanged', (rel_retained_iff hb hparts hsame).mp hrel⟩
  · rintro (hq | ⟨hchanged, hchanged', hretained⟩)
    · exact absurd hq hsame
    · rw [taken_of_unchanged hchanged, taken_of_unchanged hchanged']
      exact (rel_retained_iff hb hparts hsame).mpr hretained

/-! ## Plans in two spellings -/

section Plans

variable (hb : Keyed b.store.files b.store.chunks) (h : plan.Apart) (h' : plan'.Apart)
include hb h h'

/-- What a path is taken for under one plan, it is taken for under the other, if they lead to the same
index. -/
theorem exists_taken_alike (hsame : CutFile.SameIndex (x.planned t o b plan) (x.planned t o b plan'))
    (hq : q ∈ plan.read) (hq' : q' ∈ plan'.read) (hparts : q.parts = q'.parts)
    (hc : x.taken t o b q = some c) : ∃ d, x.taken t o b q' = some d ∧ c.Alike d := by
  have hmem : c ∈ x.planned t o b plan :=
    List.mem_append_right _ (List.mem_filterMap.mpr ⟨q, hq, hc⟩)
  obtain ⟨d, hd, halike⟩ := hsame.exists_alike (distinct_planned h hb) (distinct_planned h' hb) hmem
  have hdparts : d.record.path.parts = q'.parts := by
    rw [← halike.record, (of_taken hb hc).1, hparts]
  -- the file that is like it has the parts of `q'`, and so it is what `q'` is taken for
  rcases List.mem_append.mp hd with hd | hd
  · obtain ⟨k, hk, hkept⟩ := List.mem_filterMap.mp hd
    rw [(of_kept hb hkept).2.1] at hdparts
    exact absurd hdparts.symm (h'.disjoint q' hq' k hk)
  · obtain ⟨r, hr, htaken⟩ := List.mem_filterMap.mp hd
    rw [(of_taken hb htaken).1] at hdparts
    obtain rfl := List.inj_on_of_nodup_map h'.read hr hq' hdparts
    exact ⟨d, htaken, halike⟩

/-- Plans that carry over the same and read the same parts lead to the same index exactly if every
path is taken alike in both spellings. -/
theorem sameIndex_planned_iff (hcarry : plan'.carry = plan.carry)
    (hread : List.Forall₂ ReadPlan.SameParts plan.read plan'.read) :
    CutFile.SameIndex (x.planned t o b plan) (x.planned t o b plan') ↔
      List.Forall₂ (x.TakesAlike t o b) plan.read plan'.read := by
  constructor
  · intro hsame
    obtain ⟨hlength, hzip⟩ := List.forall₂_iff_zip.mp hread
    refine List.forall₂_iff_zip.mpr ⟨hlength, fun {q q'} hqq => ?_⟩
    obtain ⟨hq, hq'⟩ := List.of_mem_zip hqq
    have hparts : q.parts = q'.parts := hzip hqq
    rw [← rel_taken_iff hb hparts]
    cases htaken : x.taken t o b q with
    | some c =>
        obtain ⟨d, hd, halike⟩ := exists_taken_alike hb h h' hsame hq hq' hparts htaken
        rw [hd]
        exact .some halike
    | none =>
        cases htaken' : x.taken t o b q' with
        | none => exact .none
        | some d =>
            obtain ⟨c, hc, -⟩ := exists_taken_alike hb h' h hsame.symm hq' hq hparts.symm htaken'
            rw [htaken] at hc
            cases hc
  · intro halike
    have hrel : List.Forall₂ (fun q q' => Option.Rel CutFile.Alike (x.taken t o b q)
        (x.taken t o b q')) plan.read plan'.read :=
      List.Forall₂.mp (fun q q' hparts => (rel_taken_iff hb hparts).mpr) hread halike
    have htaken : List.Forall₂ CutFile.Alike (plan.read.filterMap (x.taken t o b))
        (plan'.read.filterMap (x.taken t o b)) :=
      List.rel_filterMap (fun _ _ hq => hq) hrel
    rw [planned, planned, hcarry]
    exact (CutFile.sameIndex_of_alike htaken).append_left _

end Plans

/-- A file that is retained keeps the chunks that are found under the spelling of the path that is
read, and so it keeps none if it is recorded under another spelling. -/
theorem chunksOf_of_retained (hb : Keyed b.store.files b.store.chunks) (h : plan.Apart) {s : Store}
    (hfiles : s.files.Perm ((x.planned t o b plan).map CutFile.record))
    (hchunks : (s.chunks.map Chunk.bare).Perm
      (((x.planned t o b plan).flatMap CutFile.chunks).map Chunk.bare)) (hq : q ∈ plan.read)
    {f : FileRecord}
    (hf : Sorting.retained? b.records (x.readingOf t o (some b) q) = some f) :
    f ∈ s.files ∧ ((s.chunksOf f.path).map Chunk.bare).Perm ((b.store.chunksOf q).map Chunk.bare) ∧
      (f.path ≠ q → s.chunksOf f.path = []) := by
  have hmem : x.keep o b q f ∈ x.planned t o b plan :=
    List.mem_append_right _
      (List.mem_filterMap.mpr ⟨q, hq, taken_eq_some_iff.mpr (.inr ⟨f, hf, rfl⟩)⟩)
  have hdistinct : CutFile.Distinct (x.planned t o b plan) := distinct_planned h hb
  have hfound : ((s.chunksOf f.path).map Chunk.bare).Perm
      ((b.store.chunksOf q).map Chunk.bare) := by
    have hfilter : (s.chunks.filter fun d => d.path = f.path).map Chunk.bare =
        (s.chunks.map Chunk.bare).filter fun d => d.path = f.path := by
      rw [List.filter_map]
      rfl
    rw [← map_bare_keep (x := x) (o := o) q f, ← hdistinct.filter_map_bare hmem]
    refine ((List.mergeSort_perm _ _).map _).trans ?_
    rw [hfilter]
    exact hchunks.filter _
  refine ⟨hfiles.mem_iff.mpr (List.mem_map_of_mem hmem), hfound, fun hne => ?_⟩
  obtain ⟨e, he, heparts, hpath, -⟩ := of_retained hf
  have heparts : e.path.parts = q.parts := heparts
  rw [hb.chunksOf_eq_nil he heparts (hpath ▸ hne)] at hfound
  simpa using hfound

end BuildContext

/-! ## Drafts -/

namespace Project

variable {t : FileTree} {x : BuildContext} {o : BuildOptions} {b : BuildBase} {id id' : Nat}
  {s s' : Store} {built built' : Built} {hints hints' : List Path}

/-- What becomes of hints that are spelled otherwise: they are followed by a plan that carries over the
same and reads the same parts in the same order, every path is taken alike if the drafts are the same,
and the other way round. -/
theorem draft_respelled (hwf : t.WellFormed) (hb : Keyed b.store.files b.store.chunks)
    (hhints : List.Forall₂ ReadPlan.SameParts hints hints')
    (hdraft : draft t x o (.incremental (some hints)) (some b) id = .ok (s, built)) :
    ∃ plan plan', ReadPlan.ofHints t x.root (x.walk o (some b)) b.records.keys hints = .ok plan ∧
      ReadPlan.ofHints t x.root (x.walk o (some b)) b.records.keys hints' = .ok plan' ∧
      plan'.carry = plan.carry ∧ List.Forall₂ ReadPlan.SameParts plan.read plan'.read ∧
      (∀ q ∈ plan.read, ∀ f, Sorting.retained? b.records (x.readingOf t o (some b) q) = some f →
        f ∈ s.files ∧
          ((s.chunksOf f.path).map Chunk.bare).Perm ((b.store.chunksOf q).map Chunk.bare) ∧
          (f.path ≠ q → s.chunksOf f.path = [])) ∧
      (∀ id' s' built', draft t x o (.incremental (some hints')) (some b) id' = .ok (s', built') →
        (s.SameIndex s' ↔ List.Forall₂ (x.TakesAlike t o b) plan.read plan'.read)) ∧
      (o.stop = none → (∀ m, x.model = some m → m.Replies) →
        List.Forall₂ (x.TakesAlike t o b) plan.read plan'.read → ∀ id',
          ((∃ s' built', draft t x o (.incremental (some hints')) (some b) id' = .ok (s', built')) ↔
            x.Bears t o b hints')) := by
  obtain ⟨plan, -, hplan, -, hholds⟩ := draft_keyed hwf hb hdraft
  have hplan : ReadPlan.ofHints t x.root (x.walk o (some b)) b.records.keys hints = .ok plan := hplan
  obtain ⟨plan', hplan', hcarry, hread⟩ := ReadPlan.ofHints_congr hhints hplan
  have hapart' := (ReadPlan.ofHints_apart hplan').1
  have hiff := BuildContext.sameIndex_planned_iff (x := x) (t := t) (o := o) hb hholds.apart hapart'
    hcarry hread
  have hholds' : ∀ {id' s' built'},
      draft t x o (.incremental (some hints')) (some b) id' = .ok (s', built') →
      Holds t x o b plan' s' := by
    intro id' s' built' hdraft'
    obtain ⟨_, -, hsame, -, hholds'⟩ := draft_keyed hwf hb hdraft'
    obtain rfl := Except.ok.inj (hplan'.symm.trans hsame)
    exact hholds'
  refine ⟨plan, plan', hplan, hplan', hcarry, hread,
    fun q hq f hf => BuildContext.chunksOf_of_retained hb hholds.apart hholds.files hholds.chunks hq hf,
    fun id' s' built' hdraft' => ?_, fun hstop hmodel halike id' => ⟨?_, fun hbears => ?_⟩⟩
  · have hholds' := hholds' hdraft'
    rw [← hiff]
    constructor
    · rintro ⟨hfiles, hchunks⟩
      exact ⟨hholds.files.symm.trans (hfiles.trans hholds'.files),
        hholds.chunks.symm.trans (hchunks.trans hholds'.chunks)⟩
    · intro hsame
      exact ⟨hholds.files.trans (hsame.records.trans hholds'.files.symm),
        hholds.chunks.trans (hsame.chunks.trans hholds'.chunks.symm)⟩
  · rintro ⟨s', built', hdraft'⟩ plan'' hplan''
    obtain rfl := Except.ok.inj (hplan'.symm.trans hplan'')
    exact (hholds' hdraft').few
  · refine draft_isOk_of_keyed hwf hb hstop hmodel id' hplan' (hbears plan' hplan') ?_
    exact (Store.SameIndex.nodup_iff (hiff.mpr halike).chunks).mp hholds.unique

end Project

/-! ## Runs -/

/-- In every run, hints that are spelled otherwise, with the same parts, are followed by a plan that
carries over the same paths and reads the same parts in the same order. What was recorded at a path
that is read, and is retained, keeps the chunks that are found under the spelling of that path, so none
if that is not the spelling of its record. The index is the same exactly if every path is taken alike
in both spellings; there is one then exactly if not too many files cannot be read. Without an earlier
generation the hints do not matter at all. -/
theorem Run.respelled_iff {S : Scope} {w : Workspace} {p : Project} {hints hints' : List Path}
    {o : BuildOptions} (h : Run S w p) (hhints : List.Forall₂ ReadPlan.SameParts hints hints')
    {s : Store} (hs : (Project.build w p S.parse (.incremental (some hints)) o).Yields s) :
    ((Project.started w p).2.current = none →
      (Project.build w p S.parse (.incremental (some hints')) o).Yields s) ∧
    ∀ g, (Project.started w p).2.current = some g → ∃ earlier plan plan',
      let t := Project.seen w p
      let x := p.context S.parse
      let b : BuildBase := { facts := g.facts, store := earlier }
      g.reader t "failed to prepare query" "files" = .ok earlier ∧
      ReadPlan.ofHints t x.root (x.walk o (some b)) b.records.keys hints = .ok plan ∧
      ReadPlan.ofHints t x.root (x.walk o (some b)) b.records.keys hints' = .ok plan' ∧
      plan'.carry = plan.carry ∧ List.Forall₂ ReadPlan.SameParts plan.read plan'.read ∧
      (∀ q ∈ plan.read, ∀ f, Sorting.retained? b.records (x.readingOf t o (some b) q) = some f →
        f ∈ s.files ∧
          ((s.chunksOf f.path).map Chunk.bare).Perm ((earlier.chunksOf q).map Chunk.bare) ∧
          (f.path ≠ q → s.chunksOf f.path = [])) ∧
      (∀ s', (Project.build w p S.parse (.incremental (some hints')) o).Yields s' →
        (s.SameIndex s' ↔ List.Forall₂ (x.TakesAlike t o b) plan.read plan'.read)) ∧
      (o.stop = none → (∀ m, p.model = some m → m.Replies) →
        List.Forall₂ (x.TakesAlike t o b) plan.read plan'.read →
          ((∃ s', (Project.build w p S.parse (.incremental (some hints')) o).Yields s') ↔
            x.Bears t o b hints')) := by
  have hinvariant := h.invariant S.preserves_spelled
  have hprepares := hinvariant.prepares
  constructor
  · intro hg
    rw [Project.build_yields_iff hprepares, hg] at hs ⊢
    obtain ⟨hfree, id, hclear, base, hbase, built, hdraft⟩ := hs
    obtain rfl : none = base := Except.ok.inj hbase
    exact ⟨hfree, id, hclear, none, rfl, built, hdraft⟩
  · intro g hg
    simp only [Project.incremental_yields_iff hprepares hg] at hs ⊢
    obtain ⟨hfree, id, hclear, earlier, hearlier, built, hdraft⟩ := hs
    have hb : Keyed earlier.files earlier.chunks := h.keyed hg hearlier
    obtain ⟨plan, plan', hplan, hplan', hcarry, hread, hretained, hsame, hyields⟩ :=
      Project.draft_respelled (b := { facts := g.facts, store := earlier })
        hinvariant.lock.wellFormed hb hhints hdraft
    refine ⟨earlier, plan, plan', hearlier, hplan, hplan', hcarry, hread, hretained, ?_, ?_⟩
    · rintro s' ⟨-, id', -, earlier', hearlier', built', hdraft'⟩
      obtain rfl := Except.ok.inj (hearlier.symm.trans hearlier')
      exact hsame id' s' built' hdraft'
    · intro hstop hmodel halike
      constructor
      · rintro ⟨s', -, id', -, earlier', hearlier', built', hdraft'⟩
        obtain rfl := Except.ok.inj (hearlier.symm.trans hearlier')
        exact (hyields hstop hmodel halike id').mp ⟨s', built', hdraft'⟩
      · intro hbears
        obtain ⟨s', built', hdraft'⟩ := (hyields hstop hmodel halike id).mpr hbears
        exact ⟨s', hfree, id, hclear, earlier, hearlier, built', hdraft'⟩

namespace Project

-- only the kernel is to compute the small project
attribute [local irreducible] smallBuilt smallEdited

theorem sameParts_dotted : List.Forall₂ ReadPlan.SameParts [⟨"./a.md"⟩] [⟨".//a.md"⟩] :=
  .cons (by decide) .nil

end Project

/-- Two spellings of a hint with a dot in front. -/
theorem Run.respelled_smallEdited : ∃ (g : Generation) (s earlier : Store) (plan plan' : ReadPlan),
    (Project.started Project.smallEdited Project.smallBuilt.project).2.current = some g ∧
    (Project.build Project.smallEdited Project.smallBuilt.project Scope.small.parse
      (.incremental (some [⟨"./a.md"⟩])) {}).Yields s ∧
    plan'.carry = plan.carry ∧ List.Forall₂ ReadPlan.SameParts plan.read plan'.read ∧
    ∀ s', (Project.build Project.smallEdited Project.smallBuilt.project Scope.small.parse
        (.incremental (some [⟨".//a.md"⟩])) {}).Yields s' →
      (s.SameIndex s' ↔ List.Forall₂ ((Project.smallBuilt.project.context
        Scope.small.parse).TakesAlike (Project.seen Project.smallEdited Project.smallBuilt.project) {}
          { facts := g.facts, store := earlier }) plan.read plan'.read) := by
  obtain ⟨s, hs, -⟩ := Project.yields_dotted
  obtain ⟨g, -, -, hg, -⟩ := Project.smallEdited_spec
  obtain ⟨earlier, plan, plan', -, -, -, hcarry, hread, -, hsame, -⟩ :=
    (Run.respelled_iff Project.run_smallEdited Project.sameParts_dotted hs).2 g hg
  exact ⟨g, s, earlier, plan, plan', hg, hs, hcarry, hread, hsame⟩

namespace Project

/-- They are recorded as they are spelled. -/
theorem not_sameIndex_dotted : Run .small smallEdited smallBuilt.project ∧
    List.Forall₂ ReadPlan.SameParts [⟨"./a.md"⟩] [⟨".//a.md"⟩] ∧ ∃ s s',
      (build smallEdited smallBuilt.project Scope.small.parse
        (.incremental (some [⟨"./a.md"⟩])) {}).Yields s ∧
      (build smallEdited smallBuilt.project Scope.small.parse
        (.incremental (some [⟨".//a.md"⟩])) {}).Yields s' ∧ ¬ s.SameIndex s' := by
  obtain ⟨s, hs, hfiles⟩ := yields_dotted
  have hhinted : smallHinted ⟨".//a.md"⟩ = some ([⟨"a.md"⟩, ⟨".//a.md"⟩], true, false) := by
    decide +kernel
  obtain ⟨s', hs', hfiles'⟩ := yields_smallHinted hhinted
  refine ⟨run_smallEdited, sameParts_dotted, s, s', hs, hs', fun hsame => ?_⟩
  have hpaths := hfiles.symm.trans ((hsame.1.map FileRecord.path).trans hfiles')
  exact absurd (hpaths.mem_iff.mp (List.mem_cons_of_mem _ List.mem_cons_self)) (by decide)

end Project

end SourceIndex
