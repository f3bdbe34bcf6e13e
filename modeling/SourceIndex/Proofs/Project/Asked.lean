import Mathlib
import SourceIndex.Proofs.Build.Missing
import SourceIndex.Proofs.Project.Places
import SourceIndex.Proofs.Project.Provenance
import SourceIndex.Proofs.Project.Recovery

/-! # What a model is asked for

A sync asks the model for vectors only where they are missing (`Run.asks_for_missing`). With the model
and the dimension of the generation before, these are the chunks that are cut anew and the chunks that
are taken over without a vector; the others keep theirs. With another model, or another dimension,
they are all chunks of the new generation.
-/

set_option autoImplicit false

namespace SourceIndex

open IndexDirectory

-- names of files are not to be computed
attribute [local irreducible] nameOf journalName removeStore Project.buildLocked

namespace Project

variable {t : FileTree} {x : BuildContext} {o : BuildOptions} {b : BuildBase} {m : EmbeddingModel}
  {hints : Option (List Path)} {q : Prepared} {asked : List String}

/-- What is prepared from keyed contents, before the model is asked and after it. -/
theorem prepare_planned (hwf : t.WellFormed) (hm : x.model = some m)
    (hprepare : prepare t x o (.incremental hints) (some b) = .ok (q, asked)) :
    ∃ plan, ReadPlan.make t x.root (x.walk o (some b)) (some b.records.keys) hints = .ok plan ∧
      plan.Apart ∧ ∃ r, r = Prepared.ofSorting x o (some b) (x.sorting t o (some b) plan) ∧
        q = { r with chunks := q.chunks } ∧ q.chunks.map Chunk.bare = r.chunks.map Chunk.bare ∧
        (r.dimension = 0 → asked = []) ∧
        (0 < r.dimension → asked = Prepared.missingTexts r.chunks ∧ ∃ slots,
          m.embedTexts r.dimension x.settings.embedding.batchSize asked = some slots ∧
            q.chunks = Prepared.attach r.chunks slots) := by
  obtain ⟨r, hmake, hcomplete, rfl⟩ := prepare_ok_iff.mp hprepare
  obtain ⟨plan, hplan, -, -, -, rfl⟩ := (Prepared.make_ok_iff _ r).mp hmake
  obtain ⟨hq, hbare⟩ := Prepared.complete_spec hcomplete
  refine ⟨plan, hplan, (ReadPlan.make_apart hwf hplan).1, _, rfl, hq, hbare, fun hzero => ?_,
    fun hpos => ?_⟩
  · have hnone : (Prepared.ofSorting x o (some b) (x.sorting t o (some b) plan)).modelFor x = none := by
      rw [Prepared.modelFor, hzero]
      rfl
    rw [hnone]
    rfl
  · have hmodel := (Prepared.modelFor_eq_some_iff _ m).mpr ⟨hpos, hm⟩
    obtain ⟨-, slots, hslots, rfl⟩ := (Prepared.complete_ok_iff hmodel).mp hcomplete
    rw [hmodel]
    exact ⟨rfl, slots, hslots, rfl⟩

variable {home : List String} {w : Workspace} {p : Project} {parse : Chunk.Parse} {g : Generation}
  {earlier : Store} {built : Built}

/-- A sync that succeeds has asked for what was prepared, and stores the chunks that were prepared. -/
theorem asked_of_build (h : Prepares home w p) (hg : (started w p).2.current = some g)
    (hearlier : g.reader (seen w p) "failed to prepare query" "files" = .ok earlier)
    (hprepare : prepare (seen w p) (p.context parse) o (.incremental hints)
      (some { facts := g.facts, store := earlier }) = .ok (q, asked))
    (hok : (build w p parse (.incremental hints) o).answer = .ok built) :
    built.asked = asked ∧
      ∀ s, (build w p parse (.incremental hints) o).Yields s → s.chunks = q.chunks := by
  have hsame : ∀ {id store built},
      draft (seen w p) (p.context parse) o (.incremental hints)
        (some { facts := g.facts, store := earlier }) id = .ok (store, built) →
      built.asked = asked ∧ store.chunks = q.chunks := by
    intro id store built hdraft
    obtain ⟨q', asked', hprepare', hstore, -, rfl⟩ := draft_ok_iff_prepare.mp hdraft
    obtain ⟨rfl, rfl⟩ := Prod.mk.inj (Except.ok.inj (hprepare.symm.trans hprepare'))
    exact ⟨rfl, (chunks_of_storeOf hstore).1⟩
  constructor
  · obtain ⟨⟨id, store, hmakes⟩, -⟩ := (build_ok_iff h (lock_of_build_ok hok) built).mp hok
    obtain ⟨base, hbase, hdraft⟩ := hmakes.drafted
    rw [hg, baseOf_incremental, started_tree, hearlier] at hbase
    obtain rfl := Except.ok.inj hbase
    rw [started_tree, started_context] at hdraft
    exact (hsame hdraft).1
  · intro s hs
    obtain ⟨-, id, -, earlier', hearlier', built', hdraft⟩ :=
      (incremental_yields_iff h hg hints s).mp hs
    obtain rfl := Except.ok.inj (hearlier.symm.trans hearlier')
    exact (hsame hdraft).2

end Project

/-! ## Runs -/

/-- In every run, a sync puts together the earlier chunks of the paths that it takes over and the chunks
of the files that it cuts anew. If the model is the one that is recorded and has at least the recorded
dimension, it is asked for the texts of the new chunks and of the old ones without a vector, once each,
and an old chunk with a vector is in the new generation as it was. If the model or the dimension is
another one, it is asked for the texts of all chunks of the new generation. A build that succeeds
reports what was asked for, and stores the chunks. -/
theorem Run.asks_for_missing {S : Scope} {w : Workspace} {p : Project} (h : Run S w p)
    {g : Generation} (hg : (Project.started w p).2.current = some g) {earlier : Store}
    (hearlier : g.reader (Project.seen w p) "failed to prepare query" "files" = .ok earlier)
    {m : EmbeddingModel} (hm : p.model = some m) {o : BuildOptions} {hints : Option (List Path)}
    {q : Prepared} {asked : List String}
    (hprepare : Project.prepare (Project.seen w p) (p.context S.parse) o (.incremental hints)
      (some { facts := g.facts, store := earlier }) = .ok (q, asked)) :
    ∃ plan,
      let t := Project.seen w p
      let x := p.context S.parse
      let b : BuildBase := { facts := g.facts, store := earlier }
      let old := x.oldChunks t o b plan
      let new := x.newChunks t o b plan
      ReadPlan.make t x.root (x.walk o (some b)) (some b.records.keys) hints = .ok plan ∧
      q.rebuilt = (x.newFiles t o b plan).length ∧
      (q.chunks.map Chunk.bare).Perm ((old ++ new).map Chunk.bare) ∧
      (g.facts.model = some m.name → 0 < g.facts.dimension → g.facts.dimension ≤ m.dimension →
        asked.Perm ((old.filter (·.embedding.isNone) ++ new).map Chunk.embeddingText) ∧
          (old.filter (·.embedding.isSome)).Subperm q.chunks) ∧
      (0 < q.dimension → g.facts.model ≠ some m.name ∨ g.facts.dimension ≠ q.dimension →
        asked = q.chunks.map Chunk.embeddingText) ∧
      (0 < q.dimension → ∃ slots,
        m.embedTexts q.dimension p.settings.embedding.batchSize asked = some slots) ∧
      ∀ built, (Project.build w p S.parse (.incremental hints) o).answer = .ok built →
        built.asked = asked ∧
          ∀ s, (Project.build w p S.parse (.incremental hints) o).Yields s → s.chunks = q.chunks := by
  have hb : Keyed earlier.files earlier.chunks := h.keyed hg hearlier
  have hprepares := (h.invariant S.preserves_spelled).prepares
  obtain ⟨plan, hplan, hapart, r, hr, hq, hbare, -, hasked⟩ :=
    Project.prepare_planned hprepares.wellFormed hm hprepare
  have hdimension : q.dimension = r.dimension := by rw [hq]
  -- vectors are kept exactly if the model and the dimension are those that are recorded
  have hkeeps := BuildContext.keepsVectors_iff (x := p.context S.parse)
    (b := { facts := g.facts, store := earlier }) hm r.dimension
  refine ⟨plan, hplan, ?_, ?_, fun hname hpos hle => ?_, fun hpos hother => ?_, fun hpos => ?_,
    fun built hok => Project.asked_of_build hprepares hg hearlier hprepare hok⟩
  · rw [hq, hr]
    exact BuildContext.rebuilt_ofSorting
  · rw [hbare, hr]
    exact BuildContext.perm_map_bare_ofSorting hb hapart
  · have hsame : g.facts.dimension = r.dimension := by
      rw [hr, BuildContext.dimension_ofSorting_of_recorded hpos, BuildContext.nativeDimension_eq hm]
      exact (Nat.min_eq_left hle).symm
    obtain ⟨hmissing, slots, -, hattached⟩ := hasked (hsame ▸ hpos)
    have hkept := hkeeps.mpr ⟨hname, hsame⟩
    rw [hmissing, hattached]
    rw [hr] at hkept ⊢
    exact ⟨BuildContext.perm_missingTexts_of_keeps hb hapart hkept,
      BuildContext.subperm_attach_of_keeps hb hapart hkept slots⟩
  · have hdrops : (p.context S.parse).keepsVectors { facts := g.facts, store := earlier }
        r.dimension = false := by
      rw [← Bool.not_eq_true, hkeeps, ← hdimension]
      rintro ⟨hname, hsame⟩
      exact hother.elim (fun hne => hne hname) fun hne => hne hsame
    obtain ⟨hmissing, -⟩ := hasked (hdimension ▸ hpos)
    calc asked = r.chunks.map Chunk.embeddingText := by
          rw [hmissing]
          rw [hr] at hdrops ⊢
          exact BuildContext.missingTexts_of_drops hb hapart hdrops
      _ = q.chunks.map Chunk.embeddingText := by
          rw [← Chunk.map_embeddingText_bare, ← hbare, Chunk.map_embeddingText_bare]
  · obtain ⟨-, slots, hslots, -⟩ := hasked (hdimension ▸ hpos)
    exact ⟨slots, hdimension ▸ hslots⟩

namespace Project

-- only the kernel is to compute the small project
attribute [local irreducible] smallEmbedded

/-- The small project after a build with a model, with a second file. -/
def smallExtended : Workspace :=
  { smallEmbedded.workspace with
    tree := smallEmbedded.workspace.tree.set (["p"] ++ ["b.md"]) (.file "two\n".toUTF8) }

/-- The handle on it, with a model. -/
def smallWith (m : EmbeddingModel) : Project := { smallEmbedded.project with model := some m }

theorem run_smallExtended (m : EmbeddingModel) : Run .small smallExtended (smallWith m) := by
  have hnone : (smallEmbedded.workspace.tree.item? (["p"] ++ ["b.md"])).isNone = true := by
    decide +kernel
  refine Run.change (run_smallEmbedded.write (by decide +kernel) (by decide) (fun item hitem => ?_)
    rfl (by decide) (by decide)) run_smallEmbedded.inOrder.handle
  rw [hitem] at hnone
  cases hnone

/-- What a sync of the second file starts from, how many texts it asks for, and how many chunks there
are then. -/
def smallAsked (m : EmbeddingModel) : Option ((Option String × Nat) × Nat × Nat × Nat) :=
  (started smallExtended (smallWith m)).2.current.bind fun g =>
    (g.reader (seen smallExtended (smallWith m)) "failed to prepare query" "files").toOption.bind
      fun earlier =>
        (prepare (seen smallExtended (smallWith m)) ((smallWith m).context Scope.small.parse) {}
          (.incremental (some [⟨"b.md"⟩]))
          (some { facts := g.facts, store := earlier })).toOption.map fun made =>
            ((g.facts.model, g.facts.dimension), made.1.dimension, made.2.length,
              made.1.chunks.length)

theorem of_smallAsked {m : EmbeddingModel} {name : Option String} {before after texts chunks : Nat}
    (h : smallAsked m = some ((name, before), after, texts, chunks)) :
    ∃ (g : Generation) (earlier : Store) (q : Prepared) (asked : List String),
      (started smallExtended (smallWith m)).2.current = some g ∧
      g.reader (seen smallExtended (smallWith m)) "failed to prepare query" "files" = .ok earlier ∧
      prepare (seen smallExtended (smallWith m)) ((smallWith m).context Scope.small.parse) {}
        (.incremental (some [⟨"b.md"⟩])) (some { facts := g.facts, store := earlier }) =
          .ok (q, asked) ∧
      g.facts.model = name ∧ g.facts.dimension = before ∧ q.dimension = after ∧
      asked.length = texts ∧ q.chunks.length = chunks := by
  obtain ⟨g, hg, h⟩ := Option.bind_eq_some_iff.mp h
  obtain ⟨earlier, hearlier, h⟩ := Option.bind_eq_some_iff.mp h
  obtain ⟨⟨q, asked⟩, hprepare, h⟩ := Option.map_eq_some_iff.mp h
  simp only [Prod.mk.injEq] at h
  obtain ⟨⟨hname, hbefore⟩, hafter, htexts, hchunks⟩ := h
  exact ⟨g, earlier, q, asked, hg, Except.eq_ok_of_toOption hearlier,
    Except.eq_ok_of_toOption hprepare, hname, hbefore, hafter, htexts, hchunks⟩

/-- A model of another name. -/
def otherModel : EmbeddingModel := { constantModel with name := "other" }

end Project

/-- With the recorded model a sync of the extended project asks for the text of the new chunk alone, and
the old one keeps its vector; with another model it asks for both. -/
theorem Run.asks_smallExtended :
    (∃ (q : Prepared) (asked : List String) (old new : List Chunk),
      asked.length = 1 ∧ q.chunks.length = 2 ∧
      (q.chunks.map Chunk.bare).Perm ((old ++ new).map Chunk.bare) ∧
      asked.Perm ((old.filter (·.embedding.isNone) ++ new).map Chunk.embeddingText) ∧
      (old.filter (·.embedding.isSome)).Subperm q.chunks) ∧
    ∃ (q : Prepared) (asked : List String),
      asked.length = 2 ∧ asked = q.chunks.map Chunk.embeddingText := by
  have hsame : Project.smallAsked Project.constantModel =
      some ((some "constant", 1), 1, 1, 2) := by decide +kernel
  have hother : Project.smallAsked Project.otherModel =
      some ((some "constant", 1), 1, 2, 2) := by decide +kernel
  constructor
  · obtain ⟨g, earlier, q, asked, hg, hearlier, hprepare, hname, hbefore, -, htexts, hchunks⟩ :=
      Project.of_smallAsked hsame
    obtain ⟨plan, -, -, hperm, hkept, -⟩ := Run.asks_for_missing (Project.run_smallExtended _) hg
      hearlier rfl hprepare
    obtain ⟨hasked, hold⟩ := hkept hname (by rw [hbefore]; decide) (by rw [hbefore]; decide)
    exact ⟨q, asked, _, _, htexts, hchunks, hperm, hasked, hold⟩
  · obtain ⟨g, earlier, q, asked, hg, hearlier, hprepare, hname, -, hafter, htexts, -⟩ :=
      Project.of_smallAsked hother
    obtain ⟨plan, -, -, -, -, hall, -⟩ := Run.asks_for_missing (Project.run_smallExtended _) hg
      hearlier rfl hprepare
    refine ⟨q, asked, htexts, hall (by rw [hafter]; decide) (.inl ?_)⟩
    rw [hname]
    decide

end SourceIndex
