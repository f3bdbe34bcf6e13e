import Mathlib
import SourceIndex.Proofs.Generation.Number
import SourceIndex.Proofs.Project.Agreement

/-! # Answers after a build

A handle that holds the generation which the pointer names answers from it (`Project.ask_eq`). So
whether a build is really in use afterwards comes down to the file of its generation, and that is
there unless the handle held a generation with the same number before: then the file is taken for
that of the old generation and goes away with it (`Project.build_serves_iff`).
-/

set_option autoImplicit false

namespace SourceIndex

open IndexDirectory

/-- A generation but for the token that tells its openings apart. -/
def Generation.untold (g : Generation) : Generation := { g with token := 0 }

theorem Generation.untold_eq_iff {g g' : Generation} :
    g.untold = g'.untold ↔ g.id = g'.id ∧ g.path = g'.path ∧ g.facts = g'.facts := by
  simp [untold]

-- names of files are not to be computed
attribute [local irreducible] nameOf journalName removeStore Project.buildLocked

namespace Project

variable {home : List String} {w : Workspace} {p : Project} {parse : Chunk.Parse}
  {mode : BuildMode} {o : BuildOptions} {id : Nat} {store : Store} {built : Built}

/-! ## Questions -/

/-- A handle that holds the generation in use looks no further. -/
theorem refresh_eq_self {g : Generation} (hcurrent : p.current = some g)
    (hpointer : p.directory.readCurrent w.tree = .ok (some g.id)) : p.refresh w = (w, p) := by
  rw [refresh, hpointer, hcurrent]
  simp

/-- A handle that holds the generation in use once it has looked for a newer one answers from it;
asking twice makes no difference. -/
theorem ask_of_refresh {α : Type} {g : Generation} (hcurrent : (p.refresh w).2.current = some g)
    (hpointer : p.directory.readCurrent w.tree = .ok (some g.id))
    (question : Workspace → Project → Generation → Except Fault α) :
    ask w p question = { workspace := (p.refresh w).1, project := (p.refresh w).2,
                         answer := question (p.refresh w).1 (p.refresh w).2 g } := by
  have hself : (p.refresh w).2.refresh (p.refresh w).1 = p.refresh w := by
    refine refresh_eq_self hcurrent ?_
    rw [refresh_directory, refresh_tree]
    exact hpointer
  unfold ask
  generalize p.refresh w = r at hcurrent hself ⊢
  dsimp only
  simp only [hcurrent, hself]
  cases question r.1 r.2 g with
  | ok a => rfl
  | error f =>
      dsimp only
      split <;> rfl

/-- A handle that already holds the generation in use answers from it. -/
theorem ask_eq {α : Type} {g : Generation} (hcurrent : p.current = some g)
    (hpointer : p.directory.readCurrent w.tree = .ok (some g.id))
    (question : Workspace → Project → Generation → Except Fault α) :
    ask w p question = { workspace := w, project := p, answer := question w p g } := by
  have hself := refresh_eq_self hcurrent hpointer
  have hask := ask_of_refresh (w := w) (p := p) (g := g) (by rw [hself]; exact hcurrent) hpointer
    question
  rw [hself] at hask
  exact hask

/-- What the generation with a number says is what the handle answers: the pointer names it, its
file is there, and questions are answered from the store in the file. -/
structure Serves (home : List String) (w : Workspace) (p : Project) (id : Nat) : Prop where
  pointer : p.directory.readCurrent w.tree = .ok (some id)
  file : (w.tree.item? (home ++ [nameOf id])).isSome = true
  statistics : ∃ numbers, (Project.statistics w p).answer = .ok numbers ∧ numbers.generation = id
  search : ∃ facts store, ∀ r, (Project.search w p r).answer =
    Search.run { settings := p.settings, model := p.model, source := source w p } id facts
      (.ok store) r

/-- A handle serves the generation that it holds if the file has a store. -/
theorem serves_of_reader {g : Generation} (hcurrent : p.current = some g)
    (hpointer : p.directory.readCurrent w.tree = .ok (some g.id))
    (hlies : p.directory.LiesAt w.tree home) (hpath : g.path = p.directory.fileFor g.id)
    (hstore : w.tree.item? (home ++ [nameOf g.id]) = some (.index store)) :
    Serves home w p g.id := by
  have hread : ∀ purpose table, g.reader w.tree purpose table = .ok store := by
    intro purpose table
    rw [Generation.reader, hpath]
    exact (hlies.openStore_entry (isName_nameOf g.id)).mpr hstore
  refine ⟨hpointer, by rw [hstore]; rfl, ?_, g.facts, store, fun r => ?_⟩
  · rw [Project.statistics, ask_eq hcurrent hpointer]
    simp only [statisticsIn, hread]
    exact ⟨_, rfl, rfl⟩
  · rw [Project.search, ask_eq hcurrent hpointer]
    simp only [searchIn, hread, ite_self]

/-- Without its file the generation that a handle holds says nothing. -/
theorem statistics_error {g : Generation} (hcurrent : p.current = some g)
    (hpointer : p.directory.readCurrent w.tree = .ok (some g.id))
    (hlies : p.directory.LiesAt w.tree home) (hpath : g.path = p.directory.fileFor g.id)
    (hgone : ∀ store, w.tree.item? (home ++ [nameOf g.id]) ≠ some (.index store)) :
    ∃ f, (Project.statistics w p).answer = .error f := by
  rw [Project.statistics, ask_eq hcurrent hpointer]
  simp only [statisticsIn]
  cases hread : g.reader w.tree "failed to count rows" "chunks" with
  | error f => exact ⟨f, rfl⟩
  | ok store =>
      rw [Generation.reader, hpath] at hread
      exact absurd ((hlies.openStore_entry (isName_nameOf g.id)).mp hread) (hgone store)

/-! ## The same answers -/

/-- What a handle sees of an index is the same: the pointer, the files of the generations, and the
generation that it holds, if that was opened once or twice. -/
structure Alike (home : List String) (w w' : Workspace) (p p' : Project) : Prop where
  lies : p.directory.LiesAt w.tree home
  lies' : p.directory.LiesAt w'.tree home
  pointer : w'.tree.item? (home ++ [currentName]) = w.tree.item? (home ++ [currentName])
  file : ∀ id, w'.tree.item? (home ++ [nameOf id]) = w.tree.item? (home ++ [nameOf id])
  path : ∀ g, p.current = some g → g.path = p.directory.fileFor g.id
  handle : ∃ current, p' = { p with current } ∧
    current.map Generation.untold = p.current.map Generation.untold

namespace Alike

variable {w' : Workspace} {p' : Project}

theorem readCurrent_eq (h : Alike home w w' p p') :
    p'.directory.readCurrent w'.tree = p.directory.readCurrent w.tree := by
  obtain ⟨current, rfl, -⟩ := h.handle
  exact h.lies.readCurrent_congr h.lies' h.pointer

/-- What can be opened here can be opened there. -/
theorem openGeneration (h : Alike home w w' p p') {w₁ : Workspace} {g : Generation}
    (hopen : w.openGeneration id (p.directory.fileFor id) = .ok (w₁, g)) :
    ∃ w₂ g', w'.openGeneration id (p'.directory.fileFor id) = .ok (w₂, g') ∧ w₁.tree = w.tree ∧
      w₂.tree = w'.tree ∧ g'.untold = g.untold ∧ g.path = p.directory.fileFor g.id := by
  obtain ⟨current, rfl, -⟩ := h.handle
  obtain ⟨hopened, rfl⟩ := (Workspace.openGeneration_ok_iff _ _ _ _ _).mp hopen
  obtain ⟨store, hstore, hfacts, hschema, hg⟩ := (Generation.openAt_ok_iff h.lies _ _).mp hopened
  refine ⟨_, { token := w'.nextToken, id, path := p.directory.fileFor id, facts := g.facts },
    (Workspace.openGeneration_ok_iff _ _ _ _ _).mpr ⟨?_, rfl⟩, rfl, rfl, ?_, ?_⟩
  · exact (Generation.openAt_ok_iff h.lies' _ _).mpr
      ⟨store, (h.file id).trans hstore, hfacts, hschema, rfl⟩
  · rw [hg]
    rfl
  · rw [hg]

theorem symm (h : Alike home w w' p p') : Alike home w' w p' p := by
  obtain ⟨current, rfl, hsame⟩ := h.handle
  refine ⟨h.lies', h.lies, h.pointer.symm, fun id => (h.file id).symm, fun g hg => ?_,
    p.current, rfl, hsame.symm⟩
  obtain rfl : current = some g := hg
  obtain ⟨g', hg', huntold⟩ := Option.map_eq_some_iff.mp hsame.symm
  obtain ⟨hid, hpath, -⟩ := Generation.untold_eq_iff.mp huntold
  rw [← hid, ← hpath]
  exact h.path g' hg'

/-- The generations that the handles hold have the same number. -/
theorem current_id (h : Alike home w w' p p') :
    p'.current.map Generation.id = p.current.map Generation.id := by
  obtain ⟨current, rfl, hsame⟩ := h.handle
  have hids := congrArg (Option.map Generation.id) hsame
  rw [Option.map_map, Option.map_map] at hids
  exact hids

/-- Both handles hold what they did before, or one generation that both have opened. -/
theorem of_current (h : Alike home w w' p p') {w₁ w₂ : Workspace} (htree : w₁.tree = w.tree)
    (htree' : w₂.tree = w'.tree) {current current' : Option Generation}
    (hsame : current'.map Generation.untold = current.map Generation.untold)
    (hpath : ∀ g, current = some g → g.path = p.directory.fileFor g.id) :
    Alike home w₁ w₂ { p with current } { p' with current := current' } := by
  obtain ⟨_, rfl, -⟩ := h.handle
  refine ⟨?_, ?_, ?_, ?_, hpath, current', rfl, hsame⟩
  · exact htree ▸ h.lies
  · exact htree' ▸ h.lies'
  · rw [htree, htree']
    exact h.pointer
  · intro id
    rw [htree, htree']
    exact h.file id

theorem congr_tree (h : Alike home w w' p p') {w₁ w₂ : Workspace} (htree : w₁.tree = w.tree)
    (htree' : w₂.tree = w'.tree) : Alike home w₁ w₂ p p' := by
  obtain ⟨current, rfl, hsame⟩ := h.handle
  exact h.of_current htree htree' hsame h.path

/-- Both handles find the same generation in use. -/
theorem refresh (h : Alike home w w' p p') :
    Alike home (p.refresh w).1 (p'.refresh w').1 (p.refresh w).2 (p'.refresh w').2 := by
  have hread := h.readCurrent_eq
  have hids := h.current_id
  unfold Project.refresh
  rw [hread]
  split
  · exact h
  · exact h
  · rename_i id _
    rw [hids]
    split
    · exact h
    · cases hopen : w.openGeneration id (p.directory.fileFor id) with
      | error f =>
          cases hopen' : w'.openGeneration id (p'.directory.fileFor id) with
          | error f' => exact h
          | ok opened =>
              obtain ⟨_, _, hboth, -⟩ := h.symm.openGeneration hopen'
              rw [hopen] at hboth
              cases hboth
      | ok opened =>
          obtain ⟨w₁, g⟩ := opened
          obtain ⟨w₂, g', hopen', htree, htree', huntold, hpath⟩ := h.openGeneration hopen
          have hsome : (some g').map Generation.untold = (some g).map Generation.untold :=
            congrArg some huntold
          have hnew := h.of_current htree htree' hsome fun g₁ hg₁ => by
            obtain rfl := Option.some.inj hg₁
            exact hpath
          have hgid : g'.id = g.id := (Generation.untold_eq_iff.mp huntold).1
          simp only [hopen']
          cases hcurrent : p.current with
          | none =>
              rw [hcurrent] at hids
              have hcurrent' : p'.current = none := Option.map_eq_none_iff.mp hids
              simp only [hcurrent']
              exact hnew
          | some held =>
              rw [hcurrent] at hids
              obtain ⟨held', hcurrent', hheld⟩ := Option.map_eq_some_iff.mp hids
              simp only [hcurrent', hheld, hgid]
              split
              · exact h.congr_tree htree htree'
              · exact hnew

/-- The generations that the handles hold are the same but for their tokens. -/
theorem held (h : Alike home w w' p p') {g g' : Generation} (hg : p.current = some g)
    (hg' : p'.current = some g') :
    g'.id = g.id ∧ g'.path = g.path ∧ g'.facts = g.facts ∧ g.path = p.directory.fileFor g.id := by
  have hpath := h.path g hg
  obtain ⟨_, rfl, hsame⟩ := h.handle
  obtain rfl := hg'
  rw [hg] at hsame
  obtain ⟨hid, hpath', hfacts⟩ := Generation.untold_eq_iff.mp (Option.some.inj hsame)
  exact ⟨hid, hpath', hfacts, hpath⟩

theorem reader_eq (h : Alike home w w' p p') {g g' : Generation} (hg : p.current = some g)
    (hg' : p'.current = some g') (purpose table : String) :
    g'.reader w'.tree purpose table = g.reader w.tree purpose table := by
  obtain ⟨-, hsame, -, hpath⟩ := h.held hg hg'
  have hname := isName_nameOf g.id
  rw [Generation.reader, Generation.reader, hsame, hpath, fileFor, openStore, openStore,
    h.lies.locate_entry hname, h.lies'.locate_entry hname, h.file]
  cases hitem : w.tree.item? (home ++ [nameOf g.id]) with
  | none => rfl
  | some item => simp only [Option.isSome_some, if_true, hitem, h.file]

/-- Whether the file of a generation went away is the same. -/
theorem vanished_eq (h : Alike home w w' p p') {g g' : Generation} (hg : p.current = some g)
    (hg' : p'.current = some g') (f : Fault) : g'.vanished w'.tree f = g.vanished w.tree f := by
  obtain ⟨-, hsame, -, hpath⟩ := h.held hg hg'
  have hholds : w'.tree.holds g'.path = w.tree.holds g.path := by
    rw [hsame, hpath, fileFor, h.lies.holds_entry (isName_nameOf g.id),
      h.lies'.holds_entry (isName_nameOf g.id), h.file]
  unfold Generation.vanished
  split
  · rw [hholds]
  · rfl

theorem settings_eq (h : Alike home w w' p p') :
    p'.root = p.root ∧ p'.settings = p.settings ∧ p'.model = p.model := by
  obtain ⟨current, rfl, -⟩ := h.handle
  exact ⟨rfl, rfl, rfl⟩

/-- The numbers of an index are the same. -/
theorem statisticsIn_eq (h : Alike home w w' p p') {g g' : Generation} (hg : p.current = some g)
    (hg' : p'.current = some g') : statisticsIn w' p' g' = statisticsIn w p g := by
  obtain ⟨hid, -, hfacts, -⟩ := h.held hg hg'
  obtain ⟨hroot, -, hmodel⟩ := h.settings_eq
  unfold statisticsIn
  rw [h.reader_eq hg hg', hid, hfacts, hroot, hmodel]

/-- What a search gives is the same, if the sources are. -/
theorem searchIn_eq (h : Alike home w w' p p')
    (hsource : ∀ path, w'.tree.readText (p.root.join path) = w.tree.readText (p.root.join path))
    {g g' : Generation} (hg : p.current = some g) (hg' : p'.current = some g')
    (r : SearchRequest) : searchIn r w' p' g' = searchIn r w p g := by
  obtain ⟨hid, -, hfacts, -⟩ := h.held hg hg'
  obtain ⟨hroot, hsettings, hmodel⟩ := h.settings_eq
  have hsame : source w' p' = source w p := by
    funext path
    rw [source, source, hroot, hsource]
  unfold searchIn
  rw [h.reader_eq hg hg', h.reader_eq hg hg', hid, hfacts, hsettings, hmodel, hsame]

theorem trans {w'' : Workspace} {p'' : Project} (h : Alike home w w' p p')
    (h' : Alike home w' w'' p' p'') : Alike home w w'' p p'' := by
  obtain ⟨current', rfl, hsame'⟩ := h'.handle
  obtain ⟨current, rfl, hsame⟩ := h.handle
  exact ⟨h.lies, h'.lies', h'.pointer.trans h.pointer, fun id => (h'.file id).trans (h.file id),
    h.path, current', rfl, hsame'.trans hsame⟩

end Alike

/-- A handle is like itself. -/
theorem alike_refl (hlies : p.directory.LiesAt w.tree home)
    (hpath : ∀ g, p.current = some g → g.path = p.directory.fileFor g.id) :
    Alike home w w p p :=
  ⟨hlies, hlies, rfl, fun _ => rfl, hpath, p.current, rfl, rfl⟩

/-- A handle that has looked for a newer generation finds none when it looks again. -/
theorem alike_refresh (hlies : p.directory.LiesAt w.tree home)
    (hpath : ∀ g, p.current = some g → g.path = p.directory.fileFor g.id) :
    Alike home (p.refresh w).1 ((p.refresh w).2.refresh (p.refresh w).1).1 (p.refresh w).2
      ((p.refresh w).2.refresh (p.refresh w).1).2 := by
  obtain ⟨htree, hsame | ⟨g, w', hread, hopen, hnew⟩⟩ := refresh_spec w p
  · -- the handle is as it was, so it finds what it found
    have hagain := ((alike_refl hlies hpath).congr_tree rfl htree).refresh
    rw [← hsame] at hagain
    simpa only [hsame] using hagain
  · obtain ⟨-, -, hpathg⟩ := Workspace.opened_eq hopen
    have hself : (p.refresh w).2.refresh (p.refresh w).1 = p.refresh w := by
      refine refresh_eq_self (g := g) (by rw [hnew]) ?_
      rw [refresh_directory, htree]
      exact hread
    rw [hself]
    refine alike_refl ?_ fun g' hg' => ?_
    · rw [refresh_directory, htree]
      exact hlies
    · rw [hnew] at hg'
      obtain rfl := Option.some.inj hg'
      rw [refresh_directory]
      exact hpathg

/-! ## Questions to several handles -/

/-- Two handles hold the same generation once they have looked for a newer one. -/
structure Agree (home : List String) (w w' : Workspace) (p p' : Project) : Prop where
  path : ∀ g, p.current = some g → g.path = p.directory.fileFor g.id
  path' : ∀ g, p'.current = some g → g.path = p'.directory.fileFor g.id
  looked : Alike home (p.refresh w).1 (p'.refresh w').1 (p.refresh w).2 (p'.refresh w').2

theorem Alike.agree {w' : Workspace} {p' : Project} (h : Alike home w w' p p') :
    Agree home w w' p p' :=
  ⟨h.path, h.symm.path, h.refresh⟩

namespace Agree

variable {w' : Workspace} {p' : Project}

theorem lies (h : Agree home w w' p p') : p.directory.LiesAt w.tree home := by
  have hlies := h.looked.lies
  rwa [refresh_directory, refresh_tree] at hlies

theorem lies' (h : Agree home w w' p p') : p'.directory.LiesAt w'.tree home := by
  have hlies := h.looked.symm.lies
  rwa [refresh_directory, refresh_tree] at hlies

/-- What others open meanwhile makes no difference. -/
theorem congr_tree (h : Agree home w w' p p') {w₁ w₂ : Workspace} (htree : w₁.tree = w.tree)
    (htree' : w₂.tree = w'.tree) : Agree home w₁ w₂ p p' := by
  have hfirst := ((alike_refl h.lies h.path).congr_tree htree rfl).refresh
  have hlast := ((alike_refl h.lies' h.path').congr_tree rfl htree').refresh
  exact ⟨h.path, h.path', (hfirst.trans h.looked).trans hlast⟩

/-- A question that has the same answer when it is put to the same generation has the same answer
when it is put to the handles. -/
theorem ask {α : Type} (h : Agree home w w' p p')
    (question : Workspace → Project → Generation → Except Fault α)
    (hquestion : ∀ {w₁ w₂ p₁ p₂ g₁ g₂}, Alike home w₁ w₂ p₁ p₂ → w₁.tree = w.tree →
      w₂.tree = w'.tree → p₁.root = p.root → p₁.current = some g₁ → p₂.current = some g₂ →
      question w₂ p₂ g₂ = question w₁ p₁ g₁) :
    (Project.ask w' p' question).answer = (Project.ask w p question).answer ∧
      Alike home (Project.ask w p question).workspace (Project.ask w' p' question).workspace
        (Project.ask w p question).project (Project.ask w' p' question).project := by
  have hfirst := h.looked
  have htree := refresh_tree w p
  have htree' := refresh_tree w' p'
  have hroot := refresh_root w p
  unfold Project.ask
  generalize p.refresh w = r at hfirst htree hroot ⊢
  generalize p'.refresh w' = r' at hfirst htree' ⊢
  have hids := hfirst.current_id
  dsimp only
  cases hg : r.2.current with
  | none =>
      rw [hg] at hids
      simp only [Option.map_eq_none_iff.mp hids, hfirst.settings_eq.1]
      exact ⟨trivial, hfirst⟩
  | some g =>
      rw [hg] at hids
      obtain ⟨g', hg', -⟩ := Option.map_eq_some_iff.mp hids
      simp only [hg', hquestion hfirst htree htree' hroot hg hg']
      cases question r.1 r.2 g with
      | ok a => exact ⟨rfl, hfirst⟩
      | error f =>
          simp only [hfirst.vanished_eq hg hg']
          split
          · -- both handles look once more
            have hagain := hfirst.refresh
            have hretree := (refresh_tree r.1 r.2).trans htree
            have hretree' := (refresh_tree r'.1 r'.2).trans htree'
            have hreroot := (refresh_root r.1 r.2).trans hroot
            generalize r.2.refresh r.1 = again at hagain hretree hreroot ⊢
            generalize r'.2.refresh r'.1 = again' at hagain hretree' ⊢
            have hids := hagain.current_id
            cases hg : again.2.current with
            | none =>
                rw [hg] at hids
                simp only [Option.map_eq_none_iff.mp hids, hagain.settings_eq.1]
                exact ⟨trivial, hagain⟩
            | some g =>
                rw [hg] at hids
                obtain ⟨g', hg', -⟩ := Option.map_eq_some_iff.mp hids
                simp only [hg', hquestion hagain hretree hretree' hreroot hg hg']
                exact ⟨trivial, hagain⟩
          · exact ⟨rfl, hfirst⟩

end Agree

/-- What a handle may be asked. -/
inductive Query where
  | search (r : SearchRequest)
  | statistics

/-- What it replies. -/
inductive Reply where
  | search (answer : Except Fault SearchResponse)
  | statistics (answer : Except Fault ProjectStatistics)

/-- A question is put to a handle. -/
def Query.put (w : Workspace) (p : Project) : Query → Workspace × Project × Reply
  | .search r =>
    let step := Project.search w p r
    (step.workspace, step.project, .search step.answer)
  | .statistics =>
    let step := Project.statistics w p
    (step.workspace, step.project, .statistics step.answer)

/-- The replies to questions that are put to the handles on a project one after the other. -/
def replies : Workspace → (Nat → Project) → List (Nat × Query) → List Reply
  | _, _, [] => []
  | w, handles, (k, q) :: rest =>
    let (w, p, reply) := q.put w (handles k)
    reply :: replies w (Function.update handles k p) rest

/-- A handle that is asked something looks for a newer generation, once or twice. -/
theorem ask_refreshes {α : Type} (w : Workspace) (p : Project)
    (question : Workspace → Project → Generation → Except Fault α) :
    ((ask w p question).workspace, (ask w p question).project) = p.refresh w ∨
      ((ask w p question).workspace, (ask w p question).project) =
        (p.refresh w).2.refresh (p.refresh w).1 := by
  unfold ask
  generalize p.refresh w = r
  dsimp only
  cases r.2.current with
  | none => exact Or.inl rfl
  | some g =>
      dsimp only
      cases question r.1 r.2 g with
      | ok a => exact Or.inl rfl
      | error f =>
          dsimp only
          split
          · generalize r.2.refresh r.1 = again
            cases again.2.current with
            | none => exact Or.inr rfl
            | some g => exact Or.inr rfl
          · exact Or.inl rfl

theorem Query.put_refreshes (q : Query) (w : Workspace) (p : Project) :
    ((q.put w p).1, (q.put w p).2.1) = p.refresh w ∨
      ((q.put w p).1, (q.put w p).2.1) = (p.refresh w).2.refresh (p.refresh w).1 := by
  cases q with
  | search r => exact ask_refreshes w p _
  | statistics => exact ask_refreshes w p _

/-- Questions change no file. -/
theorem Query.put_spec (q : Query) (w : Workspace) (p : Project) :
    (q.put w p).1.tree = w.tree ∧ (q.put w p).2.1.root = p.root := by
  rcases q.put_refreshes w p with h | h
  · obtain ⟨hw, hp⟩ := Prod.mk.inj (h.trans (Prod.mk.eta).symm)
    rw [hw, hp]
    exact ⟨refresh_tree w p, refresh_root w p⟩
  · obtain ⟨hw, hp⟩ := Prod.mk.inj (h.trans (Prod.mk.eta).symm)
    rw [hw, hp]
    exact ⟨(refresh_tree _ _).trans (refresh_tree w p), (refresh_root _ _).trans (refresh_root w p)⟩

/-- Handles that agree reply the same, if the sources are the same. -/
theorem Agree.put {w' : Workspace} {p' : Project} (h : Agree home w w' p p')
    (hsource : ∀ path, w'.tree.readText (p.root.join path) = w.tree.readText (p.root.join path))
    (q : Query) :
    (q.put w' p').2.2 = (q.put w p).2.2 ∧
      Agree home (q.put w p).1 (q.put w' p').1 (q.put w p).2.1 (q.put w' p').2.1 := by
  cases q with
  | search r =>
      have hanswers := h.ask (searchIn r)
        fun halike htree htree' hroot hg hg' => halike.searchIn_eq (fun path => by
          rw [htree, htree', hroot]
          exact hsource path) hg hg' r
      exact ⟨congrArg Reply.search hanswers.1, hanswers.2.agree⟩
  | statistics =>
      have hanswers := h.ask statisticsIn
        fun halike _ _ _ hg hg' => halike.statisticsIn_eq hg hg'
      exact ⟨congrArg Reply.statistics hanswers.1, hanswers.2.agree⟩

/-- The same holds of any number of questions to any number of handles. -/
theorem replies_eq {w w' : Workspace} {handles handles' : Nat → Project}
    (h : ∀ k, Agree home w w' (handles k) (handles' k))
    (hsource : ∀ k path, w'.tree.readText ((handles k).root.join path) =
      w.tree.readText ((handles k).root.join path)) (questions : List (Nat × Query)) :
    replies w' handles' questions = replies w handles questions := by
  induction questions generalizing w w' handles handles' with
  | nil => rfl
  | cons first rest ih =>
      obtain ⟨k, q⟩ := first
      obtain ⟨hreply, hagree⟩ := (h k).put (hsource k) q
      obtain ⟨htree, hroot⟩ := q.put_spec w (handles k)
      obtain ⟨htree', -⟩ := q.put_spec w' (handles' k)
      simp only [replies, hreply]
      congr 1
      refine ih (fun j => ?_) fun j path => ?_
      · by_cases hj : j = k
        · subst hj
          rw [Function.update_self, Function.update_self]
          exact hagree
        · rw [Function.update_of_ne hj, Function.update_of_ne hj]
          exact (h j).congr_tree htree htree'
      · rw [htree, htree']
        by_cases hj : j = k
        · subst hj
          rw [Function.update_self, hroot]
          exact hsource j path
        · rw [Function.update_of_ne hj]
          exact hsource j path

/-! ## After a build -/

/-- The report of a build has the number of its generation. -/
theorem Makes.generation (h : Makes home w p parse mode o id store built) :
    built.report.generation = id := by
  obtain ⟨base, -, hdraft⟩ := h.drafted
  obtain ⟨q, asked, -, -, -, rfl⟩ := draft_ok_iff_prepare.mp hdraft
  rfl

/-- Once the pointer is set and the generation before is gone, the pointer has the new number. -/
theorem Makes.item?_pointer (h : Makes home w p parse mode o id store built)
    (hwf : w.tree.WellFormed) (hlies : p.directory.LiesAt w.tree home)
    (hpath : ∀ g, p.current = some g → g.path = p.directory.fileFor g.id) {t : FileTree}
    (ht : p.directory.writeCurrent (stored home w.tree id store) id = (t, .ok ())) :
    (retired (openedIn w t) p.current).tree.item? (home ++ [currentName]) =
      some (LiesAt.pointerTo id) := by
  obtain ⟨hwf', hlies'⟩ := h.edits.wellFormed hwf hlies
  have hpointed := h.edits_pointed hwf hlies ht
  obtain ⟨hwf'', hlies''⟩ := hpointed.wellFormed hwf' hlies'
  have hitem : t.item? (home ++ [currentName]) = some (LiesAt.pointerTo id) := by
    rw [hlies'.writeCurrent_eq hwf' id] at ht
    split at ht
    · exact nomatch (Prod.mk.inj ht).2
    · dsimp only at ht
      split at ht
      · exact nomatch (Prod.mk.inj ht).2
      · rw [← (Prod.mk.inj ht).1]
        exact FileTree.item?_set_self _ (by simp) _
  have hretired : Edits home _ t (retired (openedIn w t) p.current).tree :=
    edits_retired (w := openedIn w t) hlies'' hwf'' hpath
  rcases hretired.item? hwf'' hlies'' currentName with hsame | ⟨g, -, hname | hname, -⟩
  · exact hsame.trans hitem
  · exact absurd hname.symm (nameOf_ne_pointer g.id).1
  · exact absurd hname.symm (journalName_ne_pointer g.id).1

/-- A build under the lock that succeeds is in use exactly if its number is not that of a generation
which the handle held before and nobody reads. The pointer is set in any case. -/
theorem Ends.serves_iff {step : Step Built} (h : Ends home w p parse mode o step)
    (hwf : w.tree.WellFormed) (hlies : p.directory.LiesAt w.tree home)
    (hpath : ∀ g, p.current = some g → g.path = p.directory.fileFor g.id)
    (hok : step.answer = .ok built) {w' : Workspace} (htree : w'.tree = step.workspace.tree) :
    p.directory.readCurrent w'.tree = .ok (some built.report.generation) ∧
      (Serves home w' step.project built.report.generation ↔
        ∀ previous, p.current = some previous → previous.id = built.report.generation →
          w.isHeld previous = true) := by
  cases h with
  | unwritten _ => cases hok
  | removed _ _ => cases hok
  | @done id store built' t facts hmakes hfacts hpointer =>
      obtain rfl := Except.ok.inj hok
      obtain ⟨hwf', hlies'⟩ := hmakes.edits.wellFormed hwf hlies
      have hedits := hmakes.edits_done hwf hlies hpath hpointer
      have hdone := (hedits.wellFormed hwf' hlies').2
      have hread := hdone.readCurrent_eq (hlies.nextId_spec hwf hmakes.next).1
        (hmakes.item?_pointer hwf hlies hpath hpointer)
      have hkept := hmakes.item?_done_iff hwf hlies hpath hpointer
      simp only [nameOf_inj] at hkept
      rw [← htree] at hdone hread hkept
      rw [hmakes.generation]
      refine ⟨hread, ?_⟩
      rw [← hkept]
      constructor
      · intro hserves
        by_contra hgone
        -- the file went away with that of the old generation
        obtain ⟨numbers, hnumbers, -⟩ := hserves.statistics
        have hgone' : ∀ other, w'.tree.item? (home ++ [nameOf id]) ≠ some (.index other) := by
          intro other hother
          rw [htree] at hother
          have hold := hedits.storesFrom (fun _ _ hmay => hmay) hwf' hlies' _ other hother
          rw [item?_stored] at hold
          cases hold
          rw [← htree] at hother
          exact hgone hother
        obtain ⟨f, hf⟩ := statistics_error (p := { p with current := some (opened w p id facts) })
          rfl hread hdone rfl hgone'
        rw [hnumbers] at hf
        cases hf
      · exact fun hitem => serves_of_reader (g := opened w p id facts) rfl hread hdone rfl hitem

/-- A build that succeeds has set the pointer to its generation, and that generation is in use
exactly if its number is not that of a generation which the handle held before and nobody reads.

The number is larger than any that is found in the directory. It is that of a generation which the
handle holds only if the files of the directory went away since that was opened. -/
theorem build_serves_iff (h : Prepares home w p) (hok : (build w p parse mode o).answer = .ok built) :
    p.directory.readCurrent (build w p parse mode o).workspace.tree =
        .ok (some built.report.generation) ∧
      (Serves home (build w p parse mode o).workspace (build w p parse mode o).project
          built.report.generation ↔
        ∀ previous, (started w p).2.current = some previous →
          previous.id = built.report.generation → (started w p).1.isHeld previous = true) := by
  obtain ⟨hwf, hlies, hpath, hends⟩ := h.ends parse mode o
  have hfree := lock_of_build_ok hok
  rw [build_of_locked hfree] at hok ⊢
  have hserves := hends.serves_iff hwf hlies hpath hok (Workspace.unlock_tree _ p.directory)
  rw [started_directory] at hserves
  exact hserves

/-- The first build of the small project is in use. -/
theorem serves_smallBuilt : ∃ built, smallBuilt.answer = .ok built ∧
    Serves Scope.small.home smallBuilt.workspace smallBuilt.project built.report.generation := by
  have hok : (build smallOpened.1 small Scope.small.parse .full {}).answer.isOk = true := by
    decide +kernel
  obtain ⟨built, hbuilt⟩ := Except.exists_of_isOk hok
  have hnone : (started smallOpened.1 small).2.current.isNone = true := by decide +kernel
  refine ⟨built, hbuilt, ?_⟩
  refine (build_serves_iff (Run.small rfl rfl).inOrder.prepares hbuilt).2.mpr fun previous hprevious => ?_
  rw [hprevious] at hnone
  cases hnone

/-! ## A directory that was emptied -/

/-- The small project after its first build, with the pointer and the generation removed by
others. -/
def smallEmptied : Workspace :=
  { smallBuilt.workspace with
    tree := (smallBuilt.workspace.tree.remove (Scope.small.home ++ [currentName])).remove
      (Scope.small.home ++ [nameOf 1]) }

theorem run_smallEmptied : Run .small smallEmptied smallBuilt.project := by
  have horder := run_smallBuilt.inOrder
  have hedits : Edits Scope.small.home (fun _ file => file = none) smallBuilt.workspace.tree
      smallEmptied.tree :=
    .remove (.remove .refl (by decide +kernel) rfl) (by decide +kernel) rfl
  obtain ⟨hwf, hlies⟩ := hedits.wellFormed horder.wellFormed horder.lies
  refine run_smallBuilt.elsewhere hwf hlies ?_
  refine hedits.storesFrom (fun _ _ hnone store hstore => ?_) horder.wellFormed horder.lies
  rw [hnone] at hstore
  cases hstore

/-- The handle still holds the generation that is gone. A new build gets the same number, and the
file of the new generation goes away with the old one. -/
theorem not_serves_smallEmptied : Prepares Scope.small.home smallEmptied smallBuilt.project ∧
    ∃ built, (build smallEmptied smallBuilt.project Scope.small.parse .full {}).answer = .ok built ∧
      ¬ Serves Scope.small.home
        (build smallEmptied smallBuilt.project Scope.small.parse .full {}).workspace
        (build smallEmptied smallBuilt.project Scope.small.parse .full {}).project
        built.report.generation := by
  have hbuilt : (build smallEmptied smallBuilt.project Scope.small.parse .full {}).answer.toOption.map
      (fun built => ((build smallEmptied smallBuilt.project Scope.small.parse
        .full {}).workspace.tree.item?
          (Scope.small.home ++ [nameOf built.report.generation])).isSome) = some false := by
    decide +kernel
  obtain ⟨built, hok, hgone⟩ := Option.map_eq_some_iff.mp hbuilt
  refine ⟨run_smallEmptied.inOrder.prepares, built, Except.eq_ok_of_toOption hok, fun hserves => ?_⟩
  rw [hserves.file] at hgone
  cases hgone

end Project

end SourceIndex
