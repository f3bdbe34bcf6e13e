import Mathlib
import SourceIndex.Proofs.Build.Share
import SourceIndex.Proofs.Chunk.Ids
import SourceIndex.Proofs.Project.Failure

/-! # Recovery

Whatever an index directory holds, a project can be opened on it. If nobody else builds and the
sources can be read, then a full build succeeds and is in use exactly if the pointer is missing or
has a number, of any generation, and no directory has a name that the build needs
(`Project.rebuild_serves_iff`). A pointer that cannot be read is never replaced: opening the project
and asking for an index pass over it, but every build fails with it
(`Project.not_serves_smallGarbage`).
-/

set_option autoImplicit false

namespace SourceIndex

open IndexDirectory

-- names of files are not to be computed
attribute [local irreducible] nameOf journalName removeStore Project.buildLocked

/-! ## What a full build reads -/

namespace BuildContext

variable {t : FileTree} {x : BuildContext} {o : BuildOptions} {listed : List Path}

/-- The files that a full build cuts. -/
def fullCuts (x : BuildContext) (t : FileTree) (o : BuildOptions) (listed : List Path) :
    List CutFile :=
  x.newCuts o none (x.sorting t o none ⟨listed, .empty⟩)

/-- A full build can read the tree: files can be listed, every file that is listed can be read, and
ids tell apart what is cut from different files or begins on different lines. -/
structure Reads (x : BuildContext) (t : FileTree) (o : BuildOptions) (listed : List Path) : Prop where
  files : Listing.files t x.root (x.walk o none) = .ok listed
  legible : Listing.Legible t x.root (x.walk o none)
  apart : ∀ c ∈ (x.fullCuts t o listed).flatMap CutFile.chunks,
    ∀ e ∈ (x.fullCuts t o listed).flatMap CutFile.chunks,
      c.id = e.id → c.path = e.path ∧ c.startLine = e.startLine

theorem Reads.nodup_ids (h : x.Reads t o listed)
    (hready : x.Ready t o none Set.univ ⟨listed, .empty⟩) :
    ((Prepared.ofSorting x o none (x.sorting t o none ⟨listed, .empty⟩)).chunks.map
      Chunk.id).Nodup := by
  obtain ⟨hnodup, hfresh, hcuts⟩ := hready.newCuts_spec
  rw [Prepared.chunks_ofSorting]
  refine CutFile.nodup_ids hnodup (fun c hc => (hfresh c hc).path_eq) (fun c hc => ?_)
    fun d hd e he hsame => (h.apart d hd e he hsame).1
  have hmem : ∀ d ∈ c.chunks, d ∈ (x.fullCuts t o listed).flatMap CutFile.chunks :=
    fun d hd => List.mem_flatMap.mpr ⟨c, hc, hd⟩
  obtain ⟨p, -, file, -, rfl⟩ := (hcuts c).mp hc
  exact Chunk.nodup_ids_ofFile fun d hd e he hsame => (h.apart d (hmem d hd) e (hmem e he) hsame).2

end BuildContext

theorem Settings.share_of_check {s : Settings} (h : s.check = .ok ()) :
    0.0 ≤ s.index.failureThreshold := by
  by_contra hshare
  unfold check at h
  dsimp only at h
  rw [decide_eq_false hshare] at h
  split at h
  · obtain ⟨_, hthrow, -⟩ := bind_ok_iff.mp h
    cases hthrow
  · obtain ⟨_, hthrow, -⟩ := bind_ok_iff.mp h
    cases hthrow

namespace Project

variable {t : FileTree} {x : BuildContext} {o : BuildOptions} {listed : List Path}

/-- What can be read can be drafted. -/
theorem draft_isOk_of_reads (hwf : t.WellFormed) (h : x.Reads t o listed)
    (hsettings : x.settings.check = .ok ()) (hstop : o.stop = none)
    (hmodel : ∀ m, x.model = some m → m.Replies) (id : Nat) :
    ∃ store built, draft t x o .full none id = .ok (store, built) := by
  have hdraftable : Draftable Set.univ t x .full none := {
    wellFormed := hwf
    fresh := fun b hb => by cases hb
    within := fun _ _ _ _ => trivial
    inj := fun b hb => by cases hb
    hints := fun hs hhs => by cases hhs }
  have hplan : ReadPlan.make t x.root (x.walk o none) ((none.map BuildBase.records).map PathMap.keys)
      (hintsFor .full none) = .ok ⟨listed, .empty⟩ :=
    ReadPlan.make_unhinted_iff.mpr ⟨listed, h.files, rfl⟩
  refine (draft_isOk_iff hdraftable hstop hmodel id).mpr ⟨_, hplan, ?_, ?_⟩
  · exact Sorting.exceeds_of_failed_eq_zero (failed_of_legible h.files h.legible)
      (Settings.share_of_check hsettings) _
  · exact h.nodup_ids (hdraftable.ready hplan)

/-! ## Opening a project -/

/-- Opening a project makes the lock file, and takes files of generations away. -/
def mayOpen (name : String) (file : Option FileItem) : Prop :=
  mayLock name file ∨ ∃ id, mayRemove id name file

/-- A project was opened in a tree, while nobody built: the lock is free again, and the handle holds
the generation in use, if any. -/
structure OpenedIn (home : List String) (tree : FileTree) (w : Workspace) (p : Project) : Prop where
  wellFormed : w.tree.WellFormed
  lies : p.directory.LiesAt w.tree home
  edits : Edits home mayOpen tree w.tree
  free : (w.lock p.directory).2 = .ok true
  seen_eq : seen w p = w.tree
  held : ∀ g, p.current = some g →
    g.path = p.directory.fileFor g.id ∧ p.directory.readCurrent w.tree = .ok (some g.id)

variable {home names : List String} {w w' : Workspace} {p : Project} {tree : FileTree}
  {root : Path} {settings : Settings} {model : Option EmbeddingModel} {parse : Chunk.Parse}
  {mode : BuildMode} {d : IndexDirectory}

/-- A project can be opened where its root is, if there is a place for its index. -/
theorem openAt_isOk (hroot : w.tree.locate root = .ok names)
    (hd : d = ⟨settings.dataDirectory (FileTree.pathOf names)⟩)
    (hmade : w.tree.makeDirectory d.path = .ok tree) (model : Option EmbeddingModel) :
    ∃ w' p, openAt w root settings model = (w', .ok p) ∧ p.directory = d ∧
      ∀ parse, p.context parse = { root := FileTree.pathOf names, settings, model, parse } := by
  subst hd
  rw [openAt, hroot]
  dsimp only
  rw [hmade]
  exact ⟨_, _, rfl, rfl, fun _ => rfl⟩

theorem readCurrent_of_edits {t t' : FileTree} (hedits : Edits home mayOpen t t')
    (hwf : t.WellFormed) (hlies : d.LiesAt t home) : d.readCurrent t' = d.readCurrent t := by
  refine hlies.readCurrent_congr (hedits.wellFormed hwf hlies).2 ?_
  rcases hedits.item? hwf hlies currentName with hsame | ⟨hname, -⟩ | ⟨id, hname | hname, -⟩
  · exact hsame
  · exact absurd hname (by decide)
  · exact absurd hname.symm (nameOf_ne_pointer id).1
  · exact absurd hname.symm (journalName_ne_pointer id).1

theorem openedIn_of_openAt (hopen : openAt w root settings model = (w', .ok p))
    (hmade : w.tree.makeDirectory p.directory.path = .ok tree) (hwf : tree.WellFormed)
    (hlies : p.directory.LiesAt tree home)
    (hfree : ({ w with tree }.lock p.directory).2 = .ok true) : OpenedIn home tree w' p := by
  obtain ⟨-, -, _, hmade', hcurrent, hw⟩ := openAt_spec hopen
  obtain rfl := Except.ok.inj (hmade.symm.trans hmade')
  rw [if_pos hfree] at hw
  -- the lock, what is loaded under it, and what is cleared away
  have hlocking := Workspace.edits_lock (w := { w with tree }) hlies
  obtain ⟨hwf₁, hlies₁⟩ := hlocking.wellFormed hwf hlies
  have hsweeping := hlies₁.edits_sweep hwf₁ (p.current.map Generation.id)
  obtain ⟨hwf₂, hlies₂⟩ := hsweeping.wellFormed hwf₁ hlies₁
  have hedits : Edits home mayOpen tree _ :=
    (hlocking.mono fun _ _ => Or.inl).trans (hsweeping.mono fun _ _ => Or.inr)
  obtain ⟨hlocked, hlockfile, -⟩ := Workspace.lock_of_ok hlies hwf hfree
  have hlockfile' : ((p.directory.sweep ({ w with tree }.lock p.directory).1.tree
      (p.current.map Generation.id)).item? (home ++ [lockName])).isSome = true := by
    rcases hsweeping.item? hwf₁ hlies₁ lockName with hsame | ⟨id, hname | hname, -⟩
    · exact hsame ▸ hlockfile
    · exact absurd hname.symm (nameOf_ne_lock id)
    · exact absurd hname (lockName_ne_journal id)
  obtain ⟨_, hloaded⟩ := loadCurrent_workspace ({ w with tree }.lock p.directory).1 p.directory
  rw [hloaded, Workspace.unlock_eq hlies₂ hlockfile', hlocked] at hw
  have htree : w'.tree = p.directory.sweep ({ w with tree }.lock p.directory).1.tree
      (p.current.map Generation.id) := by rw [hw]
  have hidle : home ++ [lockName] ∉ w'.locked := by
    rw [hw]
    simp
  rw [← htree] at hwf₂ hlies₂ hedits hsweeping hlockfile'
  have hdir : w'.tree.hasDirectory (home ++ [lockName]) = false := by
    rw [hedits.hasDirectory_eq hwf hlies]
    exact Workspace.not_directory_of_lock (w := { w with tree }) hlies hwf hfree
  have hfree' := Workspace.lock_of_idle hlies₂ hwf₂ hlockfile' hdir hidle
  refine ⟨hwf₂, hlies₂, hedits, hfree',
    (Workspace.lock_of_ok hlies₂ hwf₂ hfree').2.2 hlockfile', fun g hg => ?_⟩
  obtain ⟨hread, _, hopened⟩ := (loadCurrent_spec _ _).2 g (hcurrent.symm.trans hg)
  refine ⟨(Workspace.opened_eq hopened).2.2, ?_⟩
  rw [readCurrent_of_edits (hsweeping.mono fun _ _ => Or.inr) hwf₁ hlies₁]
  exact hread

/-! ## Builds -/

namespace OpenedIn

theorem readCurrent_eq (h : OpenedIn home tree w p) (hwf : tree.WellFormed)
    (hlies : p.directory.LiesAt tree home) :
    p.directory.readCurrent w.tree = p.directory.readCurrent tree :=
  readCurrent_of_edits h.edits hwf hlies

/-- No number in the directory is new. -/
theorem hasRoom (h : OpenedIn home tree w p) (hwf : tree.WellFormed)
    (hlies : p.directory.LiesAt tree home) (hroom : p.directory.HasRoom home tree) :
    p.directory.HasRoom home w.tree where
  current k hk := by
    rw [h.readCurrent_eq hwf hlies] at hk
    exact hroom.current k hk
  files name k hname hsome := by
    rcases h.edits.item? hwf hlies name with hsame | ⟨rfl, -⟩ | ⟨id, -, hnone⟩
    · exact hroom.files name k hname (hsame ▸ hsome)
    · rw [idOfName?_lockName] at hname
      cases hname
    · rw [hnone] at hsome
      cases hsome

/-- What a build starts from: the generation in use, in a file of its number. -/
theorem started_held (h : OpenedIn home tree w p) {g : Generation}
    (hg : (started w p).2.current = some g) :
    g.path = p.directory.fileFor g.id ∧ p.directory.readCurrent w.tree = .ok (some g.id) := by
  have hseen : (w.lock p.directory).1.tree = w.tree := h.seen_eq
  rcases (refresh_spec (w.lock p.directory).1 p).2 with hsame | ⟨g', _, hread, hopened, hnew⟩
  · rw [started, hsame] at hg
    exact h.held g hg
  · rw [started, hnew] at hg
    obtain rfl := Option.some.inj hg
    rw [hseen] at hread
    exact ⟨(Workspace.opened_eq hopened).2.2, hread⟩

theorem prepares (h : OpenedIn home tree w p) : Prepares home w p where
  wellFormed := h.seen_eq ▸ h.wellFormed
  lies := h.seen_eq ▸ h.lies
  path _ hg := (h.started_held hg).1

end OpenedIn

/-- A build under the lock succeeds exactly if a generation can be made and the pointer be set. -/
theorem Ends.ok_iff {step : Step Built} (h : Ends home w p parse mode o step)
    (hwf : w.tree.WellFormed) (hlies : p.directory.LiesAt w.tree home) (built : Built) :
    step.answer = .ok built ↔
      (∃ id store, Makes home w p parse mode o id store built) ∧
        w.tree.hasDirectory (home ++ [draftName]) = false ∧
        w.tree.hasDirectory (home ++ [currentName]) = false := by
  cases h with
  | unwritten hmade =>
      constructor
      · intro hanswer
        cases hanswer
      · rintro ⟨⟨id, store, hmakes⟩, -⟩
        have hok := (makeNext_ok_iff hwf hlies).mpr ⟨store, hmakes, rfl⟩
        rw [hmade] at hok
        cases hok
  | removed hmakes hpointer =>
      constructor
      · intro hanswer
        cases hanswer
      · rintro ⟨-, hfree⟩
        have hok := (hmakes.pointed_iff hwf hlies hpointer).mpr hfree
        cases hok
  | done hmakes hfacts hpointer =>
      constructor
      · intro hanswer
        obtain rfl := Except.ok.inj hanswer
        exact ⟨⟨_, _, hmakes⟩, (hmakes.pointed_iff hwf hlies hpointer).mp rfl⟩
      · rintro ⟨⟨id, store, hmakes'⟩, -⟩
        exact congrArg _ (hmakes.unique hmakes').2.2.symm

theorem build_ok_iff (h : Prepares home w p) (hfree : (w.lock p.directory).2 = .ok true)
    (built : Built) :
    (build w p parse mode o).answer = .ok built ↔
      (∃ id store, Makes home (started w p).1 (started w p).2 parse mode o id store built) ∧
        (seen w p).hasDirectory (home ++ [draftName]) = false ∧
        (seen w p).hasDirectory (home ++ [currentName]) = false := by
  have hends : Ends home (started w p).1 (started w p).2 parse mode o
      (buildLocked (w.lock p.directory).1 p parse mode o) := buildLocked_ends h.wellFormed h.lies
  have hok := hends.ok_iff (by rw [started_tree]; exact h.wellFormed)
    (by rw [started_tree, started_directory]; exact h.lies) built
  rw [build_of_locked hfree]
  rw [started_tree] at hok
  exact hok

/-- Without a number for its generation a build fails. -/
theorem build_of_nextId_error (hfree : (w.lock p.directory).2 = .ok true) {f : Fault}
    (hnext : p.directory.nextId (seen w p) = .error f) :
    (build w p parse mode o).answer = .error f := by
  have hmade : makeNext (p.refresh (w.lock p.directory).1).1 (p.refresh (w.lock p.directory).1).2
      parse mode o = ((p.refresh (w.lock p.directory).1).1.tree, .error f) := by
    rw [makeNext, refresh_directory, refresh_tree]
    have hseen : (w.lock p.directory).1.tree = seen w p := rfl
    rw [hseen, hnext]
  rw [build_of_locked hfree, buildLocked_of_error hmade]

namespace OpenedIn

/-- A full build can make a generation exactly if the pointer can be read and no directory is in
place of a journal. -/
theorem makes_iff (h : OpenedIn home tree w p) (hwf : tree.WellFormed)
    (hlies : p.directory.LiesAt tree home) (hroom : p.directory.HasRoom home tree)
    (hreads : (p.context parse).Reads (seen w p) o listed) (hsettings : p.settings.check = .ok ())
    (hstop : o.stop = none) (hmodel : ∀ m, p.model = some m → m.Replies) :
    (∃ id store built, Makes home (started w p).1 (started w p).2 parse .full o id store built) ↔
      (∃ current, p.directory.readCurrent tree = .ok current) ∧
        JournalFree home p.directory w.tree := by
  constructor
  · rintro ⟨id, store, built, hmakes⟩
    have hnext := hmakes.next
    have hjournal := hmakes.journal
    rw [started_directory, started_tree, h.seen_eq] at hnext
    rw [started_tree, h.seen_eq] at hjournal
    obtain ⟨-, ⟨current, hread, -⟩, -⟩ := h.lies.nextId_spec h.wellFormed hnext
    refine ⟨⟨current, h.readCurrent_eq hwf hlies ▸ hread⟩, fun id' hid' => ?_⟩
    obtain rfl := Except.ok.inj (hnext.symm.trans hid')
    exact hjournal
  · rintro ⟨⟨current, hread⟩, hjournal⟩
    rw [← h.readCurrent_eq hwf hlies] at hread
    obtain ⟨id, hnext⟩ := h.lies.nextId_isOk h.wellFormed (h.hasRoom hwf hlies hroom) hread
    obtain ⟨hfits, -, hfiles⟩ := h.lies.nextId_spec h.wellFormed hnext
    obtain ⟨store, built, hdraft⟩ := draft_isOk_of_reads h.prepares.wellFormed hreads hsettings hstop
      hmodel id
    refine ⟨id, store, built, ?_, ⟨none, baseOf_full _ _, ?_⟩, ?_, ?_⟩
    · rw [started_directory, started_tree, h.seen_eq]
      exact hnext
    · rw [started_tree, started_context]
      exact hdraft
    · rw [started_tree, h.seen_eq]
      by_contra hsome
      have hlt := hfiles (nameOf id) id (idOfName?_nameOf hfits) (Option.isSome_iff_ne_none.mpr hsome)
      exact lt_irrefl id hlt
    · rw [started_tree, h.seen_eq]
      exact hjournal id hnext

/-- The number of a new generation is not that of one that is held. -/
theorem serves (h : OpenedIn home tree w p) {built : Built}
    (hok : (build w p parse mode o).answer = .ok built) :
    Serves home (build w p parse mode o).workspace (build w p parse mode o).project
      built.report.generation := by
  refine (build_serves_iff h.prepares hok).2.mpr fun previous hprevious hsame => ?_
  obtain ⟨⟨id, store, hmakes⟩, -⟩ := (build_ok_iff h.prepares h.free built).mp hok
  have hnext := hmakes.next
  rw [started_directory, started_tree, h.seen_eq] at hnext
  obtain ⟨-, ⟨current, hread, hlt⟩, -⟩ := h.lies.nextId_spec h.wellFormed hnext
  have hcurrent := Except.ok.inj (hread.symm.trans (h.started_held hprevious).2)
  have hbelow := hlt previous.id hcurrent
  rw [hmakes.generation] at hsame
  omega

end OpenedIn

/-- Whatever is in the index directory, a project can be opened on it. If nobody else builds, then a
full build after that succeeds and is in use exactly if the pointer can be read, whatever generation
it names, and no directory is in place of its draft or of the journal of the new generation. With a
pointer that cannot be read every build fails. -/
theorem rebuild_serves_iff (hroot : w.tree.locate root = .ok names)
    (hd : d = ⟨settings.dataDirectory (FileTree.pathOf names)⟩)
    (hmade : w.tree.makeDirectory d.path = .ok tree) (hwf : tree.WellFormed)
    (hlies : d.LiesAt tree home) (hfree : ({ w with tree }.lock d).2 = .ok true)
    (hroom : d.HasRoom home tree) (hsettings : settings.check = .ok ())
    (hmodel : ∀ m, model = some m → m.Replies) (parse : Chunk.Parse) (hstop : o.stop = none) :
    ∃ w' p, openAt w root settings model = (w', .ok p) ∧
      (∀ listed, (p.context parse).Reads (seen w' p) o listed →
        ((∃ built, (build w' p parse .full o).answer = .ok built ∧
            Serves home (build w' p parse .full o).workspace (build w' p parse .full o).project
              built.report.generation) ↔
          (∃ current, d.readCurrent tree = .ok current) ∧
            tree.hasDirectory (home ++ [draftName]) = false ∧ JournalFree home d w'.tree)) ∧
      ∀ f, d.readCurrent tree = .error f →
        ∀ mode o, (build w' p parse mode o).answer = .error f := by
  obtain ⟨w', p, hopen, rfl, -⟩ := openAt_isOk hroot hd hmade model
  have hopened := openedIn_of_openAt hopen hmade hwf hlies hfree
  obtain ⟨hsame, hmodels, -⟩ := openAt_spec hopen
  refine ⟨w', p, hopen, fun listed hreads => ?_, fun f hread mode o => ?_⟩
  · have hmakes := hopened.makes_iff hwf hlies hroom hreads (hsame ▸ hsettings) hstop
      (hmodels ▸ hmodel)
    have hdraft := hopened.edits.hasDirectory_eq hwf hlies (home ++ [draftName])
    constructor
    · rintro ⟨built, hok, -⟩
      obtain ⟨⟨id, store, hmake⟩, hfreeDraft, -⟩ :=
        (build_ok_iff hopened.prepares hopened.free built).mp hok
      rw [hopened.seen_eq, hdraft] at hfreeDraft
      obtain ⟨hread, hjournal⟩ := hmakes.mp ⟨id, store, built, hmake⟩
      exact ⟨hread, hfreeDraft, hjournal⟩
    · rintro ⟨⟨current, hread⟩, hfreeDraft, hjournal⟩
      obtain ⟨id, store, built, hmake⟩ := hmakes.mpr ⟨⟨current, hread⟩, hjournal⟩
      have hpointer := hlies.not_directory_of_readCurrent hread
      rw [← hopened.edits.hasDirectory_eq hwf hlies] at hpointer
      have hok := (build_ok_iff hopened.prepares hopened.free built).mpr ⟨⟨id, store, hmake⟩, by
        rw [hopened.seen_eq]
        exact ⟨hdraft.trans hfreeDraft, hpointer⟩⟩
      exact ⟨built, hok, hopened.serves hok⟩
  · refine build_of_nextId_error hopened.free ?_
    rw [hopened.seen_eq]
    exact hopened.lies.nextId_error ((hopened.readCurrent_eq hwf hlies).trans hread)

/-! ## The small project with a pointer -/

/-- The small project with a pointer that others have put there. -/
def smallPointed (pointer : String) : Workspace where
  tree := smallOpened.1.tree.set (Scope.small.home ++ [currentName]) (.file pointer.toUTF8)

/-- What opening the small project leaves: its index directory holds the lock, and neither generations
nor directories. -/
theorem smallOpened_spec : smallOpened.1.tree.locate ⟨"/p"⟩ = .ok ["p"] ∧
    small.directory = ⟨(default : Settings).dataDirectory (FileTree.pathOf ["p"])⟩ ∧
    lockName ∈ smallOpened.1.tree.namesIn Scope.small.home ∧
    ∀ name ∈ smallOpened.1.tree.namesIn Scope.small.home,
      idOfName? name = none ∧ smallOpened.1.tree.hasDirectory (Scope.small.home ++ [name]) = false := by
  decide +kernel

theorem small_directory_eq :
    small.directory = ⟨(default : Settings).dataDirectory (FileTree.pathOf ["p"])⟩ :=
  smallOpened_spec.2.1

theorem hasDirectory_smallOpened (name : String) :
    smallOpened.1.tree.hasDirectory (Scope.small.home ++ [name]) = false := by
  have horder := (Run.small (S := .small) rfl rfl).inOrder
  by_contra hdir
  have hitem := (FileTree.hasDirectory_iff _ _).mp (by simpa using hdir)
  have hname : name ∈ smallOpened.1.tree.namesIn Scope.small.home :=
    horder.wellFormed.mem_namesIn.mpr (by rw [hitem]; rfl)
  exact hdir (smallOpened_spec.2.2.2 name hname).2

theorem edits_smallPointed (pointer : String) : Edits Scope.small.home
    (fun name _ => name = currentName) smallOpened.1.tree (smallPointed pointer).tree :=
  .write .refl isName_currentName (hasDirectory_smallOpened currentName) rfl rfl

theorem wellFormed_smallPointed (pointer : String) : (smallPointed pointer).tree.WellFormed ∧
    small.directory.LiesAt (smallPointed pointer).tree Scope.small.home := by
  have horder := (Run.small (S := .small) rfl rfl).inOrder
  exact (edits_smallPointed pointer).wellFormed horder.wellFormed horder.lies

theorem locate_smallPointed (pointer : String) :
    (smallPointed pointer).tree.locate ⟨"/p"⟩ = .ok ["p"] := by
  have horder := (Run.small (S := .small) rfl rfl).inOrder
  have hedit : FileTree.Edit (Scope.small.home ++ [currentName]) smallOpened.1.tree
      (smallPointed pointer).tree :=
    horder.wellFormed.edit_set (by simp)
      (horder.lies.isFile_of_item? (hasDirectory_smallOpened currentName)) rfl
  exact hedit.locate smallOpened_spec.1 (by decide)

/-- It has no generations. -/
theorem idOfName?_smallPointed {pointer name : String}
    (hsome : ((smallPointed pointer).tree.item? (Scope.small.home ++ [name])).isSome = true) :
    idOfName? name = none := by
  have horder := (Run.small (S := .small) rfl rfl).inOrder
  rcases (edits_smallPointed pointer).item? horder.wellFormed horder.lies name with hsame | rfl
  · exact (smallOpened_spec.2.2.2 name (horder.wellFormed.mem_namesIn.mpr (hsame ▸ hsome))).1
  · exact idOfName?_currentName

/-- It has no directories. -/
theorem hasDirectory_smallPointed (pointer name : String) :
    (smallPointed pointer).tree.hasDirectory (Scope.small.home ++ [name]) = false := by
  have horder := (Run.small (S := .small) rfl rfl).inOrder
  rw [(edits_smallPointed pointer).hasDirectory_eq horder.wellFormed horder.lies]
  exact hasDirectory_smallOpened name

theorem item?_lock_smallPointed (pointer : String) :
    ((smallPointed pointer).tree.item? (Scope.small.home ++ [lockName])).isSome = true := by
  have horder := (Run.small (S := .small) rfl rfl).inOrder
  rcases (edits_smallPointed pointer).item? horder.wellFormed horder.lies lockName with hsame | hname
  · rw [hsame]
    exact horder.wellFormed.mem_namesIn.mp smallOpened_spec.2.2.1
  · exact absurd hname (by decide)

/-- Nobody builds there. -/
theorem lock_smallPointed (pointer : String) :
    ((smallPointed pointer).lock small.directory).2 = .ok true := by
  obtain ⟨hwf, hlies⟩ := wellFormed_smallPointed pointer
  exact Workspace.lock_of_idle hlies hwf (item?_lock_smallPointed pointer)
    (hasDirectory_smallPointed pointer lockName) (by simp [smallPointed])

/-- It can be opened, and nothing changes. -/
theorem openedIn_smallPointed (pointer : String) : ∃ w p,
    openAt (smallPointed pointer) ⟨"/p"⟩ default none = (w, .ok p) ∧
      OpenedIn Scope.small.home (smallPointed pointer).tree w p ∧
      seen w p = (smallPointed pointer).tree ∧ p.directory = small.directory ∧
      p.context Scope.small.parse = ⟨⟨"/p"⟩, default, none, Scope.small.parse⟩ := by
  obtain ⟨hwf, hlies⟩ := wellFormed_smallPointed pointer
  have hfree := lock_smallPointed pointer
  obtain ⟨w, p, hopen, hdirectory, hcontext⟩ :=
    openAt_isOk (locate_smallPointed pointer) small_directory_eq hlies.makeDirectory_eq none
  rw [← hdirectory] at hlies hfree
  have hopened := openedIn_of_openAt hopen hlies.makeDirectory_eq hwf hlies hfree
  refine ⟨w, p, hopen, hopened, ?_, hdirectory, hcontext Scope.small.parse⟩
  obtain ⟨tree, hmade, htree⟩ := openAt_tree hopen
  obtain rfl := Except.ok.inj (hlies.makeDirectory_eq.symm.trans hmade)
  have hsame := (Workspace.lock_of_ok hlies hwf hfree).2.2 (item?_lock_smallPointed pointer)
  rw [hopened.seen_eq]
  rcases htree with htree | ⟨keep, htree⟩
  · exact htree.trans hsame
  · rw [htree, hsame]
    exact hlies.sweep_eq_self hwf (fun _ => idOfName?_smallPointed) keep

/-- A tree of which one chunk is cut can be read: there is nothing to tell apart. -/
theorem reads_of_chunk {t : FileTree} {x : BuildContext} {o : BuildOptions} {listed : List Path}
    (hfiles : (Listing.files t x.root (x.walk o none)).toOption = some listed)
    (hlegible : Listing.isLegible t x.root (x.walk o none) = true)
    (hone : ((x.fullCuts t o listed).flatMap CutFile.chunks).length = 1) : x.Reads t o listed := by
  refine ⟨Except.eq_ok_of_toOption hfiles, Listing.legible_of_isLegible hlegible, ?_⟩
  obtain ⟨only, honly⟩ := List.length_eq_one_iff.mp hone
  intro c hc e he _
  rw [honly] at hc he
  rw [List.mem_singleton.mp hc, List.mem_singleton.mp he]
  exact ⟨rfl, rfl⟩

/-- A pointer to a generation that is not there is replaced. -/
theorem rebuild_serves_smallMissing : ∃ w p built,
    openAt (smallPointed "7\n") ⟨"/p"⟩ default none = (w, .ok p) ∧
      (build w p Scope.small.parse .full {}).answer = .ok built ∧
      Serves Scope.small.home (build w p Scope.small.parse .full {}).workspace
        (build w p Scope.small.parse .full {}).project built.report.generation := by
  obtain ⟨hwf, hlies⟩ := wellFormed_smallPointed "7\n"
  obtain ⟨w, p, hopen, hopened, hseen, hdirectory, hcontext⟩ := openedIn_smallPointed "7\n"
  have hpointer : small.directory.readCurrent (smallPointed "7\n").tree = .ok (some 7) := by
    decide +kernel
  have hroom : small.directory.HasRoom Scope.small.home (smallPointed "7\n").tree := by
    refine ⟨fun k hk => ?_, fun name k hname hsome => ?_⟩
    · obtain rfl := Option.some.inj (Except.ok.inj (hpointer.symm.trans hk))
      decide
    · rw [idOfName?_smallPointed hsome] at hname
      cases hname
  have hreads : (p.context Scope.small.parse).Reads (seen w p) {} [⟨"a.md"⟩] := by
    rw [hcontext, hseen]
    exact reads_of_chunk (by decide +kernel) (by decide +kernel) (by decide +kernel)
  have hnone : ∀ m, (none : Option EmbeddingModel) = some m → m.Replies := by simp
  have hstop : ({} : BuildOptions).stop = none := rfl
  obtain ⟨w', p', hopen', hserves, -⟩ := rebuild_serves_iff (locate_smallPointed "7\n")
    small_directory_eq hlies.makeDirectory_eq hwf hlies (lock_smallPointed "7\n") hroom
    (by decide +kernel) hnone Scope.small.parse hstop
  obtain ⟨rfl, hp⟩ := Prod.mk.inj (hopen.symm.trans hopen')
  obtain rfl := Except.ok.inj hp
  obtain ⟨built, hok, hin⟩ := (hserves _ hreads).mpr ⟨⟨_, hpointer⟩, hasDirectory_smallPointed _ _, by
    rw [JournalFree, ← hopened.seen_eq, hseen]
    exact fun id _ => hasDirectory_smallPointed _ _⟩
  exact ⟨w, p, built, hopen, hok, hin⟩

/-- A pointer that is no number is not. -/
theorem not_serves_smallGarbage : ∃ w p,
    openAt (smallPointed "garbage") ⟨"/p"⟩ default none = (w, .ok p) ∧
      (w.lock p.directory).2 = .ok true ∧
      (p.context Scope.small.parse).Reads (seen w p) {} [⟨"a.md"⟩] ∧
      (build w p Scope.small.parse .full {}).answer =
        .error (.store "corrupt CURRENT file: 'garbage'") := by
  obtain ⟨-, hlies⟩ := wellFormed_smallPointed "garbage"
  obtain ⟨w, p, hopen, hopened, hseen, hdirectory, hcontext⟩ := openedIn_smallPointed "garbage"
  have hpointer : small.directory.readCurrent (smallPointed "garbage").tree =
      .error (.store "corrupt CURRENT file: 'garbage'") := by decide +kernel
  have hreads : (p.context Scope.small.parse).Reads (seen w p) {} [⟨"a.md"⟩] := by
    rw [hcontext, hseen]
    exact reads_of_chunk (by decide +kernel) (by decide +kernel) (by decide +kernel)
  refine ⟨w, p, hopen, hopened.free, hreads, build_of_nextId_error hopened.free ?_⟩
  rw [hseen, hdirectory]
  exact hlies.nextId_error hpointer

end Project

end SourceIndex
