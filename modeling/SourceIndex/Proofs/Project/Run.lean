import Mathlib
import SourceIndex.Proofs.Project.Build

/-! # Runs

A run is what a project goes through from its first opening on: builds of every kind, successful
or not, other operations, reopenings, and anything that happens to the files meanwhile, as long as
no index store is put into the index directory by others (`Run`).

A property of drafts that carries over from one generation to the next holds of every index store
in the directory throughout a run (`Run.invariant`).
-/

set_option autoImplicit false

namespace SourceIndex

open IndexDirectory

attribute [local irreducible] nameOf journalName removeStore Project.buildLocked

/-! ## The scope of a run -/

/-- What may occur in a run: how texts are parsed, which texts are read, how hints are spelled once
they are taken from the root, with which settings and models the project is opened, and where the
index directory lies. -/
structure Scope where
  parse : Chunk.Parse
  texts : Set String
  hint : Path → Prop
  handle : Settings → Option EmbeddingModel → Prop
  home : List String

/-- The hints of a build are spelled as they may be. -/
def Scope.Admits (S : Scope) (root : Path) (mode : BuildMode) : Prop :=
  ∀ hs, Project.hintsOf mode = some hs → ∀ h ∈ hs, ∀ q, ReadPlan.relativeHint root h = some q →
    S.hint q

/-- The workspaces and handles that a project goes through. -/
inductive Run (S : Scope) : Workspace → Project → Prop where
  /-- The project is opened, and nothing was indexed yet. -/
  | start {w w' root settings model p} : S.handle settings model →
      Project.openAt w root settings model = (w', .ok p) → w'.tree.WellFormed →
      p.directory.LiesAt w'.tree S.home →
      (∀ name store, w'.tree.item? (S.home ++ [name]) ≠ some (.index store)) → Run S w' p
  /-- Anything happens elsewhere: files change, readers come and go, stores go away. -/
  | elsewhere {w w' p} : Run S w p → w'.tree.WellFormed → p.directory.LiesAt w'.tree S.home →
      StoresFrom S.home w.tree w'.tree → Run S w' p
  /-- The project is opened again, maybe with other settings and another model. -/
  | reopen {w w' p p' root settings model} : Run S w p → S.handle settings model →
      Project.openAt w root settings model = (w', .ok p') →
      p'.directory.LiesAt w.tree S.home → Run S w' p'
  /-- The model replies otherwise from now on. -/
  | change {w p model} : Run S w p → S.handle p.settings model → Run S w { p with model }
  /-- The handle looks for a newer generation. -/
  | look {w p} : Run S w p → Run S (p.refresh w).1 (p.refresh w).2
  /-- A build, whether it succeeds or fails. -/
  | build {w p mode o} : Run S w p → S.Admits p.root mode →
      ReadsWithin S.texts (Project.seen w p) p.root →
      Run S (Project.build w p S.parse mode o).workspace (Project.build w p S.parse mode o).project

/-! ## What holds throughout -/

/-- The tree is in order, every index store in the directory is good, and the generation that the
handle holds is what its file says, if that is still there. -/
structure Invariant (S : Scope) (Good : BuildFacts → Store → Prop) (w : Workspace) (p : Project) :
    Prop where
  wellFormed : w.tree.WellFormed
  lies : p.directory.LiesAt w.tree S.home
  handle : S.handle p.settings p.model
  good : ∀ name store, w.tree.item? (S.home ++ [name]) = some (.index store) →
    ∃ facts, store.facts = some facts ∧ Good facts store
  path : ∀ g, p.current = some g → g.path = p.directory.fileFor g.id
  held : ∀ g, p.current = some g → ∀ store,
    w.tree.item? (S.home ++ [nameOf g.id]) = some (.index store) → store.facts = some g.facts

/-- A build that starts from good contents drafts good contents. -/
def Scope.Preserves (S : Scope) (Good : BuildFacts → Store → Prop) : Prop :=
  ∀ {t : FileTree} {x : BuildContext} {o : BuildOptions} {mode : BuildMode}
    {base : Option BuildBase} {id : Nat} {store : Store} {built : Project.Built},
    t.WellFormed → S.handle x.settings x.model → x.parse = S.parse → S.Admits x.root mode →
    ReadsWithin S.texts t x.root → (∀ b, base = some b → Good b.facts b.store) →
    Project.draft t x o mode base id = .ok (store, built) →
    ∃ facts, store.facts = some facts ∧ Good facts store

namespace Invariant

variable {S : Scope} {Good : BuildFacts → Store → Prop} {w w' : Workspace} {p : Project}

/-- It stays so if nothing becomes a store. -/
theorem elsewhere (h : Invariant S Good w p) (hwf : w'.tree.WellFormed)
    (hlies : p.directory.LiesAt w'.tree S.home) (hfrom : StoresFrom S.home w.tree w'.tree) :
    Invariant S Good w' p where
  wellFormed := hwf
  lies := hlies
  handle := h.handle
  good name store hstore := h.good name store (hfrom name store hstore)
  path := h.path
  held g hg store hstore := h.held g hg store (hfrom _ store hstore)

theorem edits (h : Invariant S Good w p) {may : String → Option FileItem → Prop}
    (hedits : Edits S.home may w.tree w'.tree)
    (hmay : ∀ name file, may name file → ∀ store, file ≠ some (.index store)) :
    Invariant S Good w' p := by
  obtain ⟨hwf, hlies⟩ := hedits.wellFormed h.wellFormed h.lies
  exact h.elsewhere hwf hlies (hedits.storesFrom hmay h.wellFormed h.lies)

theorem congr_tree (h : Invariant S Good w p) (htree : w'.tree = w.tree) :
    Invariant S Good w' p :=
  h.elsewhere (htree ▸ h.wellFormed) (htree ▸ h.lies) (htree ▸ .refl _ _)

theorem lock (h : Invariant S Good w p) : Invariant S Good (w.lock p.directory).1 p :=
  h.edits (Workspace.edits_lock h.lies) fun _ _ hmay store hstore => by
    rw [hmay.2] at hstore
    cases hstore

/-- A generation that is opened is told by its file. -/
theorem opens (h : Invariant S Good w p) {g : Generation}
    (hopen : w.openGeneration g.id (p.directory.fileFor g.id) = .ok (w', g)) :
    Invariant S Good w { p with current := some g } := by
  have htold := Workspace.told_of_opened h.lies hopen
  refine ⟨h.wellFormed, h.lies, h.handle, h.good, fun g' hg' => ?_, fun g' hg' store hstore => ?_⟩
  · obtain rfl := Option.some.inj hg'
    exact htold.path
  · obtain rfl := Option.some.inj hg'
    obtain ⟨store', hstore', hfacts⟩ := htold.store
    rw [hstore'] at hstore
    cases hstore
    exact hfacts

theorem refresh (h : Invariant S Good w p) :
    Invariant S Good (p.refresh w).1 (p.refresh w).2 := by
  obtain ⟨htree, hsame | ⟨g, w', -, hopen, hnew⟩⟩ := Project.refresh_spec w p
  · rw [hsame]
    exact h.congr_tree htree
  · rw [hnew]
    exact (h.opens hopen).congr_tree htree

/-- What is read of the generation in use is good, and has the facts that the handle holds. -/
theorem read (h : Invariant S Good w p) {g : Generation} (hg : p.current = some g)
    {purpose table : String} {store : Store} (hread : g.reader w.tree purpose table = .ok store) :
    store.facts = some g.facts ∧ Good g.facts store := by
  rw [Generation.reader, h.path g hg] at hread
  have hstore := (h.lies.openStore_entry (isName_nameOf g.id)).mp hread
  obtain ⟨facts, hfacts, hgood⟩ := h.good _ store hstore
  have hheld := h.held g hg store hstore
  rw [hfacts] at hheld
  obtain rfl := Option.some.inj hheld
  exact ⟨hfacts, hgood⟩

/-- A build starts from good contents. -/
theorem base (h : Invariant S Good w p) {mode : BuildMode} {b : BuildBase}
    (hbase : Project.baseOf w mode p.current = .ok (some b)) : Good b.facts b.store := by
  obtain ⟨-, g, -, hcurrent, hreader, hfacts⟩ := Project.baseOf_eq_some_iff.mp hbase
  rw [hfacts]
  exact (h.read hcurrent hreader).2

open Project in
/-- A build keeps the stores of the directory good. -/
theorem ends (h : Invariant S Good w p) {parse : Chunk.Parse} {mode : BuildMode} {o : BuildOptions}
    (hgood : ∀ id store built, Makes S.home w p parse mode o id store built →
      ∃ facts, store.facts = some facts ∧ Good facts store) {step : Step Built}
    (hends : Ends S.home w p parse mode o step) :
    Invariant S Good step.workspace step.project := by
  cases hends with
  | @unwritten t f hmade =>
      rcases makeNext_error h.wellFormed h.lies hmade with rfl | ⟨id, -, hleaves⟩
      · exact h.congr_tree rfl
      · obtain ⟨hedits, hfrom⟩ := hleaves.edits h.wellFormed h.lies
        obtain ⟨hwf, hlies⟩ := hedits.wellFormed h.wellFormed h.lies
        exact h.elsewhere hwf hlies hfrom
  | removed hmakes hpointer =>
      obtain ⟨hedits, hfrom⟩ := hmakes.edits_removed h.wellFormed h.lies hpointer
      obtain ⟨hwf, hlies⟩ := hedits.wellFormed h.wellFormed h.lies
      exact h.elsewhere hwf hlies hfrom
  | @done id store built t facts hmakes hfacts hpointer =>
      have hedits := hmakes.edits_done h.wellFormed h.lies h.path hpointer
      obtain ⟨hwf, hlies⟩ := (hmakes.edits.wellFormed h.wellFormed h.lies)
      obtain ⟨hwf', hlies'⟩ := hedits.wellFormed hwf hlies
      have hfrom := hedits.storesFrom (fun _ _ hmay => hmay) hwf hlies
      have hitem := item?_stored S.home w.tree id store
      refine ⟨hwf', hlies', h.handle, fun name store' hstore' => ?_, fun g hg => ?_,
        fun g hg store' hstore' => ?_⟩
      · have hold := hfrom name store' hstore'
        by_cases hname : name = nameOf id
        · -- the only store that is new
          rw [hname, hitem] at hold
          cases hold
          exact hgood id store built hmakes
        · rcases hmakes.edits_stored.item? h.wellFormed h.lies name with hsame | hnew | ⟨-, hnone⟩
          · exact h.good name store' (hsame ▸ hold)
          · exact absurd hnew hname
          · rw [hnone] at hold
            cases hold
      · obtain rfl := Option.some.inj hg
        rfl
      · obtain rfl := Option.some.inj hg
        have hold := hfrom _ store' hstore'
        rw [opened, hitem] at hold
        cases hold
        exact hfacts

/-- A build starts when the handle has looked for a newer generation, under the lock. -/
theorem started (h : Invariant S Good w p) :
    Invariant S Good (Project.started w p).1 (Project.started w p).2 :=
  h.lock.refresh

/-- Every build keeps the stores of the directory good, if it starts from good ones. -/
theorem build (h : Invariant S Good w p) (hpreserves : S.Preserves Good) {mode : BuildMode}
    (o : BuildOptions) (hmode : S.Admits p.root mode)
    (hread : ReadsWithin S.texts (Project.seen w p) p.root) :
    Invariant S Good (Project.build w p S.parse mode o).workspace
      (Project.build w p S.parse mode o).project := by
  have hlocked := h.lock
  have hends : Project.Ends S.home (Project.started w p).1 (Project.started w p).2 S.parse mode o _ :=
    Project.buildLocked_ends hlocked.wellFormed hlocked.lies
  by_cases hfree : (w.lock p.directory).2 = .ok true
  · rw [Project.build_of_locked hfree]
    refine (h.started.ends (fun id store built hmakes => ?_) hends).congr_tree
      (Workspace.unlock_tree _ _)
    obtain ⟨base, hbase, hdraft⟩ := hmakes.drafted
    rw [Project.started_tree, Project.started_context] at hdraft
    have hstart : ∀ b, base = some b → Good b.facts b.store := by
      intro b hb
      rw [hb] at hbase
      exact h.started.base hbase
    exact hpreserves (x := p.context S.parse) hlocked.wellFormed h.handle rfl hmode hread hstart
      hdraft
  · obtain ⟨f, hbuild⟩ := Project.build_of_not_locked hfree S.parse mode o
    rw [hbuild]
    exact hlocked

/-- A new handle holds what its file says. -/
theorem reopen (h : Invariant S Good w p) {root : Path} {settings : Settings}
    {model : Option EmbeddingModel} {p' : Project} (hhandle : S.handle settings model)
    (hopen : Project.openAt w root settings model = (w', .ok p'))
    (hlies : p'.directory.LiesAt w.tree S.home) : Invariant S Good w' p' := by
  obtain ⟨_, hmake', htree⟩ := Project.openAt_tree hopen
  rw [hlies.makeDirectory_eq] at hmake'
  obtain rfl := Except.ok.inj hmake'
  obtain ⟨rfl, rfl, tree, hmake, hcurrent, -⟩ := Project.openAt_spec hopen
  rw [hlies.makeDirectory_eq] at hmake
  obtain rfl := Except.ok.inj hmake
  have hempty : Invariant S Good w { p' with current := none } :=
    ⟨h.wellFormed, hlies, hhandle, h.good, nofun, nofun⟩
  have hlocked : Invariant S Good (w.lock p'.directory).1 { p' with current := none } := hempty.lock
  have hloaded : Invariant S Good (w.lock p'.directory).1 p' := by
    cases hg : p'.current with
    | none =>
        rw [← hg] at hlocked
        exact hlocked
    | some g =>
        obtain ⟨-, w'', hopened⟩ := (Project.loadCurrent_spec _ _).2 g (hcurrent.symm.trans hg)
        have hopens := hlocked.opens hopened
        rw [← hg] at hopens
        exact hopens
  rcases htree with hsame | ⟨keep, hswept⟩
  · exact hloaded.congr_tree hsame
  · have hedits := hloaded.lies.edits_sweep hloaded.wellFormed keep
    have hswept' : w'.tree = p'.directory.sweep (w.lock p'.directory).1.tree keep := hswept
    rw [← hswept'] at hedits
    refine hloaded.edits hedits fun _ _ hmay store hstore => ?_
    obtain ⟨_, -, hnone⟩ := hmay
    rw [hnone] at hstore
    cases hstore

end Invariant

/-- What builds preserve holds throughout every run. -/
theorem Run.invariant {S : Scope} {Good : BuildFacts → Store → Prop}
    (hpreserves : S.Preserves Good) {w : Workspace} {p : Project} (h : Run S w p) :
    Invariant S Good w p := by
  induction h with
  | @start w w' root settings model p hhandle hopen hwf hlies hempty =>
      obtain ⟨rfl, rfl, tree, -, hcurrent, -⟩ := Project.openAt_spec hopen
      refine ⟨hwf, hlies, hhandle, fun name store hstore => absurd hstore (hempty name store),
        fun g hg => ?_, fun g hg store hstore => absurd hstore (hempty _ store)⟩
      rw [hcurrent] at hg
      obtain ⟨-, w'', hopened⟩ := (Project.loadCurrent_spec _ _).2 g hg
      exact (Workspace.opened_eq hopened).2.2
  | elsewhere _ hwf hlies hfrom ih => exact ih.elsewhere hwf hlies hfrom
  | reopen _ hhandle hopen hlies ih => exact ih.reopen hhandle hopen hlies
  | change _ hhandle ih => exact ⟨ih.wellFormed, ih.lies, hhandle, ih.good, ih.path, ih.held⟩
  | look _ ih => exact ih.refresh
  | build _ hmode hread ih => exact ih.build hpreserves _ hmode hread

/-- The tree of a run is in order. -/
theorem Run.inOrder {S : Scope} {w : Workspace} {p : Project} (h : Run S w p) :
    Invariant S (fun _ _ => True) w p := by
  refine h.invariant fun _ _ _ _ _ _ hdraft => ?_
  obtain ⟨facts, hfacts, -⟩ := Project.readFacts_of_draft hdraft
  exact ⟨facts, hfacts, trivial⟩

/-- A file outside of the index directory may be written at any time. -/
theorem Run.write {S : Scope} {w : Workspace} {p : Project} (h : Run S w p)
    {directory : List String} {name : String} (hdir : w.tree.hasDirectory directory = true)
    (hname : Path.IsName name)
    (hspot : ∀ item, w.tree.item? (directory ++ [name]) = some item → item.isFile = true)
    {file : FileItem} (hfile : file.isFile = true) (houtside : directory ≠ S.home)
    (hhome : S.home ≠ directory ++ [name]) :
    Run S { w with tree := w.tree.set (directory ++ [name]) file } p := by
  have horder := h.inOrder
  have hedit := horder.wellFormed.edit_set (by simp) hspot hfile
  have hother : ∀ other, S.home ++ [other] ≠ directory ++ [name] := by
    intro other hsame
    exact houtside (List.append_inj_left' hsame rfl).symm
  refine h.elsewhere (horder.wellFormed.set hdir hname hspot hfile) ?_ ?_
  · refine ⟨hedit.locate horder.lies.located hhome, hedit.hasDirectory horder.lies.directory, ?_⟩
    intro other target hlink
    rw [hedit.same _ (hother other)] at hlink
    exact horder.lies.noLinks other target hlink
  · intro other store hstore
    rw [hedit.same _ (hother other)] at hstore
    exact hstore

/-! ## A small project -/

/-- A directory with one file. -/
def Workspace.small : Workspace where
  tree := ⟨[(["p"], .directory), (["p", "a.md"], .file "one\n".toUTF8)]⟩

/-- Whether an item is a directory or a file of bytes. -/
def FileItem.isPlain : FileItem → Bool
  | .file _ | .directory => true
  | .index _ | .barred _ | .link _ => false

namespace Project

/-- What comes of opening it for the first time. -/
def smallOpened : Workspace × Except Fault Project := openAt .small ⟨"/p"⟩ default none

/-- The handle on it. -/
def small : Project := smallOpened.2.toOption.get (by decide +kernel)

/-- The texts that occur in it. -/
def smallTexts : List String := ["one\n", "two\n", "1\n", "", "index\x00"]

theorem smallOpened_eq : smallOpened = (smallOpened.1, .ok small) := by
  have hok : smallOpened.2 = .ok small := Except.eq_ok_of_toOption (Option.some_get _).symm
  rw [← hok]

theorem small_settings : small.settings = default := by
  have hopen : openAt .small ⟨"/p"⟩ default none = _ := smallOpened_eq
  exact (openAt_spec hopen).1

/-- All texts of a tree are known, if those of its files are. -/
theorem readsWithin_of_entries {t : FileTree} {texts : List String}
    (h : ∀ e ∈ t.entries, ∀ bytes ∈ e.2.bytes?, ∀ text ∈ String.fromUTF8? bytes, text ∈ texts)
    (root : Path) : ReadsWithin {text | text ∈ texts} t root := by
  intro path o file hfile
  obtain ⟨names, item, bytes, hitem, hbytes, htext⟩ := Listing.text_of_readSource hfile
  have hne : names ≠ [] := by
    rintro rfl
    rw [FileTree.item?_nil] at hitem
    obtain rfl := Option.some.inj hitem
    cases hbytes
  exact h _ (FileTree.mem_of_item? hne hitem) bytes hbytes _ htext

end Project

/-- It can be opened first, whatever a run may hold. -/
theorem Run.small {S : Scope} (hhandle : S.handle default none) (hhome : S.home = ["p", ".codebox"]) :
    Run S Project.smallOpened.1 Project.small := by
  have hplain : ∀ e ∈ Project.smallOpened.1.tree.entries, e.2.isPlain = true := by decide +kernel
  have hitem : ∀ name item, Project.smallOpened.1.tree.item? (S.home ++ [name]) = some item →
      item.isPlain = true :=
    fun _ _ hitem => hplain _ (FileTree.mem_of_item? (by simp) hitem)
  have hopen : Project.openAt .small ⟨"/p"⟩ default none = _ := Project.smallOpened_eq
  refine .start hhandle hopen ?_ ?_ fun name store hstore => nomatch hitem name _ hstore
  · constructor
    all_goals decide +kernel
  · rw [hhome] at hitem ⊢
    refine ⟨by decide +kernel, by decide +kernel, fun name target hlink => ?_⟩
    exact nomatch hitem name _ hlink

/-- Runs of the small project with the default settings and any model. -/
def Scope.small : Scope where
  parse _ _ := none
  texts := {text | text ∈ Project.smallTexts}
  hint := Path.IsNormal
  handle settings _ := settings = default
  home := ["p", ".codebox"]

namespace Project

/-- Its first build. -/
def smallBuilt : Step Built := build smallOpened.1 small Scope.small.parse .full {}

theorem injOn_smallTexts : Set.InjOn Digest.ofText Scope.small.texts := by
  have hlist : ∀ a ∈ smallTexts, ∀ b ∈ smallTexts, Digest.ofText a = Digest.ofText b → a = b := by
    decide +kernel
  exact fun a ha b hb hab => hlist a ha b hb hab

/-- Its texts are all that a build can read, whatever the model is. -/
theorem readsWithin_smallOpened {p : Project} (h : p.directory = small.directory) :
    ReadsWithin Scope.small.texts (seen smallOpened.1 p) p.root := by
  rw [seen, h]
  exact readsWithin_of_entries (by decide +kernel) _

theorem run_smallBuilt : Run .small smallBuilt.workspace smallBuilt.project := by
  refine (Run.small rfl rfl).build (fun hs hhs => nomatch hhs) ?_
  exact readsWithin_smallOpened rfl

/-- The generation that it leaves, and its store. -/
theorem smallBuilt_spec : ∃ g store, smallBuilt.project.current = some g ∧
    g.reader smallBuilt.workspace.tree "failed to prepare query" "files" = .ok store ∧
    store.files.map FileRecord.path = [⟨"a.md"⟩] := by
  have hread : (smallBuilt.project.current.bind fun g =>
      (g.reader smallBuilt.workspace.tree "failed to prepare query" "files").toOption.map
        fun store => store.files.map FileRecord.path) = some [⟨"a.md"⟩] := by decide +kernel
  obtain ⟨g, hg, hread⟩ := Option.bind_eq_some_iff.mp hread
  obtain ⟨store, hstore, hfiles⟩ := Option.map_eq_some_iff.mp hread
  exact ⟨g, store, hg, Except.eq_ok_of_toOption hstore, hfiles⟩

/-- The project after its first build, with another text in its file. -/
def smallEdited : Workspace :=
  { smallBuilt.workspace with
    tree := smallBuilt.workspace.tree.set (["p"] ++ ["a.md"]) (.file "two\n".toUTF8) }

theorem run_smallEdited : Run .small smallEdited smallBuilt.project := by
  have hfile : (smallBuilt.workspace.tree.item? (["p"] ++ ["a.md"])).all FileItem.isFile = true := by
    decide +kernel
  refine run_smallBuilt.write (by decide +kernel) (by decide) (fun item hitem => ?_) rfl
    (by decide) (by decide)
  rw [hitem] at hfile
  exact hfile

end Project

end SourceIndex
