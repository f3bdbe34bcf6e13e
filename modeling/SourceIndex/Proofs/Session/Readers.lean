import Mathlib
import SourceIndex.Proofs.Session.Handles

/-! # Readers and the files that they need

If one handle works in a directory alone, a reader holds the generation in use, or one that was
replaced while the reader held it (`Session.Sole`). The file of the latter stays until its last
reader lets go of it, and no longer: whenever no build is under way, the files of generations are
that of the generation in use and those of the generations that readers hold
(`Session.Run.shelved`).
-/

set_option autoImplicit false

namespace SourceIndex

open IndexDirectory

-- files are not to be computed
attribute [local irreducible] nameOf journalName removeStore IndexDirectory.writeCurrent
  Workspace.openGeneration Project.makeNext

/-! ## Readers stay -/

/-- Whoever asks for a lock, readers hold what they held. -/
theorem Workspace.lock_readers (w : Workspace) (d : IndexDirectory) :
    (w.lock d).1.readers = w.readers ∧ (w.lock d).1.retired = w.retired := by
  rw [lock]
  split
  · exact ⟨rfl, rfl⟩
  · dsimp only
    split
    · split
      · exact ⟨rfl, rfl⟩
      · split <;> exact ⟨rfl, rfl⟩
    · split
      · exact ⟨rfl, rfl⟩
      · split <;> exact ⟨rfl, rfl⟩

theorem Workspace.unlock_readers (w : Workspace) (d : IndexDirectory) :
    (w.unlock d).readers = w.readers ∧ (w.unlock d).retired = w.retired := by
  rw [unlock]
  split <;> exact ⟨rfl, rfl⟩

theorem Project.loadCurrent_readers (w : Workspace) (d : IndexDirectory) :
    (loadCurrent w d).1.readers = w.readers ∧ (loadCurrent w d).1.retired = w.retired := by
  obtain ⟨_, hloaded⟩ := loadCurrent_workspace w d
  rw [hloaded]
  exact ⟨rfl, rfl⟩

/-- Opening a handle is nothing to readers. -/
theorem Project.openAt_readers {w w' : Workspace} {root : Path} {settings : Settings}
    {model : Option EmbeddingModel} {p : Project}
    (h : openAt w root settings model = (w', .ok p)) :
    w'.readers = w.readers ∧ w'.retired = w.retired := by
  obtain ⟨-, -, tree, -, -, rfl⟩ := openAt_spec h
  have hload := loadCurrent_readers ({ w with tree }.lock p.directory).1 p.directory
  have hlock := Workspace.lock_readers { w with tree } p.directory
  rw [hlock.1, hlock.2] at hload
  split
  · have hunlock := Workspace.unlock_readers
      { (loadCurrent ({ w with tree }.lock p.directory).1 p.directory).1 with
        tree := p.directory.sweep ({ w with tree }.lock p.directory).1.tree
          (p.current.map Generation.id) } p.directory
    exact ⟨hunlock.1.trans hload.1, hunlock.2.trans hload.2⟩
  · exact hload

/-! ## Files -/

/-- A generation has a file. -/
def IndexDirectory.HasFile (home : List String) (t : FileTree) (id : Nat) : Prop :=
  (t.item? (home ++ [nameOf id])).isSome = true

theorem Shelf.IsAt.hasFile_iff {s : Shelf} {t : FileTree} {home : List String}
    (h : s.IsAt t home) (id : Nat) : HasFile home t id ↔ (s.store id).isSome = true := by
  rw [HasFile, h.files, Option.isSome_map]

/-- The build of a handle has replaced a generation, and has not retired it yet. -/
def Client.Replaces (c : Client) (g : Generation) : Prop :=
  ∃ k built, c.work = some k ∧ k.stage = .installed (some g) built

/-- What a handle has replaced is told by the stage of its build. -/
theorem Client.replaces_iff {c : Client} {k : Work} (hk : c.work = some k) {g : Generation} :
    c.Replaces g ↔ ∃ built, k.stage = .installed (some g) built := by
  constructor
  · rintro ⟨k', built, hk', hstage⟩
    obtain rfl := Option.some.inj (hk.symm.trans hk')
    exact ⟨built, hstage⟩
  · rintro ⟨built, hstage⟩
    exact ⟨k, built, hk, hstage⟩

theorem Client.not_replaces_of_idle {c : Client} (hidle : c.work = none) (g : Generation) :
    ¬ c.Replaces g := by
  rintro ⟨k, built, hk, -⟩
  cases hk.symm.trans hidle

theorem Client.Replaces.unique {c : Client} {g g' : Generation} (h : c.Replaces g)
    (h' : c.Replaces g') : g = g' := by
  obtain ⟨k, built, hk, hstage⟩ := h
  obtain ⟨built', hstage'⟩ := (Client.replaces_iff hk).mp h'
  exact Option.some.inj (Stage.installed.inj (hstage.symm.trans hstage')).1

/-- A build that has put its generation into use is not stopped any more, and none that is stopped
gets so far. -/
theorem Stage.ne_installed_of_stopped {stage stage' : Stage} {f : Fault}
    (h : stage.stopped f = some stage') :
    (∀ previous built, stage ≠ .installed previous built) ∧
      ∀ previous built, stage' ≠ .installed previous built := by
  constructor
  · rintro previous built rfl
    cases h
  · rintro previous built rfl
    cases stage <;> cases h

namespace Session

variable {home : List String} {s : Session} {shelf : Shelf} {named : Nat → Generation}
  {c : Client} {k : Work} {n id : Nat} {g : Generation} {w : Workspace}

/-! ## What a step of a build does -/

theorem not_replaces_of_stage (hk : c.work = some k)
    (h : ∀ previous built, k.stage ≠ .installed previous built) (g : Generation) :
    ¬ c.Replaces g := by
  rw [Client.replaces_iff hk]
  rintro ⟨built, hstage⟩
  exact h _ _ hstage

/-- Nobody takes hold of anything, and what was put into use keeps its file. -/
structure Spares (home : List String) (s : Session) (w : Workspace) : Prop where
  readers : w.readers = s.workspace.readers
  retired : w.retired = s.workspace.retired
  file : ∀ e ∈ s.installed, HasFile home s.workspace.tree e.1 → HasFile home w.tree e.1

theorem Spares.of_tree {w : Workspace} (hreaders : w.readers = s.workspace.readers)
    (hretired : w.retired = s.workspace.retired) (htree : w.tree = s.workspace.tree) :
    Spares home s w :=
  ⟨hreaders, hretired, fun _ _ hfile => htree ▸ hfile⟩

/-- A shelf that has all that was put into use. -/
theorem Spares.of_turns {shelf' : Shelf} {tree : FileTree} (h : Inv home s shelf named)
    (hturns : Shelf.Turns home s.workspace.tree tree shelf')
    (hstore : ∀ e ∈ s.installed, shelf'.store e.1 = shelf.store e.1) :
    Spares home s { s.workspace with tree } := by
  refine ⟨rfl, rfl, fun e he hfile => ?_⟩
  rw [h.isAt.hasFile_iff] at hfile
  rw [hturns.isAt.hasFile_iff, hstore e he]
  exact hfile

/-- A handle that holds the generation in use looks no further. -/
theorem Inv.refresh_eq (h : Inv home s shelf named) (hc : s.client n = some c)
    (hsettled : Settled shelf c.project) :
    c.project.refresh s.workspace = (s.workspace, c.project) := by
  have hpointer := h.isAt.readCurrent_eq (h.clients n c hc).lies
  rw [Settled] at hsettled
  cases hcurrent : c.project.current with
  | none =>
      rw [hcurrent] at hsettled
      rw [← hsettled] at hpointer
      rw [Project.refresh, hpointer]
      rfl
  | some g =>
      rw [hcurrent] at hsettled
      rw [← hsettled] at hpointer
      exact Project.refresh_eq_self hcurrent hpointer

/-- A build takes one step: it puts its generation into use, or it retires the one before, or else
it spares whatever readers may hold. -/
theorem Inv.advance_cases (h : Inv home s shelf named) (hbusy : s.Busy n c k)
    (hsettled : Settled shelf c.project) :
    (∃ w k', s.advance home n c k = s.update n w (some { c with work := some k' }) ∧
      Spares home s w ∧ (∀ previous built, k'.stage ≠ .installed previous built) ∧
      ∀ previous built, k.stage ≠ .installed previous built) ∨
    (∃ g built tree, k.stage = .opened g built ∧ Spares home s { s.workspace with tree } ∧
      s.advance home n c k = { s.update n { s.workspace with tree } (some { c with
          project := { c.project with current := some g }
          work := some { k with stage := .installed c.project.current built } }) with
        installed := (g.id, storeIn home tree g.id) :: s.installed }) ∨
    ∃ previous built, k.stage = .installed previous built ∧
      s.advance home n c k = s.update n (Project.retired s.workspace previous)
        (some { c with work := some { k with stage := .ended (.ok built) } }) := by
  have hlies := (h.clients n c hbusy.1).lies
  have hproper := h.proper n c k hbusy
  have hmoves := k.moves s.workspace c.project
  generalize hadvance : k.advance s.workspace c.project = next at hmoves
  cases hmoves with
  | looks hstage =>
      -- it finds no newer generation, for it holds the one in use
      rw [h.refresh_eq hbusy.1 hsettled] at hadvance
      exact Or.inl ⟨_, _, advance_eq hadvance (by simp), .of_tree rfl rfl rfl, by simp, by simp [hstage]⟩
  | givesUp hstage | prepares hstage | failsToFill hstage | failsToOpen hstage =>
      exact Or.inl ⟨_, _, advance_eq hadvance (by simp), .of_tree rfl rfl rfl, by simp, by simp [hstage]⟩
  | rests hstage =>
      exact Or.inl ⟨_, _, advance_eq hadvance (by simp [hstage]), .of_tree rfl rfl rfl,
        by simp [hstage], by simp [hstage]⟩
  | failsToCreate hstage hcreate => exact absurd hcreate (h.create_ne_error hbusy hstage _)
  | creates hstage hcreate =>
      rw [hstage] at hproper
      obtain ⟨-, hnew, hfree⟩ := hproper
      obtain ⟨-, rfl⟩ := (h.isAt.create_ok_iff hlies).mp hcreate
      refine Or.inl ⟨_, _, advance_eq hadvance (by simp), ?_, by simp, by simp [hstage]⟩
      exact .of_turns h (h.isAt.stored hlies hfree hnew.1 _)
        fun e he => Shelf.store_put_of_ne _ _ (h.lt_of_new hnew he).ne
  | @fills i _ _ _ _ hstage hfacts hfill =>
      rw [hstage] at hproper
      obtain ⟨-, hnew, hsome⟩ := hproper
      obtain ⟨store, -, -, rfl⟩ := (Project.fill_ok_iff hlies (h.isAt.not_directory i)).mp hfill
      refine Or.inl ⟨_, _, advance_eq hadvance (by simp), ?_, by simp, by simp [hstage]⟩
      exact .of_turns h (h.isAt.set hlies hsome store)
        fun e he => Shelf.store_put_of_ne _ _ (h.lt_of_new hnew he).ne
  | opens hstage hopen =>
      obtain rfl := ((Workspace.openGeneration_ok_iff _ _ _ _ _).mp hopen).2
      exact Or.inl ⟨_, _, advance_eq hadvance (by simp), .of_tree rfl rfl rfl, by simp, by simp [hstage]⟩
  | failsToInstall hstage hwrite => exact absurd hwrite (h.writeCurrent_ne_error hbusy hstage _)
  | installs hstage hwrite =>
      -- the pointer changes, and no file of a generation
      rw [hstage] at hproper
      have hturns := (h.isAt.writeCurrent hlies hproper.2.1.1).2
      rw [hwrite] at hturns
      exact Or.inr (Or.inl ⟨_, _, _, hstage, .of_turns h hturns fun _ _ => rfl,
        advance_installed hstage hadvance⟩)
  | retires hstage => exact Or.inr (Or.inr ⟨_, _, hstage, advance_eq hadvance (by simp)⟩)
  | undoes hstage =>
      rw [hstage] at hproper
      refine Or.inl ⟨_, _, advance_eq hadvance (by simp), ?_, by simp, by simp [hstage]⟩
      exact .of_turns h (h.isAt.removeStore hlies _)
        fun e he => Shelf.store_drop_of_ne _ (h.lt_of_new hproper he).ne

/-! ## One handle alone -/

/-- What holds if one handle works alone: it holds the generation in use, and readers hold that one
or one that it has replaced. Those that were replaced have different numbers, and their files are
there. -/
structure Sole (home : List String) (s : Session) (c : Client) : Prop where
  client : s.client = fun n => if n = 0 then some c else none
  settled : c.project.current.map Generation.id = s.installed.head?.map Prod.fst
  kept : ∀ r ∈ s.workspace.readers,
    c.project.current = some r ∨ r ∈ s.workspace.retired ∨ c.Replaces r
  file : ∀ r, r ∈ s.workspace.retired ∨ c.Replaces r → HasFile home s.workspace.tree r.id
  apart : ∀ r ∈ s.workspace.retired, ∀ r' ∈ s.workspace.retired, r.id = r'.id → r = r'
  before : ∀ g, c.Replaces g → ∀ r ∈ s.workspace.retired, r.id ≠ g.id

namespace Sole

theorem client_eq (h : Sole home s c) {c' : Client} (hc : s.client n = some c') :
    n = 0 ∧ c' = c := by
  rw [h.client] at hc
  by_cases hn : n = 0
  · simp only [hn, if_true, Option.some.injEq] at hc
    exact ⟨hn, hc.symm⟩
  · simp only [hn, if_false] at hc
    cases hc

theorem client_zero (h : Sole home s c) : s.client 0 = some c := by
  rw [h.client]
  rfl

theorem client_update (h : Sole home s c) (c' : Client) :
    Function.update s.client 0 (some c') = fun n => if n = 0 then some c' else none := by
  funext n
  rw [Function.update_apply, h.client]
  by_cases hn : n = 0 <;> simp [hn]

theorem settled_shelf (h : Sole home s c) (hinv : Inv home s shelf named) :
    Settled shelf c.project := by
  rw [Settled, h.settled, hinv.current]

/-- What is held or was replaced was put into use. -/
theorem installed_of_replaced (h : Sole home s c) (hinv : Inv home s shelf named) {r : Generation}
    (hr : r ∈ s.workspace.retired ∨ c.Replaces r) : ∃ e ∈ s.installed, e.1 = r.id := by
  rcases hr with hr | ⟨k, built, hk, hstage⟩
  · obtain ⟨store, hmem, -⟩ := (hinv.retired r hr).1.recorded
    exact ⟨_, hmem, rfl⟩
  · have hproper := hinv.proper 0 c k ⟨h.client_zero, hk⟩
    rw [hstage] at hproper
    obtain ⟨store, hmem, -⟩ := (hproper.2.1 r rfl).1.recorded
    exact ⟨_, hmem, rfl⟩

/-- It stays so if the handle goes on with what readers hold being spared. -/
theorem spares (h : Sole home s c) (hinv : Inv home s shelf named) (hspares : Spares home s w)
    {c' : Client} (hcurrent : c'.project.current = c.project.current)
    (hreplaces : ∀ g, c'.Replaces g ↔ c.Replaces g) : Sole home (s.update 0 w (some c')) c' where
  client := h.client_update c'
  settled := by
    rw [hcurrent]
    exact h.settled
  kept := fun r hr => by
    rw [hcurrent, hreplaces]
    rw [update, hspares.readers] at hr
    rw [update, hspares.retired]
    exact h.kept r hr
  file := fun r hr => by
    rw [hreplaces, update, hspares.retired] at hr
    obtain ⟨e, he, hid⟩ := h.installed_of_replaced hinv hr
    rw [← hid]
    refine hspares.file e he ?_
    rw [hid]
    exact h.file r hr
  apart := by
    rw [update, hspares.retired]
    exact h.apart
  before := fun g hg r hr => by
    rw [update, hspares.retired] at hr
    exact h.before g ((hreplaces g).mp hg) r hr

/-- The handle alone takes over nothing that was or is in use. -/
theorem take_eq (h : Sole home s c) (hinv : Inv home s shelf named)
    (hg : Known home s.workspace s.installed named g) : c.project.take g = c.project :=
  (h.settled_shelf hinv).take_eq (hinv.known_le hg)

/-- Its questions change nothing. -/
theorem put_eq (h : Sole home s c) (hinv : Inv home s shelf named) (q : Project.Query) :
    (q.put s.workspace c.project).1 = s.workspace ∧
      (q.put s.workspace c.project).2.1 = c.project := by
  have hrefresh := hinv.refresh_eq h.client_zero (h.settled_shelf hinv)
  rcases q.put_refreshes s.workspace c.project with hput | hput
  · rw [hrefresh] at hput
    exact Prod.mk.inj hput
  · rw [hrefresh, hrefresh] at hput
    exact Prod.mk.inj hput

/-- A reader lets go. -/
theorem releases (h : Sole home s c) (hinv : Inv home s shelf named)
    (hg : g ∈ s.workspace.readers) :
    Sole home { s with workspace := s.workspace.release g } c := by
  have hknown := hinv.readers g hg
  rcases s.workspace.release_cases g with ⟨hw, -⟩ | ⟨hw, hgone, r, hr, htoken⟩
  · rw [hw]
    exact { h with kept := fun r hr => h.kept r (Workspace.mem_of_mem_eraseReader hr) }
  · -- the generation that goes away is the one that was held
    obtain rfl : r = g := by
      rw [← (hinv.retired r hr).1.named, ← hknown.named, htoken]
    obtain ⟨d, hd, hpath⟩ := hknown.path
    have hother : ∀ {id}, id ≠ r.id → HasFile home s.workspace.tree id →
        HasFile home (removeStore s.workspace.tree (d.fileFor r.id)) id := by
      intro id hid hfile
      rw [hinv.isAt.hasFile_iff] at hfile
      rw [(hinv.isAt.removeStore hd r.id).isAt.hasFile_iff, Shelf.store_drop_of_ne _ hid]
      exact hfile
    rw [hw, hpath]
    exact {
      client := h.client
      settled := h.settled
      kept := fun r' hr' => by
        have hother : r'.token ≠ r.token := by
          intro htoken'
          rw [Workspace.isHeld, List.any_eq_false] at hgone
          exact hgone r' hr' (decide_eq_true htoken')
        refine (h.kept r' (Workspace.mem_of_mem_eraseReader hr')).imp_right (Or.imp_left fun hret => ?_)
        exact List.mem_filter.mpr ⟨hret, decide_eq_true hother⟩
      file := fun r' hr' => by
        rcases hr' with hr' | hr'
        · obtain ⟨hr', htoken'⟩ := List.mem_filter.mp hr'
          refine hother (fun hid => of_decide_eq_true htoken' ?_) (h.file r' (Or.inl hr'))
          rw [h.apart r' hr' r hr hid]
        · exact hother (h.before r' hr' r hr).symm (h.file r' (Or.inr hr'))
      apart := fun r₁ hr₁ r₂ hr₂ =>
        h.apart r₁ (List.mem_filter.mp hr₁).1 r₂ (List.mem_filter.mp hr₂).1
      before := fun g' hg' r' hr' => h.before g' hg' r' (List.mem_filter.mp hr').1 }

/-- Its build puts a generation into use. The one that was in use is replaced, and has its file. -/
theorem installs (h : Sole home s c) (hinv : Inv home s shelf named) (hk : c.work = some k)
    {built : Project.Built} (hstage : k.stage = .opened g built) {tree : FileTree}
    (hspares : Spares home s { s.workspace with tree }) {store : Store} {c' : Client}
    (hc' : c' = { c with
      project := { c.project with current := some g }
      work := some { k with stage := .installed c.project.current built } }) :
    Sole home { s.update 0 { s.workspace with tree } (some c') with
      installed := (g.id, store) :: s.installed } c' := by
  subst hc'
  have hcurrent : ∀ {r}, c.project.current = some r → shelf.current = some r.id := by
    intro r hr
    have hsettled := h.settled_shelf hinv
    rw [Settled, hr] at hsettled
    exact hsettled.symm
  have hreplaced : ∀ {r}, Client.Replaces { c with
      project := { c.project with current := some g }
      work := some { k with stage := .installed c.project.current built } } r →
      c.project.current = some r := by
    intro r hr
    obtain ⟨built', hinstalled⟩ := (Client.replaces_iff rfl).mp hr
    exact (Stage.installed.inj hinstalled).1
  exact {
    client := h.client_update _
    settled := rfl
    kept := fun r hr => by
      rcases h.kept r hr with hr | hr | hr
      · -- who held the generation in use holds the one that is replaced
        exact Or.inr (Or.inr ⟨_, built, rfl, by rw [hr]⟩)
      · exact Or.inr (Or.inl hr)
      · exact absurd hr (not_replaces_of_stage hk (by simp [hstage]) r)
    file := fun r hr => by
      rcases hr with hr | hr
      · obtain ⟨e, he, hid⟩ := h.installed_of_replaced hinv (Or.inl hr)
        have hfile := hspares.file e he
        rw [hid] at hfile
        exact hfile (h.file r (Or.inl hr))
      · obtain ⟨e, he, hid⟩ := Option.map_eq_some_iff.mp
          (hinv.current.symm.trans (hcurrent (hreplaced hr)))
        have hfile := hspares.file e (List.mem_of_mem_head? he)
        rw [hid, hinv.isAt.hasFile_iff] at hfile
        exact hfile (hinv.stocked r.id (hcurrent (hreplaced hr)))
    apart := h.apart
    before := fun g' hg' r hr => by
      obtain ⟨-, -, i, hi, hlt⟩ := hinv.retired r hr
      rw [hcurrent (hreplaced hg')] at hi
      exact Option.some.inj hi ▸ hlt.ne }

/-- The generation that was replaced is left to its readers. -/
theorem leaves (h : Sole home s c) (hg : c.Replaces g) {c' : Client}
    (hcurrent : c'.project.current = c.project.current) (hnone : ∀ r, ¬ c'.Replaces r) :
    Sole home (s.update 0 { s.workspace with retired := g :: s.workspace.retired } (some c')) c' where
  client := h.client_update c'
  settled := by
    rw [hcurrent]
    exact h.settled
  kept := fun r hr => by
    rw [hcurrent]
    rcases h.kept r hr with hr | hr | hr
    · exact Or.inl hr
    · exact Or.inr (Or.inl (List.mem_cons_of_mem _ hr))
    · obtain rfl := hg.unique hr
      exact Or.inr (Or.inl List.mem_cons_self)
  file := fun r hr => by
    rcases hr with hr | hr
    · rcases List.mem_cons.mp hr with rfl | hr
      · exact h.file r (Or.inr hg)
      · exact h.file r (Or.inl hr)
    · exact absurd hr (hnone r)
  apart := fun r hr r' hr' hid => by
    -- the new one has a number of its own
    rcases List.mem_cons.mp hr with hsame | hr <;> rcases List.mem_cons.mp hr' with hsame' | hr'
    · exact hsame.trans hsame'.symm
    · exact absurd (hsame ▸ hid).symm (h.before g hg r' hr')
    · exact absurd (hsame' ▸ hid) (h.before g hg r hr)
    · exact h.apart r hr r' hr' hid
  before := fun g' hg' => absurd hg' (hnone g')

/-- The file of the generation that was replaced is removed, since nobody reads it. -/
theorem removes (h : Sole home s c) (hinv : Inv home s shelf named) (hg : c.Replaces g)
    (hfree : s.workspace.isHeld g = false) {c' : Client}
    (hcurrent : c'.project.current = c.project.current) (hnone : ∀ r, ¬ c'.Replaces r) :
    Sole home (s.update 0 { s.workspace with
      tree := removeStore s.workspace.tree (c.project.directory.fileFor g.id) } (some c')) c' where
  client := h.client_update c'
  settled := by
    rw [hcurrent]
    exact h.settled
  kept := fun r hr => by
    rw [hcurrent]
    rcases h.kept r hr with hr' | hr' | hr'
    · exact Or.inl hr'
    · exact Or.inr (Or.inl hr')
    · obtain rfl := hg.unique hr'
      rw [Workspace.isHeld, List.any_eq_false] at hfree
      exact absurd (decide_eq_true rfl) (hfree g hr)
  file := fun r hr => by
    have hturns := hinv.isAt.removeStore (hinv.clients 0 c h.client_zero).lies g.id
    rcases hr with hr | hr
    · refine (hturns.isAt.hasFile_iff r.id).mpr ?_
      rw [Shelf.store_drop_of_ne _ (h.before g hg r hr)]
      exact (hinv.isAt.hasFile_iff r.id).mp (h.file r (Or.inl hr))
    · exact absurd hr (hnone r)
  apart := h.apart
  before := fun g' hg' => absurd hg' (hnone g')

/-- Its build has ended, and retires what it has replaced. -/
theorem retires (h : Sole home s c) (hinv : Inv home s shelf named) (hk : c.work = some k)
    {previous : Option Generation} {built : Project.Built}
    (hstage : k.stage = .installed previous built) {c' : Client}
    (hcurrent : c'.project.current = c.project.current) (hnone : ∀ r, ¬ c'.Replaces r) :
    Sole home (s.update 0 (Project.retired s.workspace previous) (some c')) c' := by
  cases previous with
  | none =>
      refine h.spares hinv (.of_tree rfl rfl rfl) hcurrent fun r => iff_of_false (hnone r) ?_
      rw [Client.replaces_iff hk]
      rintro ⟨built', hinstalled⟩
      cases hstage.symm.trans hinstalled
  | some g =>
      have hg : c.Replaces g := ⟨k, built, hk, hstage⟩
      rw [Project.retired, Workspace.retire]
      split
      · exact h.leaves hg hcurrent hnone
      · rename_i hfree
        have hproper := hinv.proper 0 c k ⟨h.client_zero, hk⟩
        rw [hstage] at hproper
        obtain ⟨-, hpath, -⟩ := hproper.2.1 g rfl
        rw [hpath]
        exact h.removes hinv hg (Bool.eq_false_iff.mpr hfree) hcurrent hnone

/-- Its build takes a step. -/
theorem advances (h : Sole home s c) (hinv : Inv home s shelf named) (hk : c.work = some k) :
    ∃ c', Sole home (s.advance home 0 c k) c' := by
  rcases hinv.advance_cases ⟨h.client_zero, hk⟩ (h.settled_shelf hinv) with
    ⟨w, k', hadvance, hspares, hnext, hnow⟩ | ⟨g, built, tree, hstage, hspares, hadvance⟩ |
    ⟨previous, built, hstage, hadvance⟩
  · rw [hadvance]
    exact ⟨_, h.spares hinv hspares rfl fun g =>
      iff_of_false (not_replaces_of_stage rfl hnext g) (not_replaces_of_stage hk hnow g)⟩
  · rw [hadvance]
    exact ⟨_, h.installs hinv hk hstage hspares rfl⟩
  · rw [hadvance]
    exact ⟨_, h.retires hinv hk hstage rfl (not_replaces_of_stage rfl (by simp))⟩

/-- Its build takes the lock, and begins. -/
theorem begins (h : Sole home s c) (hinv : Inv home s shelf named) (hidle : c.work = none)
    (request : BuildRequest) (hlock : s.workspace.lock c.project.directory = (w, .ok true)) :
    Sole home (s.update 0 w (some { c with work := some { request, origin := w.tree } }))
      { c with work := some { request, origin := w.tree } } := by
  have hlies := (hinv.clients _ _ h.client_zero).lies
  have hturns := hinv.isAt.lock hlies
  have hw := (Workspace.lock_of_ok hlies hinv.isAt.wellFormed (by rw [hlock])).1
  rw [hlock] at hturns hw
  dsimp only at hturns hw
  have hfile : ∀ e ∈ s.installed, HasFile home s.workspace.tree e.1 → HasFile home w.tree e.1 :=
    fun e _ hfile => (hturns.isAt.hasFile_iff e.1).mpr ((hinv.isAt.hasFile_iff e.1).mp hfile)
  exact h.spares hinv ⟨by rw [hw], by rw [hw], hfile⟩ rfl fun g => iff_of_false
    (not_replaces_of_stage rfl (by simp) g) (Client.not_replaces_of_idle hidle g)

/-- Its build has an answer, and lets go of the lock. -/
theorem ends (h : Sole home s c) (hinv : Inv home s shelf named) (hk : c.work = some k)
    {answer : Except Fault Project.Built} (hstage : k.stage = .ended answer) :
    Sole home (s.update 0 (s.workspace.unlock c.project.directory) (some { c with work := none }))
      { c with work := none } := by
  have hlocked := hinv.locked _ _ _ ⟨h.client_zero, hk⟩
  have hw := Workspace.unlock_eq (hinv.clients _ _ h.client_zero).lies hlocked.2
  exact h.spares hinv (.of_tree (by rw [hw]) (by rw [hw]) (by rw [hw])) rfl fun g =>
    iff_of_false (Client.not_replaces_of_idle rfl g)
      (not_replaces_of_stage hk (by simp [hstage]) g)

/-- A reader takes hold of the generation in use. -/
theorem holds (h : Sole home s c) (hg : c.project.current = some g) :
    Sole home { s with workspace := s.workspace.hold g } c :=
  { h with
    kept := fun r hr => (List.mem_cons.mp hr).elim (fun hsame => Or.inl (hsame ▸ hg)) (h.kept r) }

end Sole

/-! ## Every step -/

variable {venue : Venue} {s' : Session}

/-- A handle that is alone stays alone, unless others are let in. -/
theorem Sole.step (h : Sole venue.home s c) (hinv : Inv venue.home s shelf named)
    (halone : ¬ venue.shared) (hstep : Step venue s s') : ∃ c', Sole venue.home s' c' := by
  cases hstep with
  | opening hshared | arriving hshared | closing hshared => exact absurd hshared halone
  | asking q hc =>
      obtain ⟨rfl, rfl⟩ := h.client_eq hc
      obtain ⟨hw, hp⟩ := h.put_eq hinv q
      rw [hw, hp, update_eq_self hc]
      exact ⟨_, h⟩
  | finding hc _ hopen =>
      obtain ⟨rfl, rfl⟩ := h.client_eq hc
      have hw := ((Workspace.openGeneration_ok_iff _ _ _ _ _).mp hopen).2
      exact ⟨_, h.spares hinv (.of_tree (by rw [hw]) (by rw [hw]) (by rw [hw])) rfl
        fun _ => Iff.rfl⟩
  | taking hc hg =>
      obtain ⟨rfl, rfl⟩ := h.client_eq hc
      rw [h.take_eq hinv ((hinv.clients _ _ hc).found _ hg).1, update_eq_self hc]
      exact ⟨_, h⟩
  | beginning request hc hidle hlock =>
      obtain ⟨rfl, rfl⟩ := h.client_eq hc
      exact ⟨_, h.begins hinv hidle request hlock⟩
  | refusing hc hheld =>
      obtain ⟨rfl, rfl⟩ := h.client_eq hc
      rw [Workspace.lock_of_not_ok (hinv.clients _ _ hc).lies hinv.isAt.wellFormed hheld,
        update_eq_self hc]
      exact ⟨_, h⟩
  | advancing hc hk =>
      obtain ⟨rfl, rfl⟩ := h.client_eq hc
      exact h.advances hinv hk
  | stopping hc hk hstop =>
      obtain ⟨rfl, rfl⟩ := h.client_eq hc
      obtain ⟨hnow, hnext⟩ := Stage.ne_installed_of_stopped hstop
      exact ⟨_, h.spares hinv (.of_tree rfl rfl rfl) rfl fun g => iff_of_false
        (not_replaces_of_stage rfl hnext g) (not_replaces_of_stage hk hnow g)⟩
  | ending hc hk hstage =>
      obtain ⟨rfl, rfl⟩ := h.client_eq hc
      exact ⟨_, h.ends hinv hk hstage⟩
  | holding hc hg =>
      obtain ⟨rfl, rfl⟩ := h.client_eq hc
      exact ⟨_, h.holds hg⟩
  | releasing hg => exact ⟨_, h.releases hinv hg⟩
  | elsewhere hwf hlies hsame =>
      exact ⟨c, { h with
        file := fun r hr => by
          rw [HasFile, hsame]
          exact h.file r hr }⟩

/-- The first handle is alone. -/
theorem Sole.start {w w' : Workspace} {root : Path} {settings : Settings}
    {model : Option EmbeddingModel} {p : Project}
    (hopen : Project.openAt w root settings model = (w', .ok p)) (hreaders : w.readers = [])
    (hretired : w.retired = []) : Sole home (first home w' p) { project := p } := by
  obtain ⟨hreaders', hretired'⟩ := Project.openAt_readers hopen
  have hnone := Client.not_replaces_of_idle (c := { project := p }) rfl
  exact {
    client := rfl
    settled := by
      rw [first]
      cases p.current <;> rfl
    kept := fun r hr => by
      rw [first, hreaders', hreaders] at hr
      cases hr
    file := fun r hr => by
      rw [first, hretired', hretired] at hr
      rcases hr with hr | hr
      · cases hr
      · exact absurd hr (hnone r)
    apart := fun r hr => by
      rw [first, hretired', hretired] at hr
      cases hr
    before := fun g hg => absurd hg (hnone g) }

namespace Sole

/-- The last reader of a generation that was replaced takes the file away. -/
theorem last (h : Sole home s c) (hinv : Inv home s shelf named) (hquiet : s.Quiet)
    (hg : g ∈ s.workspace.readers) (hreplaced : s.installed.head?.map Prod.fst ≠ some g.id)
    (hgone : (s.workspace.release g).isHeld g = false) :
    (s.workspace.release g).tree.item? (home ++ [nameOf g.id]) = none := by
  have hretired : g ∈ s.workspace.retired := by
    rcases h.kept g hg with hcurrent | hretired | ⟨k, built, hk, -⟩
    · refine absurd ?_ hreplaced
      rw [← h.settled, hcurrent]
      rfl
    · exact hretired
    · have hidle := hquiet 0 c h.client_zero
      rw [hk] at hidle
      cases hidle
  obtain ⟨d, hd, hpath⟩ := (hinv.readers g hg).path
  rcases s.workspace.release_cases g with ⟨hw, hstill⟩ | ⟨hw, -⟩
  · have hheld := hstill g hretired rfl
    rw [hw] at hgone
    rw [hgone] at hheld
    cases hheld
  · rw [hw, hpath, (hinv.isAt.removeStore hd g.id).isAt.files, Shelf.store_drop_self]
    rfl

end Sole

end Session

end SourceIndex
