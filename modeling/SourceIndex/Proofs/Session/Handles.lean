import Mathlib
import SourceIndex.Proofs.Session.Stages

/-! # Handles come and go

A handle that is opened takes the lock for a moment, if it is free, and clears away all stores but
the one in use; nobody builds meanwhile. So what holds of a session holds from its first handle on
(`Session.Inv.start`) and after every step (`Session.Inv.step`), that is, throughout every run
(`Session.Run.inv`).
-/

set_option autoImplicit false

namespace SourceIndex

open IndexDirectory

-- names of files are not to be computed
attribute [local irreducible] nameOf journalName removeStore Project.buildLocked

namespace Project

variable {home : List String} {w : Workspace} {shelf : Shelf} {d : IndexDirectory} {id : Nat}

theorem loadCurrent_of_none (h : shelf.IsAt w.tree home) (hd : d.LiesAt w.tree home)
    (hcurrent : shelf.current = none) : loadCurrent w d = (w, none) := by
  rw [loadCurrent, h.readCurrent_eq hd, hcurrent]

/-- A new handle has the generation in use. -/
theorem loadCurrent_of_some (h : shelf.IsAt w.tree home) (hd : d.LiesAt w.tree home)
    (hcurrent : shelf.current = some id) {store : Store} (hstore : shelf.store id = some store)
    {facts : BuildFacts} (hfacts : store.facts = some facts)
    (hschema : facts.schema = Store.schemaVersion) :
    loadCurrent w d = ({ w with nextToken := w.nextToken + 1 },
      some { token := w.nextToken, id, path := d.fileFor id, facts }) := by
  have hopen : w.openGeneration id (d.fileFor id) =
      .ok ({ w with nextToken := w.nextToken + 1 }, ⟨w.nextToken, id, d.fileFor id, facts⟩) :=
    (h.openGeneration_iff hd).mpr ⟨store, hstore, hfacts, hschema, rfl, rfl⟩
  rw [loadCurrent, h.readCurrent_eq hd, hcurrent]
  simp only [hopen]

/-- It is the same one if other stores than that are different. -/
theorem loadCurrent_withTree {shelf' : Shelf} {tree : FileTree} (h : shelf.IsAt w.tree home)
    (hd : d.LiesAt w.tree home) (h' : shelf'.IsAt tree home) (hd' : d.LiesAt tree home)
    (hcurrent : shelf'.current = shelf.current)
    (hstores : ∀ id, shelf.current = some id → shelf'.store id = shelf.store id)
    (hvalid : ∀ id, shelf.current = some id → ∃ store facts, shelf.store id = some store ∧
      store.facts = some facts ∧ facts.schema = Store.schemaVersion) :
    loadCurrent { w with tree } d =
      ({ (loadCurrent w d).1 with tree }, (loadCurrent w d).2) := by
  cases hid : shelf.current with
  | none =>
      rw [loadCurrent_of_none h hd hid,
        loadCurrent_of_none (w := { w with tree }) h' hd' (hcurrent.trans hid)]
  | some id =>
      obtain ⟨store, facts, hstore, hfacts, hschema⟩ := hvalid id hid
      rw [loadCurrent_of_some h hd hid hstore hfacts hschema,
        loadCurrent_of_some (w := { w with tree }) h' hd' (hcurrent.trans hid)
          ((hstores id hid).trans hstore) hfacts hschema]

end Project

namespace Session

variable {home : List String} {s : Session} {shelf : Shelf} {w : Workspace}
  {named : Nat → Generation} {c : Client} {n : Nat} {d : IndexDirectory} {tree : FileTree}

namespace Inv

/-- A handle that does not build comes or goes. -/
theorem replaces (h : Inv home s shelf named) (hidle : ∀ c k, ¬ s.Busy n c k)
    (new : Option Client)
    (hnew : ∀ c, new = some c → c.work = none ∧ Attached home s.workspace s.installed named c) :
    Inv home (s.update n s.workspace new) shelf named := by
  have hbusy : ∀ {m c k}, (s.update n s.workspace new).Busy m c k ↔ s.Busy m c k := by
    intro m c k
    by_cases hm : m = n
    · subst hm
      refine ⟨fun ⟨hc, hk⟩ => ?_, fun hb => absurd hb (hidle c k)⟩
      rw [update_self] at hc
      rw [(hnew c hc).1] at hk
      cases hk
    · exact busy_update_of_ne hm
  refine { h with
    clients := fun m c hc => ?_
    alone := fun m m' c c' k k' hb hb' => h.alone m m' c c' k k' (hbusy.mp hb) (hbusy.mp hb')
    locked := fun m c k hb => h.locked m c k (hbusy.mp hb)
    proper := fun m c k hb => h.proper m c k (hbusy.mp hb)
    started := fun m c k hb => h.started m c k (hbusy.mp hb)
    accounted := fun id hid => (h.accounted id hid).imp_right
      (Or.imp_right fun ⟨m, c, k, hb, howns⟩ => ⟨m, c, k, hbusy.mpr hb, howns⟩) }
  by_cases hm : m = n
  · subst hm
    rw [update_self] at hc
    exact (hnew c hc).2
  · rw [update_of_ne s hm] at hc
    exact h.clients m c hc

/-! ## Opening a handle -/

/-- The lock is asked for. -/
theorem locks (h : Inv home s shelf named) (hd : d.LiesAt s.workspace.tree home) :
    Inv home { s with workspace := (s.workspace.lock d).1 } shelf named := by
  by_cases hok : (s.workspace.lock d).2 = .ok true
  · obtain ⟨hw, -, -⟩ := Workspace.lock_of_ok hd h.isAt.wellFormed hok
    rw [hw]
    exact h.passes (h.isAt.lock hd) (fun m c k hb => absurd hb (h.idle_of_lock hd hok m c k)) le_rfl
      fun _ _ => rfl
  · rw [Workspace.lock_of_not_ok hd h.isAt.wellFormed hok]
    exact h

/-- The lock is given back, and nobody builds. -/
theorem unlocks (h : Inv home s shelf named) (hidle : ∀ m c k, ¬ s.Busy m c k) :
    Inv home { s with workspace := s.workspace.unlock d } shelf named := by
  rw [Workspace.unlock]
  split
  · exact h.passes h.isAt.refl (fun m c k hb => absurd hb (hidle m c k)) le_rfl fun _ _ => rfl
  · exact h

/-- The generation in use is opened. -/
theorem loads (h : Inv home s shelf named) (hd : d.LiesAt s.workspace.tree home) :
    (Project.loadCurrent s.workspace d).2.map Generation.id = shelf.current ∧
    ∃ named', Inv home { s with workspace := (Project.loadCurrent s.workspace d).1 } shelf named' ∧
      ∀ g, (Project.loadCurrent s.workspace d).2 = some g →
        Known home (Project.loadCurrent s.workspace d).1 s.installed named' g ∧
          g.path = d.fileFor g.id := by
  cases hhead : s.installed.head? with
  | none =>
      have hcurrent : shelf.current = none := by rw [h.current, hhead]; rfl
      rw [Project.loadCurrent_of_none h.isAt hd hcurrent, hcurrent]
      exact ⟨rfl, named, h, fun _ hg => nomatch hg⟩
  | some e =>
      have hmem : (e.1, e.2) ∈ s.installed := List.mem_of_mem_head? hhead
      obtain ⟨hcurrent, hstore⟩ := h.store_current hhead
      obtain ⟨facts, hfacts, hschema⟩ := h.valid _ hmem
      have hopen : s.workspace.openGeneration e.1 (d.fileFor e.1) =
          .ok ({ s.workspace with nextToken := s.workspace.nextToken + 1 },
            ⟨s.workspace.nextToken, e.1, d.fileFor e.1, facts⟩) :=
        (h.isAt.openGeneration_iff hd).mpr ⟨e.2, hstore, hfacts, hschema, rfl, rfl⟩
      obtain ⟨named', hopened, hknown, hpath⟩ := h.opens hd hmem hopen
      rw [Project.loadCurrent_of_some h.isAt hd hcurrent hstore hfacts hschema, hcurrent]
      refine ⟨rfl, named', hopened, fun g hg => ?_⟩
      obtain rfl := Option.some.inj hg
      exact ⟨hknown, hpath⟩

/-- All stores but the one in use are cleared away while nobody builds. -/
theorem sweeps (h : Inv home s shelf named) (hidle : ∀ m c k, ¬ s.Busy m c k)
    (hturns : Shelf.Turns home s.workspace.tree tree (shelf.keep shelf.current)) :
    Inv home { s with workspace := { s.workspace with tree } } (shelf.keep shelf.current) named := by
  have hlater : Later home s.workspace { s.workspace with tree } s.installed s.installed named
      named := ⟨hturns.lies, le_rfl, fun _ _ => rfl, fun _ => id⟩
  exact {
    isAt := hturns.isAt
    current := h.current
    ordered := h.ordered
    valid := h.valid
    faithful := fun e he store hstore => 
      h.faithful e he store (Shelf.store_keep_eq_some_iff.mp hstore).2
    stocked := fun id hid => by
      obtain ⟨store, hstore⟩ := Option.isSome_iff_exists.mp (h.stocked id hid)
      exact Option.isSome_iff_exists.mpr ⟨store, Shelf.store_keep_eq_some_iff.mpr ⟨hid, hstore⟩⟩
    clients := fun m c hc => (h.clients m c hc).later hlater
    readers := fun r hr => (h.readers r hr).later hlater
    retired := fun r hr => ⟨(h.retired r hr).1.later hlater, (h.retired r hr).2⟩
    alone := h.alone
    locked := fun m c k hb => absurd hb (hidle m c k)
    proper := fun m c k hb => absurd hb (hidle m c k)
    started := h.started
    accounted := fun id hid => by
      obtain ⟨store, hstore⟩ := Option.isSome_iff_exists.mp hid
      exact Or.inl (Shelf.store_keep_eq_some_iff.mp hstore).1 }

theorem opening (h : Inv home s shelf named) (hfree : s.client n = none) {root : Path}
    {settings : Settings} {model : Option EmbeddingModel} {p : Project}
    (hopen : Project.openAt s.workspace root settings model = (w, .ok p))
    (hlies : p.directory.LiesAt s.workspace.tree home) :
    ∃ shelf' named', Inv home (s.update n w (some { project := p })) shelf' named' := by
  obtain ⟨-, -, tree, hmake, hcurrent, hw⟩ := Project.openAt_spec hopen
  obtain rfl := Except.ok.inj (hlies.makeDirectory_eq.symm.trans hmake)
  have hlocked := h.locks hlies
  have hlies' := (h.isAt.lock hlies).lies _ hlies
  obtain ⟨hsettled, named', hloaded, hknown⟩ := hlocked.loads hlies'
  have hloadedLies : p.directory.LiesAt (Project.loadCurrent (s.workspace.lock p.directory).1
      p.directory).1.tree home := by
    rw [(Project.loadCurrent_spec _ _).1]
    exact hlies'
  -- the new handle is there before anything is cleared away
  have hadded := hloaded.replaces (n := n) (fun c k hb => by
      have hnone : s.client n = some c := hb.1
      rw [hfree] at hnone
      cases hnone)
    (some { project := p }) fun c hc => by
      obtain rfl := Option.some.inj hc
      exact ⟨rfl, hloadedLies, fun g hg => hknown g (hcurrent ▸ hg), fun _ hg => nomatch hg⟩
  rw [← hcurrent] at hsettled
  have hidle : (s.workspace.lock p.directory).2 = .ok true → ∀ m c k,
      ¬ (s.update n (Project.loadCurrent (s.workspace.lock p.directory).1 p.directory).1
        (some { project := p })).Busy m c k := by
    intro hok
    exact not_busy_update (h.idle_of_lock hlies hok) rfl
  rw [hw]
  split
  · rename_i hok
    have hturns := hloaded.isAt.sweep hloadedLies shelf.current
    rw [hsettled]
    have hswept := hadded.sweeps (hidle hok) hturns
    have hunlocked := hswept.unlocks (d := p.directory) (hidle hok)
    rw [(Project.loadCurrent_spec _ _).1] at hunlocked
    exact ⟨_, named', hunlocked⟩
  · exact ⟨shelf, named', hadded⟩

/-! ## The first handle -/

/-- Before the first handle is there, when all stores that were left over are cleared away. -/
theorem base (hshelf : shelf.IsAt w.tree home)
    (honly : ∀ id, (shelf.store id).isSome = true → shelf.current = some id)
    (hvalid : ∀ id, shelf.current = some id → ∃ store facts, shelf.store id = some store ∧
      store.facts = some facts ∧ facts.schema = Store.schemaVersion)
    (hreaders : w.readers = []) (hretired : w.retired = []) (named : Nat → Generation) :
    Inv home
      { workspace := w
        client := fun _ => none
        installed := (shelf.current.map fun id => (id, storeIn home w.tree id)).toList }
      shelf named := by
  have hmem : ∀ e ∈ (shelf.current.map fun id => (id, storeIn home w.tree id)).toList,
      shelf.current = some e.1 ∧ shelf.store e.1 = some e.2 := by
    intro e he
    obtain ⟨id, hid, rfl⟩ := Option.map_eq_some_iff.mp (Option.mem_toList.mp he)
    obtain ⟨store, -, hstore, -⟩ := hvalid id hid
    exact ⟨hid, by rw [hshelf.storeIn_eq hstore]; exact hstore⟩
  exact {
    isAt := hshelf
    current := by cases shelf.current <;> rfl
    ordered := by cases shelf.current <;> simp
    valid := fun e he => by
      obtain ⟨store, facts, hstore, hfacts⟩ := hvalid e.1 (hmem e he).1
      obtain rfl := Option.some.inj (hstore.symm.trans (hmem e he).2)
      exact ⟨facts, hfacts⟩
    faithful := fun e he store hstore => Option.some.inj (hstore.symm.trans (hmem e he).2)
    stocked := fun id hid => by
      obtain ⟨store, -, hstore, -⟩ := hvalid id hid
      rw [hstore]
      rfl
    clients := fun _ _ hc => nomatch hc
    readers := fun r hr => by
      rw [hreaders] at hr
      cases hr
    retired := fun r hr => by
      rw [hretired] at hr
      cases hr
    alone := fun _ _ _ _ _ _ hb => nomatch hb.1
    locked := fun _ _ _ hb => nomatch hb.1
    proper := fun _ _ _ hb => nomatch hb.1
    started := fun _ _ _ hb => nomatch hb.1
    accounted := fun id hid => Or.inl (honly id hid) }

/-- A session whose first handle holds the generation in use. -/
theorem first_eq {p : Project} (hcurrent : p.current.map Generation.id = shelf.current) :
    first home w p =
      { workspace := w
        client := Function.update (fun _ => none) 0 (some { project := p })
        installed := (shelf.current.map fun id => (id, storeIn home w.tree id)).toList } := by
  have hclient : (fun m => if m = 0 then some ({ project := p } : Client) else none) =
      Function.update (fun _ => none) 0 (some { project := p }) := by
    funext m
    rw [Function.update_apply]
  rw [first, hclient, ← hcurrent, Option.map_map]
  rfl

/-- What holds throughout a session holds when its first handle has been opened. -/
theorem start {w' : Workspace} {root : Path} {settings : Settings} {model : Option EmbeddingModel}
    {p : Project} (hopen : Project.openAt w root settings model = (w', .ok p))
    (hmake : w.tree.makeDirectory p.directory.path = .ok tree)
    (hlies : p.directory.LiesAt tree home) (hshelf : shelf.IsAt tree home)
    (hvalid : ∀ id, shelf.current = some id → ∃ store facts, shelf.store id = some store ∧
      store.facts = some facts ∧ facts.schema = Store.schemaVersion)
    (hfree : home ++ [lockName] ∉ w.locked) (hreaders : w.readers = []) (hretired : w.retired = []) :
    ∃ shelf' named', Inv home (first home w' p) shelf' named' := by
  obtain ⟨-, -, tree', hmake', hcurrent, hw⟩ := Project.openAt_spec hopen
  obtain rfl := Except.ok.inj (hmake.symm.trans hmake')
  -- the tree before the first handle, with the lock taken and cleared of all that was left over
  have hok := hshelf.lock_ok (w := { w with tree }) hlies hfree
  have hlocked := hshelf.lock (w := { w with tree }) hlies
  obtain ⟨hwlocked, -, -⟩ := Workspace.lock_of_ok (w := { w with tree }) hlies hshelf.wellFormed hok
  generalize ({ w with tree } : Workspace).lock p.directory = l at hok hlocked hwlocked hcurrent hw
  obtain ⟨w₁, free⟩ := l
  dsimp only at hok hlocked hwlocked hcurrent hw
  have hlies₁ := hlocked.lies _ hlies
  have hturns := hlocked.isAt.sweep hlies₁ shelf.current
  have hlies₂ := hturns.lies _ hlies₁
  generalize ht : p.directory.sweep w₁.tree shelf.current = swept at hturns hlies₂
  have hkept : ∀ id, shelf.current = some id →
      (shelf.keep shelf.current).store id = shelf.store id := fun id hid => if_pos hid
  have hbase := base (w := { w₁ with tree := swept }) hturns.isAt
    (fun id hid => by
      obtain ⟨store, hstore⟩ := Option.isSome_iff_exists.mp hid
      exact (Shelf.store_keep_eq_some_iff.mp hstore).1)
    (fun id hid => by
      rw [hkept id hid]
      exact hvalid id hid)
    (by rw [hwlocked]; exact hreaders) (by rw [hwlocked]; exact hretired) fun _ => default
  obtain ⟨hsettled, named', hloaded, hknown⟩ := hbase.loads hlies₂
  rw [Project.loadCurrent_withTree hlocked.isAt hlies₁ hturns.isAt hlies₂ rfl hkept hvalid,
    ← hcurrent] at hsettled hloaded hknown
  have hadded := hloaded.replaces (n := 0) (fun _ _ hb => nomatch hb.1) (some { project := p })
    fun c hc => by
      obtain rfl := Option.some.inj hc
      exact ⟨rfl, hlies₂, hknown, fun _ hg => nomatch hg⟩
  -- nobody was there before, so nobody builds
  have hunlocked := hadded.unlocks (d := p.directory) fun m c k hb => by
    by_cases hm : m = 0
    · subst hm
      obtain ⟨-, hk⟩ := busy_update_self.mp hb
      cases hk
    · exact nomatch ((busy_update_of_ne hm).mp hb).1
  have hw' : w' = { (Project.loadCurrent w₁ p.directory).1 with tree := swept }.unlock
      p.directory := by
    rw [hw, if_pos hok, hsettled, Shelf.current_keep, ht]
  refine ⟨shelf.keep shelf.current, named', ?_⟩
  rw [first_eq (hsettled.trans (Shelf.current_keep ..)), hw', Workspace.unlock_tree]
  exact hunlocked

end Inv

/-! ## Every step -/

variable {venue : Venue} {s' : Session}

/-- What holds of a session holds after each of its steps. -/
theorem Inv.step (h : Inv venue.home s shelf named) (hstep : Step venue s s') :
    ∃ shelf' named', Inv venue.home s' shelf' named' := by
  cases hstep with
  | opening _ hfree hopen hlies => exact h.opening hfree hopen hlies
  | arriving _ hfree hnone hlies =>
      refine ⟨shelf, named, h.replaces (fun c' k hb => ?_) _ fun c hc => ?_⟩
      · have hsome := hb.1
        rw [hfree] at hsome
        cases hsome
      · obtain rfl := Option.some.inj hc
        refine ⟨rfl, hlies, fun g hg => ?_, fun _ hg => nomatch hg⟩
        rw [hnone] at hg
        cases hg
  | closing _ hc hidle =>
      refine ⟨shelf, named, h.replaces (fun c' k hb => ?_) none fun _ hnew => nomatch hnew⟩
      obtain rfl := Option.some.inj (hc.symm.trans hb.1)
      have hbusy := hb.2
      rw [hidle] at hbusy
      cases hbusy
  | asking q hc =>
      obtain ⟨named', hasked⟩ := h.asking hc q
      exact ⟨shelf, named', hasked⟩
  | @finding n c id store w g hc hmem hopen =>
      obtain ⟨named', hopened, hknown, hpath⟩ := h.opens (h.clients n c hc).lies hmem hopen
      have hattached := hopened.clients n c hc
      refine ⟨shelf, named', hopened.setClient hc rfl ⟨hattached.lies, hattached.current, ?_⟩ rfl
        fun k hk => hopened.proper n c k ⟨hc, hk⟩⟩
      exact List.forall_mem_cons.mpr ⟨⟨hknown, hpath⟩, hattached.found⟩
  | @taking n c g hc hg =>
      obtain ⟨hknown, hpath⟩ := (h.clients n c hc).found g hg
      exact ⟨shelf, named, h.takes hc hknown hpath⟩
  | beginning request hc _ hlock => exact ⟨shelf, named, h.begins hc request hlock⟩
  | refusing hc hheld =>
      rw [Workspace.lock_of_not_ok (h.clients _ _ hc).lies h.isAt.wellFormed hheld,
        update_eq_self hc]
      exact ⟨shelf, named, h⟩
  | advancing hc hwork => exact h.advancing ⟨hc, hwork⟩
  | stopping hc hwork hstop => exact ⟨shelf, named, h.stops ⟨hc, hwork⟩ hstop⟩
  | ending hc hwork hstage => exact ⟨shelf, named, h.ends ⟨hc, hwork⟩ hstage⟩
  | holding hc hg => exact ⟨shelf, named, h.holds ((h.clients _ _ hc).current _ hg).1⟩
  | releasing hg =>
      obtain ⟨shelf', hreleased⟩ := h.releases hg
      exact ⟨shelf', named, hreleased⟩
  | elsewhere hwf hlies hsame =>
      exact ⟨shelf, named, h.passes (h.isAt.elsewhere hwf hlies hsame)
        (fun m c k hb => (h.locked m c k hb).1) le_rfl fun _ _ => rfl⟩

/-- A build goes on for some stages while nothing else happens. -/
theorem Run.proceeds (h : Run venue s) {c : Client} {k : Work} (hc : s.client n = some c)
    (hk : c.work = some k) (m : Nat) :
    ∃ s', Run venue s' ∧ s'.workspace = (Project.proceed m (s.workspace, c.project, k)).1 ∧
      s'.client = Function.update s.client n (some { c with
        project := (Project.proceed m (s.workspace, c.project, k)).2.1
        work := some (Project.proceed m (s.workspace, c.project, k)).2.2 }) := by
  induction m generalizing s c k with
  | zero =>
      have hself : some { c with work := some k } = s.client n := by rw [hc, ← hk]
      refine ⟨s, h, rfl, ?_⟩
      rw [Project.proceed, hself, Function.update_eq_self]
  | succ m ih =>
      have hadvanced := h.step (.advancing hc hk)
      rw [advance] at hadvanced
      rw [Project.proceed]
      generalize k.advance s.workspace c.project = next at hadvanced ⊢
      obtain ⟨w, p, next⟩ := next
      dsimp only at hadvanced ⊢
      have hself : (s.update n w (some { c with project := p, work := some next })).client n =
          some { c with project := p, work := some next } := update_self ..
      obtain ⟨s', hs', hworkspace, hclient⟩ := ih hadvanced hself rfl
      refine ⟨s', hs', hworkspace, ?_⟩
      rw [hclient, update, Function.update_idem]

/-- A whole build while nothing else happens. -/
theorem Run.builds (h : Run venue s) {c : Client} (hc : s.client n = some c) (hidle : c.work = none)
    (request : BuildRequest) :
    ∃ s', Run venue s' ∧
      s'.workspace = (Project.build s.workspace c.project request.parse request.mode
        request.options).workspace ∧
      s'.client = Function.update s.client n (some { c with
        project := (Project.build s.workspace c.project request.parse request.mode
          request.options).project }) := by
  by_cases hok : (s.workspace.lock c.project.directory).2 = .ok true
  · obtain ⟨result, answer, hresult, hstage, hbuild⟩ :=
      Project.build_eq_advance request.parse request.mode request.options hok
    obtain ⟨w, hw⟩ : ∃ w, (s.workspace.lock c.project.directory).1 = w := ⟨_, rfl⟩
    rw [hw] at hresult
    have hbegun := h.step (.beginning request hc hidle (Prod.ext hw hok))
    generalize hk : ({ request, origin := w.tree } : Work) = k at hbegun hresult
    have hself : (s.update n w (some { c with work := some k })).client n =
        some { c with work := some k } := update_self ..
    obtain ⟨s', hs', hworkspace, hclient⟩ := hbegun.proceeds hself rfl 7
    have hdirectory := Project.proceed_directory 7 w c.project k
    change s'.workspace = (Project.proceed 7 (w, c.project, k)).1 at hworkspace
    change s'.client = Function.update (Function.update s.client n _) n (some { c with
      project := (Project.proceed 7 (w, c.project, k)).2.1
      work := some (Project.proceed 7 (w, c.project, k)).2.2 }) at hclient
    rw [← hresult] at hworkspace hclient hdirectory
    have hended := hs'.step (.ending (n := n) (by rw [hclient]; exact Function.update_self ..)
      rfl hstage)
    refine ⟨_, hended, ?_, ?_⟩
    · rw [hbuild]
      dsimp only
      rw [← hworkspace, ← hdirectory]
      rfl
    · rw [hbuild]
      change Function.update s'.client n _ = _
      rw [hclient, Function.update_idem, Function.update_idem, ← hidle]
  · obtain ⟨f, hbuild⟩ := Project.build_of_not_locked hok request.parse request.mode request.options
    rw [hbuild]
    exact ⟨_, h.step (.refusing hc hok), rfl, rfl⟩

/-! ## A small session -/

/-- The small project with a directory for its index. -/
def smallMade : FileTree :=
  (Workspace.small.tree.makeDirectory Project.small.directory.path).toOption.get (by decide +kernel)

/-- The session that begins when the small project is opened. -/
theorem Run.small (hhome : venue.home = Scope.small.home) :
    Run venue (first venue.home Project.smallOpened.1 Project.small) := by
  have hopen : Project.openAt .small ⟨"/p"⟩ default none = _ := Project.smallOpened_eq
  have hmake : Workspace.small.tree.makeDirectory Project.small.directory.path = .ok smallMade :=
    Except.eq_ok_of_toOption (Option.some_get _).symm
  have hplain : ∀ e ∈ smallMade.entries, e.2.isPlain = true := by decide +kernel
  have hwf : smallMade.WellFormed := by
    constructor
    all_goals decide +kernel
  have hempty : smallMade.namesIn Scope.small.home = [] := by decide +kernel
  have hlies : Project.small.directory.LiesAt smallMade Scope.small.home :=
    ⟨by decide +kernel, by decide +kernel, fun name target hlink =>
      nomatch hplain _ (FileTree.mem_of_item? (by simp) hlink)⟩
  rw [← hhome] at hempty hlies
  exact .start hopen hmake hlies (Shelf.IsAt.of_empty hwf hempty) (fun id hid => nomatch hid)
    List.not_mem_nil rfl rfl

/-- The session in which it was built once. -/
theorem Run.smallBuilt (hhome : venue.home = Scope.small.home) :
    ∃ s, Run venue s ∧ s.workspace = Project.smallBuilt.workspace ∧
      s.client = Function.update (fun _ => none) 0 (some { project := Project.smallBuilt.project }) := by
  have hrun := Run.small hhome
  generalize hw : Project.smallOpened.1 = w at hrun
  have hclient : (first venue.home w Project.small).client =
      Function.update (fun _ => none) 0 (some { project := Project.small }) := by
    funext n
    rw [Function.update_apply]
    rfl
  obtain ⟨s, hs, hworkspace, hclient'⟩ := hrun.builds
    (by rw [hclient]; exact Function.update_self ..) rfl ⟨Scope.small.parse, .full, {}⟩
  dsimp only [first] at hworkspace hclient hclient'
  have hbuilt : Project.smallBuilt = Project.build w Project.small Scope.small.parse .full {} := by
    rw [← hw, Project.smallBuilt]
  rw [hbuilt]
  refine ⟨s, hs, hworkspace, ?_⟩
  rw [hclient', hclient, Function.update_idem]

end Session

end SourceIndex
