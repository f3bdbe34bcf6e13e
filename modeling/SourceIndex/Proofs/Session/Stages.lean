import Mathlib
import SourceIndex.Proofs.Session.Invariant

/-! # Steps of a build in a session

Each stage of a build keeps what holds of its session (`Session.Inv.advancing`), and so does the
begin, the end and the stop of a build. A build under way is alone, so whatever it does to the shelf
concerns no other build; the numbers of new generations are new, so it concerns no generation that is
in use or retired.
-/

set_option autoImplicit false

namespace SourceIndex

open IndexDirectory

-- names of files are not to be computed
attribute [local irreducible] nameOf journalName removeStore Project.buildLocked

/-- What a build starts from does not change from one stage to the next. -/
theorem Work.StartsFrom.at_stage {home : List String} {d : IndexDirectory} {k : Work}
    {e : Option (Nat × Store)} (h : k.StartsFrom home d e) {stage : Stage}
    (hstage : stage.IsBased → k.stage.IsBased) : { k with stage }.StartsFrom home d e :=
  ⟨h.pointer, h.file, fun hbased => h.base (hstage hbased)⟩

namespace Session

variable {home : List String} {s : Session} {shelf shelf' : Shelf} {w : Workspace}
  {named named' : Nat → Generation} {g : Generation} {c : Client} {k k' : Work} {p : Project}
  {n id : Nat} {tree : FileTree} {nextToken : Nat} {locked : List (List String)}

namespace Inv

/-- Another stage of a build, if it is the only one, together with what it changes on the shelf. -/
theorem setWork (h : Inv home s shelf named) (hc : s.client n = some c)
    (hothers : ∀ m c' k', s.Busy m c' k' → m = n) (work : Option Work)
    (hturns : Shelf.Turns home s.workspace.tree tree shelf')
    (hcurrent : shelf'.current = shelf.current)
    (hstores : ∀ e ∈ s.installed, shelf'.store e.1 = shelf.store e.1 ∨
      shelf'.store e.1 = none ∧ shelf.current ≠ some e.1)
    (htoken : s.workspace.nextToken ≤ nextToken)
    (hnamed : ∀ t, t < s.workspace.nextToken → named' t = named t)
    (hlocked : ∀ k', work = some k' → home ++ [lockName] ∈ locked ∧
      (tree.item? (home ++ [lockName])).isSome = true)
    (hproper : ∀ k', work = some k' → Proper home { s.workspace with tree, nextToken, locked }
      s.installed shelf' named' c.project k'.stage)
    (hstarted : ∀ k', work = some k' → ∃ e, k'.StartsFrom home c.project.directory e ∧
      (∀ id store, e = some (id, store) → (id, store) ∈ s.installed) ∧
      (k'.stage.IsBefore → e = s.installed.head?))
    (haccounted : ∀ id, (shelf'.store id).isSome = true → shelf.current = some id ∨
      (∃ r ∈ s.workspace.retired, r.id = id) ∨ ∃ k', work = some k' ∧ k'.stage.Owns id) :
    Inv home (s.update n { s.workspace with tree, nextToken, locked } (some { c with work }))
      shelf' named' := by
  have hlater : Later home s.workspace { s.workspace with tree, nextToken, locked } s.installed
      s.installed named named' := ⟨hturns.lies, htoken, hnamed, fun _ => id⟩
  have hbusy : ∀ {m c' k'}, (s.update n { s.workspace with tree, nextToken, locked }
      (some { c with work })).Busy m c' k' → m = n ∧ c' = { c with work } ∧ work = some k' :=
    busy_update_of_alone hothers
  exact {
    isAt := hturns.isAt
    current := hcurrent.trans h.current
    ordered := h.ordered
    valid := h.valid
    faithful := fun e he store hstore => by
      rcases hstores e he with hsame | ⟨hnone, -⟩
      · exact h.faithful e he store (hsame ▸ hstore)
      · rw [hnone] at hstore
        cases hstore
    -- a store that goes away is not that of the generation in use
    stocked := fun i hi => by
      rw [hcurrent] at hi
      obtain ⟨e, he, rfl⟩ := Option.map_eq_some_iff.mp (h.current.symm.trans hi)
      rcases hstores e (List.mem_of_mem_head? he) with hsame | ⟨-, hne⟩
      · rw [hsame]
        exact h.stocked _ hi
      · exact absurd hi hne
    clients := forall_client_update
      ⟨((h.clients n c hc).later hlater).lies, ((h.clients n c hc).later hlater).current,
        ((h.clients n c hc).later hlater).found⟩
      fun m _ c' hc' => (h.clients m c' hc').later hlater
    readers := fun r hr => (h.readers r hr).later hlater
    retired := fun r hr => ⟨(h.retired r hr).1.later hlater, (h.retired r hr).2.1, by
      rw [hcurrent]
      exact (h.retired r hr).2.2⟩
    alone := fun m m' c₁ c₂ k₁ k₂ hb₁ hb₂ => (hbusy hb₁).1.trans (hbusy hb₂).1.symm
    locked := fun m c' k' hb => hlocked k' (hbusy hb).2.2
    proper := fun m c' k' hb => by
      obtain ⟨-, rfl, hwork⟩ := hbusy hb
      exact hproper k' hwork
    started := fun m c' k' hb => by
      obtain ⟨-, rfl, hwork⟩ := hbusy hb
      exact hstarted k' hwork
    accounted := fun i hi => by
      rw [hcurrent]
      refine (haccounted i hi).imp_right (Or.imp_right ?_)
      rintro ⟨k', hwork, howns⟩
      exact ⟨n, { c with work }, k', busy_update_self.mpr ⟨rfl, hwork⟩, howns⟩ }

/-- The next stage of the build under way. -/
theorem reworks (h : Inv home s shelf named) (hbusy : s.Busy n c k)
    (hturns : Shelf.Turns home s.workspace.tree tree shelf')
    (hcurrent : shelf'.current = shelf.current)
    (hstores : ∀ e ∈ s.installed, shelf'.store e.1 = shelf.store e.1 ∨
      shelf'.store e.1 = none ∧ shelf.current ≠ some e.1)
    (htoken : s.workspace.nextToken ≤ nextToken)
    (hnamed : ∀ t, t < s.workspace.nextToken → named' t = named t)
    (hproper : Proper home { s.workspace with tree, nextToken } s.installed shelf' named' c.project
      k'.stage)
    (hbefore : k'.stage.IsBefore → k.stage.IsBefore)
    (hstarts : ∀ e, (k.stage.IsBefore → e = s.installed.head?) →
      k.StartsFrom home c.project.directory e → k'.StartsFrom home c.project.directory e)
    (haccounted : ∀ id, (shelf'.store id).isSome = true → k'.stage.Owns id ∨
      (shelf.store id).isSome = true ∧ (k.stage.Owns id →
        ∃ r ∈ s.workspace.retired, r.id = id)) :
    Inv home (s.update n { s.workspace with tree, nextToken } (some { c with work := some k' }))
      shelf' named' := by
  obtain ⟨hlocked, hfile⟩ := h.locked n c k hbusy
  obtain ⟨e, hstart, hmem, hhead⟩ := h.started n c k hbusy
  refine h.setWork hbusy.1 (fun m c' k' hb => h.alone m n c' c k' k hb hbusy) (some k') hturns
    hcurrent hstores htoken hnamed ?_ ?_ ?_ ?_
  · rintro _ ⟨⟩
    exact ⟨hlocked, hturns.lock hfile⟩
  · rintro _ ⟨⟩
    exact hproper
  · rintro _ ⟨⟩
    exact ⟨e, hstarts e hhead hstart, hmem, fun hb => hhead (hbefore hb)⟩
  · intro i hi
    rcases haccounted i hi with howns | ⟨hstored, hnot⟩
    · exact Or.inr (Or.inr ⟨k', rfl, howns⟩)
    · rcases h.accounted i hstored with hcurrent | hretired | ⟨m, c', k'', hb, howns⟩
      · exact Or.inl hcurrent
      · exact Or.inr (Or.inl hretired)
      · -- the file was its own, so that a reader holds it now
        obtain ⟨-, -, rfl⟩ := h.busy_unique hb hbusy
        exact Or.inr (Or.inl (hnot howns))

/-- The same, if nothing changes on the shelf. -/
theorem restages (h : Inv home s shelf named) (stage : Stage) (hbusy : s.Busy n c k)
    (hproper : Proper home s.workspace s.installed shelf named c.project stage)
    (hbefore : stage.IsBefore → k.stage.IsBefore) (hbased : stage.IsBased → k.stage.IsBased)
    (howns : ∀ id, k.stage.Owns id → stage.Owns id) :
    Inv home (s.update n s.workspace (some { c with work := some { k with stage } })) shelf named :=
  h.reworks hbusy h.isAt.refl rfl (fun _ _ => Or.inl rfl) le_rfl (fun _ _ => rfl) hproper hbefore
    (fun _ _ hstarts => hstarts.at_stage hbased) fun id hid => by
      by_cases hown : k.stage.Owns id
      · exact Or.inl (howns id hown)
      · exact Or.inr ⟨hid, fun h => absurd h hown⟩

/-- A build that has got a file of its own fails, and has to remove it. -/
theorem breaks (h : Inv home s shelf named) (hbusy : s.Busy n c k) {f : Fault} (hnew : New shelf id)
    (hbefore : k.stage.IsBefore) (howns : ∀ i, k.stage.Owns i → i = id) :
    Inv home (s.update n s.workspace (some { c with work := some { k with stage := .undoing id f } }))
      shelf named :=
  h.restages _ hbusy hnew (fun _ => hbefore) (fun hb => hb.elim) howns

/-! ## Faults that cannot happen -/

/-- No file has the number of a new generation, and one can be created. -/
theorem create_ne_error (h : Inv home s shelf named) (hbusy : s.Busy n c k) {contents : Prepared}
    {asked : List String} (hstage : k.stage = .prepared id contents asked) (f : Fault) :
    c.project.directory.create s.workspace.tree id .empty ≠ .error f := by
  have hproper := h.proper n c k hbusy
  rw [hstage] at hproper
  exact h.isAt.create_ne_error (h.clients n c hbusy.1).lies hproper.2.2 _ _

/-- Nothing is in the way of the pointer on a shelf. -/
theorem writeCurrent_ne_error (h : Inv home s shelf named) (hbusy : s.Busy n c k)
    {built : Project.Built} (hstage : k.stage = .opened g built) (o : Obstacle) :
    c.project.directory.writeCurrent s.workspace.tree g.id ≠ (tree, .error o) := by
  intro hwrite
  have hproper := h.proper n c k hbusy
  rw [hstage] at hproper
  have hok := (h.isAt.writeCurrent (h.clients n c hbusy.1).lies hproper.2.1.1).1
  rw [hwrite] at hok
  cases hok

/-! ## Stage by stage -/

/-- Once it has looked for a newer generation, a handle holds the one in use. -/
theorem settled_refresh (h : Inv home s shelf named) (hc : s.client n = some c) :
    Settled shelf (c.project.refresh s.workspace).2 := by
  have hattached := h.clients n c hc
  rw [Project.refresh_eq_take, h.isAt.readCurrent_eq hattached.lies]
  cases hcurrent : shelf.current with
  | none =>
      -- what the handle holds was in use, so there would be one in use
      rw [Settled, hcurrent, Option.map_eq_none_iff]
      by_contra hsome
      obtain ⟨g, hg⟩ := Option.ne_none_iff_exists'.mp hsome
      obtain ⟨i, hi, -⟩ := h.known_le (hattached.current g hg).1
      rw [hcurrent] at hi
      cases hi
  | some id =>
      dsimp only
      split
      · rename_i hsame
        exact hsame.trans hcurrent.symm
      · rename_i hother
        obtain ⟨e, he, rfl⟩ := Option.map_eq_some_iff.mp (h.current.symm.trans hcurrent)
        obtain ⟨facts, hfacts, hschema⟩ := h.valid e (List.mem_of_mem_head? he)
        have hopen := (h.isAt.openGeneration_iff hattached.lies (g := ⟨_, _, _, facts⟩)).mpr
          ⟨e.2, (h.store_current he).2, hfacts, hschema, rfl, rfl⟩
        rw [hopen, Settled, hcurrent]
        dsimp only [Project.take]
        cases hheld : c.project.current with
        | none => rfl
        | some held =>
            obtain ⟨i, hi, hle⟩ := h.known_le (hattached.current held hheld).1
            rw [hcurrent] at hi
            obtain rfl := Option.some.inj hi
            have hne : held.id ≠ e.1 := fun hsame => hother (by rw [hheld]; exact congrArg some hsame)
            dsimp only
            rw [if_neg (by omega)]
            rfl

/-- A handle that holds the generation in use starts from it. -/
theorem baseOf_eq (h : Inv home s shelf named) (hc : s.client n = some c)
    (hsettled : Settled shelf c.project) {hints : Option (List Path)} {base : Option BuildBase}
    (hbase : Project.baseOf s.workspace (.incremental hints) c.project.current = .ok base) :
    base = s.installed.head?.bind fun e => e.2.facts.map fun facts => { facts, store := e.2 } := by
  rw [Settled, h.current] at hsettled
  cases hcurrent : c.project.current with
  | none =>
      rw [hcurrent] at hbase hsettled
      rw [Option.map_eq_none_iff.mp hsettled.symm]
      exact (Except.ok.inj hbase).symm
  | some g =>
      rw [hcurrent] at hbase hsettled
      obtain ⟨e, he, hid⟩ := Option.map_eq_some_iff.mp hsettled.symm
      obtain ⟨hknown, hpath⟩ := (h.clients n c hc).current g hcurrent
      obtain ⟨store, hmem, hfacts⟩ := hknown.recorded
      have hsame : (g.id, store) = e := h.eq_of_mem hmem (List.mem_of_mem_head? he) hid.symm
      have hread : g.reader s.workspace.tree "failed to prepare query" "files" = .ok e.2 := by
        refine (h.isAt.reader_iff (h.clients n c hc).lies hpath).mpr ?_
        rw [← hid]
        exact (h.store_current he).2
      rw [Project.baseOf_incremental, hread] at hbase
      rw [he, ← Except.ok.inj hbase, ← hsame]
      simp [hfacts]

theorem looks (h : Inv home s shelf named) (hbusy : s.Busy n c k) (hstage : k.stage = .locked) :
    ∃ shelf' named', Inv home (s.update n (c.project.refresh s.workspace).1
      (some { c with
        project := (c.project.refresh s.workspace).2
        work := some { k with stage := .looked } })) shelf' named' := by
  obtain ⟨named', hrefresh⟩ := h.refresh hbusy.1
  have hlooked := hrefresh.restages .looked
    (busy_update_self.mpr ⟨rfl, hbusy.2⟩) (h.settled_refresh hbusy.1) (by rw [hstage]; exact id)
    (fun hbased => hbased.elim) (fun _ howns => by rw [hstage] at howns; exact howns.elim)
  refine ⟨shelf, named', ?_⟩
  rw [update, update, Function.update_idem] at hlooked
  exact hlooked

/-- A build that cannot be prepared ends. -/
theorem givesUp (h : Inv home s shelf named) (hbusy : s.Busy n c k) (hstage : k.stage = .looked)
    {base : Option BuildBase} {f : Fault} :
    Inv home (s.update n s.workspace
      (some { c with work := some { k with base, stage := .ended (.error f) } })) shelf named := by
  refine h.reworks hbusy h.isAt.refl rfl (fun _ _ => Or.inl rfl) le_rfl (fun _ _ => rfl) trivial
    (fun hb => hb.elim) (fun _ _ hstarts => ⟨hstarts.pointer, hstarts.file, fun hb => hb.elim⟩)
    fun i hi => Or.inr ⟨hi, fun howns => ?_⟩
  rw [hstage] at howns
  exact howns.elim

/-- What is prepared has a new number and starts from the generation in use. -/
theorem prepares (h : Inv home s shelf named) (hbusy : s.Busy n c k) (hstage : k.stage = .looked)
    (hid : c.project.directory.nextId s.workspace.tree = .ok id) {base : Option BuildBase}
    (hbase : Project.baseOf s.workspace k.request.mode c.project.current = .ok base)
    {contents : Prepared} {asked : List String} :
    Inv home (s.update n s.workspace
      (some { c with work := some { k with base, stage := .prepared id contents asked } }))
      shelf named := by
  have hproper := h.proper n c k hbusy
  rw [hstage] at hproper
  obtain ⟨hfits, hcurrent, hstored⟩ := h.isAt.nextId_spec (h.clients n c hbusy.1).lies hid
  refine h.reworks hbusy h.isAt.refl rfl (fun _ _ => Or.inl rfl) le_rfl (fun _ _ => rfl)
    ⟨hproper, ⟨hfits, hcurrent⟩, ?_⟩ (fun _ => by rw [hstage]; trivial) ?_ ?_
  · by_contra hsome
    exact (hstored id (Option.isSome_iff_ne_none.mpr hsome)).false
  · intro e hhead hstarts
    refine ⟨hstarts.pointer, hstarts.file, fun _ hints hmode => ?_⟩
    rw [hhead (by rw [hstage]; trivial)]
    have hmode' : k.request.mode = .incremental hints := hmode
    rw [hmode'] at hbase
    exact h.baseOf_eq hbusy.1 hproper hbase
  · intro i hi
    refine Or.inr ⟨hi, fun howns => ?_⟩
    rw [hstage] at howns
    exact howns.elim

/-- A store gets a file of its own. -/
theorem creates (h : Inv home s shelf named) (hbusy : s.Busy n c k) {contents : Prepared}
    {asked : List String} (hstage : k.stage = .prepared id contents asked)
    (hcreate : c.project.directory.create s.workspace.tree id .empty = .ok tree) :
    Inv home (s.update n { s.workspace with tree }
      (some { c with work := some { k with stage := .created id contents asked } }))
      (shelf.put id .empty) named := by
  have hlies := (h.clients n c hbusy.1).lies
  have hproper := h.proper n c k hbusy
  rw [hstage] at hproper
  obtain ⟨hsettled, hnew, hfree⟩ := hproper
  obtain ⟨-, rfl⟩ := (h.isAt.create_ok_iff hlies).mp hcreate
  refine h.reworks hbusy (h.isAt.stored hlies hfree hnew.1 _) rfl ?_ le_rfl (fun _ _ => rfl)
    ⟨hsettled, hnew, by simp⟩ (fun _ => by rw [hstage]; trivial)
    (fun _ _ hstarts => hstarts.at_stage fun _ => by rw [hstage]; trivial) ?_
  · exact fun e he => Or.inl (Shelf.store_put_of_ne _ _ (h.lt_of_new hnew he).ne)
  · intro i hi
    by_cases hsame : i = id
    · exact Or.inl hsame
    · rw [Shelf.store_put_of_ne _ _ hsame] at hi
      refine Or.inr ⟨hi, fun howns => ?_⟩
      rw [hstage] at howns
      exact howns.elim

/-- The contents replace the empty store. -/
theorem fills (h : Inv home s shelf named) (hbusy : s.Busy n c k) {contents : Prepared}
    {asked : List String} (hstage : k.stage = .created id contents asked) {facts : BuildFacts}
    (hfill : Project.fill s.workspace.tree (c.project.directory.fileFor id) k.request.options
      contents facts = .ok tree) {built : Project.Built} (hreport : built.report.generation = id) :
    ∃ shelf', Inv home (s.update n { s.workspace with tree }
      (some { c with work := some { k with stage := .filled id built } })) shelf' named := by
  have hlies := (h.clients n c hbusy.1).lies
  have hproper := h.proper n c k hbusy
  rw [hstage] at hproper
  obtain ⟨hsettled, hnew, hsome⟩ := hproper
  obtain ⟨store, -, -, rfl⟩ := (Project.fill_ok_iff hlies (h.isAt.not_directory id)).mp hfill
  refine ⟨shelf.put id store, h.reworks hbusy (h.isAt.set hlies hsome store) rfl ?_ le_rfl
    (fun _ _ => rfl) ⟨hsettled, hnew, by simp, hreport⟩ (fun _ => by rw [hstage]; trivial)
    (fun _ _ hstarts => hstarts.at_stage fun _ => by rw [hstage]; trivial) ?_⟩
  · exact fun e he => Or.inl (Shelf.store_put_of_ne _ _ (h.lt_of_new hnew he).ne)
  · intro i hi
    by_cases hsame : i = id
    · exact Or.inl hsame
    · rw [Shelf.store_put_of_ne _ _ hsame] at hi
      refine Or.inr ⟨hi, fun howns => ?_⟩
      rw [hstage] at howns
      exact absurd howns hsame

/-- The new generation is opened. -/
theorem opensNew (h : Inv home s shelf named) (hbusy : s.Busy n c k) {built : Project.Built}
    (hstage : k.stage = .filled id built)
    (hopen : s.workspace.openGeneration id (c.project.directory.fileFor id) = .ok (w, g)) :
    ∃ named', Inv home (s.update n w
      (some { c with work := some { k with stage := .opened g built } })) shelf named' := by
  have hlies := (h.clients n c hbusy.1).lies
  have hproper := h.proper n c k hbusy
  rw [hstage] at hproper
  obtain ⟨hsettled, hnew, hsome, hreport⟩ := hproper
  obtain ⟨store, hstore, hfacts, hschema, hg, rfl⟩ := (h.isAt.openGeneration_iff hlies).mp hopen
  have hid : g.id = id := by rw [hg]
  have htoken : g.token = s.workspace.nextToken := by rw [hg]
  have hpath : g.path = c.project.directory.fileFor g.id := by rw [hg]
  refine ⟨Function.update named s.workspace.nextToken g, h.reworks hbusy h.isAt.refl rfl
    (fun _ _ => Or.inl rfl) (Nat.le_succ _) (fun t ht => Function.update_of_ne ht.ne _ _)
    ⟨hsettled, hid.symm ▸ hnew, ⟨⟨?_, ?_, _, hlies, hpath⟩, hpath⟩,
      ⟨store, hid.symm ▸ hstore, hfacts, hschema⟩, hreport.trans hid.symm⟩
    (fun _ => by rw [hstage]; trivial)
    (fun _ _ hstarts => hstarts.at_stage fun _ => by rw [hstage]; trivial) ?_⟩
  · rw [htoken]
    exact Nat.lt_succ_self _
  · rw [htoken]
    exact Function.update_self ..
  · intro i hi
    by_cases hsame : i = id
    · exact Or.inl (hsame.trans hid.symm)
    · refine Or.inr ⟨hi, fun howns => ?_⟩
      rw [hstage] at howns
      exact absurd howns hsame

/-- The file of a failed build is removed. -/
theorem undoes (h : Inv home s shelf named) (hbusy : s.Busy n c k) {f : Fault}
    (hstage : k.stage = .undoing id f) :
    Inv home (s.update n { s.workspace with
        tree := removeStore s.workspace.tree (c.project.directory.fileFor id) }
      (some { c with work := some { k with stage := .ended (.error f) } }))
      (shelf.drop id) named := by
  have hlies := (h.clients n c hbusy.1).lies
  have hnew := h.proper n c k hbusy
  rw [hstage] at hnew
  refine h.reworks hbusy (h.isAt.removeStore hlies id) rfl ?_ le_rfl (fun _ _ => rfl) trivial
    (fun hb => hb.elim) (fun _ _ hstarts => hstarts.at_stage fun hb => hb.elim) ?_
  · exact fun e he => Or.inl (Shelf.store_drop_of_ne _ (h.lt_of_new hnew he).ne)
  · intro i hi
    obtain ⟨hne, hstored⟩ := Shelf.isSome_store_drop_iff.mp hi
    refine Or.inr ⟨hstored, fun howns => ?_⟩
    rw [hstage] at howns
    exact absurd howns hne

/-- The pointer is set to the new generation. -/
theorem installs (h : Inv home s shelf named) (hbusy : s.Busy n c k) {built : Project.Built}
    (hstage : k.stage = .opened g built)
    (htree : (c.project.directory.writeCurrent s.workspace.tree g.id).1 = tree) :
    Inv home { s.update n { s.workspace with tree } (some { c with
        project := { c.project with current := some g }
        work := some { k with stage := .installed c.project.current built } }) with
      installed := (g.id, storeIn home tree g.id) :: s.installed } (shelf.point g.id) named := by
  have hattached := h.clients n c hbusy.1
  have hproper := h.proper n c k hbusy
  rw [hstage] at hproper
  obtain ⟨hsettled, hnew, ⟨href, hpath⟩, ⟨store, hstore, hfacts, hschema⟩, hreport⟩ := hproper
  have hturns := (h.isAt.writeCurrent hattached.lies hnew.1).2
  rw [htree] at hturns
  rw [hturns.isAt.storeIn_eq (s := shelf.point g.id) hstore]
  have hlater : Later home s.workspace { s.workspace with tree } s.installed
      ((g.id, store) :: s.installed) named named :=
    ⟨hturns.lies, le_rfl, fun _ _ => rfl, List.subset_cons_self _ _⟩
  have hbusy' : ∀ {m c' k'}, (s.update n { s.workspace with tree } (some { c with
      project := { c.project with current := some g }
      work := some { k with stage := .installed c.project.current built } })).Busy m c' k' →
      m = n ∧ c' = { c with
        project := { c.project with current := some g }
        work := some { k with stage := .installed c.project.current built } } ∧
      some { k with stage := .installed c.project.current built } = some k' :=
    busy_update_of_alone fun m c' k' hb => h.alone m n c' c k' k hb hbusy
  exact {
    isAt := hturns.isAt
    current := rfl
    ordered := List.pairwise_cons.mpr ⟨fun e he => h.lt_of_new hnew he, h.ordered⟩
    valid := fun e he => by
      rcases List.mem_cons.mp he with rfl | he
      · exact ⟨g.facts, hfacts, hschema⟩
      · exact h.valid e he
    faithful := fun e he store' hstore' => by
      rcases List.mem_cons.mp he with rfl | he
      · exact Option.some.inj (hstore'.symm.trans hstore)
      · exact h.faithful e he store' hstore'
    stocked := fun i hi => by
      obtain rfl := Option.some.inj hi
      rw [Shelf.store_point, hstore]
      rfl
    clients := forall_client_update (w := { s.workspace with tree })
      (P := fun _ c' =>
        Attached home { s.workspace with tree } ((g.id, store) :: s.installed) named c')
      ⟨(hattached.later hlater).lies, fun g' hg' => by
          obtain rfl := Option.some.inj hg'
          exact ⟨⟨href.later hlater, store, List.mem_cons_self, hfacts⟩, hpath⟩,
        (hattached.later hlater).found⟩
      fun m _ c' hc' => (h.clients m c' hc').later hlater
    readers := fun r hr => (h.readers r hr).later hlater
    retired := fun r hr => by
      obtain ⟨hknown, hheld, i, hi, hlt⟩ := h.retired r hr
      exact ⟨hknown.later hlater, hheld, g.id, rfl, hlt.trans (hnew.2 i hi)⟩
    alone := fun m m' c₁ c₂ k₁ k₂ hb₁ hb₂ => (hbusy' hb₁).1.trans (hbusy' hb₂).1.symm
    locked := fun m c' k' hb =>
      ⟨(h.locked n c k hbusy).1, hturns.lock (h.locked n c k hbusy).2⟩
    proper := fun m c' k' hb => by
      obtain ⟨-, rfl, hk'⟩ := hbusy' hb
      obtain rfl := Option.some.inj hk'
      refine ⟨rfl, fun g' hg' => ?_, hreport ▸ List.mem_cons_self⟩
      obtain ⟨hknown, hpath'⟩ := hattached.current g' hg'
      obtain ⟨i, hi, hle⟩ := h.known_le hknown
      exact ⟨hknown.later hlater, hpath', g.id, rfl, hle.trans_lt (hnew.2 i hi)⟩
    started := fun m c' k' hb => by
      obtain ⟨-, rfl, hk'⟩ := hbusy' hb
      obtain rfl := Option.some.inj hk'
      obtain ⟨e, hstarts, hmem, -⟩ := h.started n c k hbusy
      exact ⟨e, hstarts.at_stage fun _ => by rw [hstage]; trivial,
        fun i store' he => List.mem_cons_of_mem _ (hmem i store' he), fun hb => hb.elim⟩
    accounted := fun i hi => by
      rcases h.accounted i hi with hcurrent | hretired | ⟨m, c', k', hb, howns⟩
      · -- the build is to retire the generation that it has replaced
        refine Or.inr (Or.inr ⟨n, _, _, ⟨Function.update_self .., rfl⟩, ?_⟩)
        exact hsettled.trans hcurrent
      · exact Or.inr (Or.inl hretired)
      · -- its own file is that of the generation in use
        obtain ⟨-, -, rfl⟩ := h.busy_unique hb hbusy
        rw [hstage] at howns
        exact Or.inl (congrArg some howns.symm) }

/-- The generation that was replaced is retired. -/
theorem retires (h : Inv home s shelf named) (hbusy : s.Busy n c k) {previous : Option Generation}
    {built : Project.Built} (hstage : k.stage = .installed previous built) :
    ∃ shelf', Inv home (s.update n (Project.retired s.workspace previous)
      (some { c with work := some { k with stage := .ended (.ok built) } })) shelf' named := by
  have hlies := (h.clients n c hbusy.1).lies
  have hproper := h.proper n c k hbusy
  rw [hstage] at hproper
  have hbased : ∀ e, k.StartsFrom home c.project.directory e →
      { k with stage := .ended (.ok built) }.StartsFrom home c.project.directory e :=
    fun e hstarts => hstarts.at_stage fun _ => by rw [hstage]; trivial
  obtain ⟨-, hprevious, hdelivered⟩ := hproper
  cases previous with
  | none =>
      refine ⟨shelf, h.reworks hbusy h.isAt.refl rfl (fun _ _ => Or.inl rfl) le_rfl (fun _ _ => rfl)
        hdelivered (fun hb => hb.elim) (fun e _ => hbased e) fun i hi => Or.inr ⟨hi, fun howns => ?_⟩⟩
      rw [hstage] at howns
      cases howns
  | some g =>
      obtain ⟨hknown, hpath, i, hi, hlt⟩ := hprevious g rfl
      have howned : ∀ {j}, k.stage.Owns j → j = g.id := by
        intro j howns
        rw [hstage] at howns
        exact (Option.some.inj howns).symm
      rw [Project.retired, Workspace.retire]
      split
      · -- a reader holds it
        rename_i hheld
        have hretired : Inv home
            { s with workspace := { s.workspace with retired := g :: s.workspace.retired } } shelf
            named := by
          refine h.rereads h.readers (fun r hr => ?_) (List.subset_cons_self _ _)
          rcases List.mem_cons.mp hr with rfl | hr
          · exact ⟨hknown, hheld, i, hi, hlt⟩
          · exact h.retired r hr
        refine ⟨shelf, hretired.reworks hbusy h.isAt.refl rfl (fun _ _ => Or.inl rfl) le_rfl
          (fun _ _ => rfl) hdelivered (fun hb => hb.elim) (fun e _ => hbased e) fun j hj =>
            Or.inr ⟨hj, fun howns => ⟨g, List.mem_cons_self, (howned howns).symm⟩⟩⟩
      · -- nobody holds it, and its file goes away
        rw [hpath]
        refine ⟨shelf.drop g.id, h.reworks hbusy (h.isAt.removeStore hlies g.id) rfl ?_ le_rfl
          (fun _ _ => rfl) hdelivered (fun hb => hb.elim) (fun e _ => hbased e) fun j hj => ?_⟩
        · intro e he
          by_cases hsame : e.1 = g.id
          · rw [hsame]
            refine Or.inr ⟨Shelf.store_drop_self _ _, fun hcurrent => ?_⟩
            exact hlt.ne (Option.some.inj (hcurrent.symm.trans hi))
          · exact Or.inl (Shelf.store_drop_of_ne _ hsame)
        · obtain ⟨hne, hstored⟩ := Shelf.isSome_store_drop_iff.mp hj
          exact Or.inr ⟨hstored, fun howns => absurd (howned howns) hne⟩

end Inv

/-! ## All stages -/

theorem advance_eq {next : Work} (hadvance : k.advance s.workspace c.project = (w, p, next))
    (hnext : ∀ previous built, next.stage ≠ .installed previous built) :
    s.advance home n c k = s.update n w (some { c with project := p, work := some next }) := by
  rw [advance, hadvance]
  dsimp only
  split
  · rename_i hinstalled
    exact absurd hinstalled (hnext _ _)
  · rfl

theorem advance_installed {previous : Option Generation} {built : Project.Built}
    (hstage : k.stage = .opened g built)
    (hadvance : k.advance s.workspace c.project =
      (w, p, { k with stage := .installed previous built })) :
    s.advance home n c k = { s.update n w (some { c with
        project := p, work := some { k with stage := .installed previous built } }) with
      installed := (g.id, storeIn home w.tree g.id) :: s.installed } := by
  rw [advance, hadvance, hstage]

/-- Every step of a build keeps what holds of the session. -/
theorem Inv.advancing (h : Inv home s shelf named) (hbusy : s.Busy n c k) :
    ∃ shelf' named', Inv home (s.advance home n c k) shelf' named' := by
  have hproper := h.proper n c k hbusy
  have hmoves := k.moves s.workspace c.project
  generalize hadvance : k.advance s.workspace c.project = next at hmoves
  cases hmoves with
  | looks hstage =>
      rw [advance_eq hadvance (by simp)]
      exact h.looks hbusy hstage
  | givesUp hstage =>
      rw [advance_eq hadvance (by simp)]
      exact ⟨shelf, named, h.givesUp hbusy hstage⟩
  | prepares hstage hid hbase =>
      rw [advance_eq hadvance (by simp)]
      exact ⟨shelf, named, h.prepares hbusy hstage hid hbase⟩
  | failsToCreate hstage hcreate => exact absurd hcreate (h.create_ne_error hbusy hstage _)
  | creates hstage hcreate =>
      rw [advance_eq hadvance (by simp)]
      exact ⟨_, named, h.creates hbusy hstage hcreate⟩
  | failsToFill hstage =>
      rw [hstage] at hproper
      rw [advance_eq hadvance (by simp)]
      exact ⟨shelf, named, h.breaks hbusy hproper.2.1 (by rw [hstage]; trivial)
        (by rw [hstage]; exact fun _ howns => howns)⟩
  | @fills id contents asked facts tree hstage hfacts hfill =>
      have hreport : (Project.Built.mk (.ofPrepared contents facts) asked).report.generation = id := by
        rw [← hfacts]
        rfl
      rw [advance_eq hadvance (by simp)]
      obtain ⟨shelf', hfilled⟩ := h.fills hbusy hstage hfill hreport
      exact ⟨shelf', named, hfilled⟩
  | failsToOpen hstage =>
      rw [hstage] at hproper
      rw [advance_eq hadvance (by simp)]
      exact ⟨shelf, named, h.breaks hbusy hproper.2.1 (by rw [hstage]; trivial)
        (by rw [hstage]; exact fun _ howns => howns)⟩
  | opens hstage hopen =>
      rw [advance_eq hadvance (by simp)]
      obtain ⟨named', hopened⟩ := h.opensNew hbusy hstage hopen
      exact ⟨shelf, named', hopened⟩
  | failsToInstall hstage hwrite => exact absurd hwrite (h.writeCurrent_ne_error hbusy hstage _)
  | installs hstage hwrite =>
      rw [advance_installed hstage hadvance]
      exact ⟨_, named, h.installs hbusy hstage (by rw [hwrite])⟩
  | retires hstage =>
      rw [advance_eq hadvance (by simp)]
      obtain ⟨shelf', hretired⟩ := h.retires hbusy hstage
      exact ⟨shelf', named, hretired⟩
  | undoes hstage =>
      rw [advance_eq hadvance (by simp)]
      exact ⟨_, named, h.undoes hbusy hstage⟩
  | rests hstage =>
      have hself : some { c with work := some k } = some c := by rw [← hbusy.2]
      rw [advance_eq hadvance (by simp [hstage]), hself, update_eq_self hbusy.1]
      exact ⟨shelf, named, h⟩

/-! ## Begin, stop and end -/

namespace Inv

/-- While a build is under way, the lock is not to be had. -/
theorem idle_of_lock (h : Inv home s shelf named) {d : IndexDirectory}
    (hd : d.LiesAt s.workspace.tree home) (hfree : (s.workspace.lock d).2 = .ok true) (m : Nat)
    (c' : Client) (k' : Work) : ¬ s.Busy m c' k' := by
  intro hb
  obtain ⟨hheld, hfile⟩ := h.locked m c' k' hb
  have hdir := h.isAt.clear lockName (Or.inl rfl)
  rw [Workspace.lock_eq hd h.isAt.wellFormed, if_neg (by simp [hdir]), if_pos hfile,
    if_pos (by simpa using hheld)] at hfree
  cases hfree

theorem begins (h : Inv home s shelf named) (hc : s.client n = some c) (request : BuildRequest)
    (hlock : s.workspace.lock c.project.directory = (w, .ok true)) :
    Inv home (s.update n w (some { c with work := some { request, origin := w.tree } })) shelf
      named := by
  have hlies := (h.clients n c hc).lies
  have hfree : (s.workspace.lock c.project.directory).2 = .ok true := by rw [hlock]
  have hidle := h.idle_of_lock hlies hfree
  have hturns := h.isAt.lock hlies
  obtain ⟨hw, hfile, -⟩ := Workspace.lock_of_ok hlies h.isAt.wellFormed hfree
  rw [hlock] at hturns hw hfile
  dsimp only at hturns hw hfile
  rw [hw] at hturns hfile ⊢
  refine h.setWork hc (fun m c' k' hb => absurd hb (hidle m c' k'))
    (some { request, origin := w.tree }) hturns rfl (fun _ _ => Or.inl rfl) le_rfl (fun _ _ => rfl)
    ?_ ?_ ?_ ?_
  · rintro _ ⟨⟩
    exact ⟨List.mem_cons_self, hfile⟩
  · rintro _ ⟨⟩
    trivial
  · rintro _ ⟨⟩
    refine ⟨s.installed.head?, ⟨?_, fun id store he => ?_, fun hb => hb.elim⟩,
      fun id store he => List.mem_of_mem_head? he, fun _ => rfl⟩
    · rw [← h.current]
      exact hturns.isAt.readCurrent_eq (hturns.lies _ hlies)
    · rw [hturns.isAt.files, (h.store_current he).2]
      rfl
  · exact fun i hi => (h.accounted i hi).imp_right
      (Or.imp_right fun ⟨m, c', k', hb, _⟩ => absurd hb (hidle m c' k'))

/-- A build that is stopped takes care of the same file, or of none if it has none yet. -/
theorem stops (h : Inv home s shelf named) (hbusy : s.Busy n c k) {f : Fault} {stage : Stage}
    (hstop : k.stage.stopped f = some stage) :
    Inv home (s.update n s.workspace (some { c with work := some { k with stage } })) shelf
      named := by
  have hproper := h.proper n c k hbusy
  cases hstage : k.stage with
  | locked | looked | prepared _ _ _ =>
      rw [hstage] at hstop
      obtain rfl := Option.some.inj hstop
      exact h.restages _ hbusy trivial (fun hb => hb.elim) (fun hb => hb.elim)
        (fun _ howns => by rw [hstage] at howns; exact howns.elim)
  | created _ _ _ | filled _ _ | opened _ _ =>
      rw [hstage] at hstop hproper
      obtain rfl := Option.some.inj hstop
      exact h.breaks hbusy hproper.2.1 (by rw [hstage]; trivial)
        (by rw [hstage]; exact fun _ howns => howns)
  | installed _ _ | undoing _ _ | ended _ =>
      rw [hstage] at hstop
      cases hstop

theorem ends (h : Inv home s shelf named) (hbusy : s.Busy n c k)
    {answer : Except Fault Project.Built} (hstage : k.stage = .ended answer) :
    Inv home (s.update n (s.workspace.unlock c.project.directory) (some { c with work := none }))
      shelf named := by
  rw [Workspace.unlock_eq (h.clients n c hbusy.1).lies (h.locked n c k hbusy).2]
  refine h.setWork hbusy.1 (fun m c' k' hb => h.alone m n c' c k' k hb hbusy) none h.isAt.refl rfl
    (fun _ _ => Or.inl rfl) le_rfl (fun _ _ => rfl) (fun _ hwork => nomatch hwork)
    (fun _ hwork => nomatch hwork) (fun _ hwork => nomatch hwork) fun i hi => ?_
  refine (h.accounted i hi).imp_right (Or.imp_right ?_)
  rintro ⟨m, c', k', hb, howns⟩
  obtain ⟨-, -, rfl⟩ := h.busy_unique hb hbusy
  rw [hstage] at howns
  exact howns.elim

end Inv

end Session

end SourceIndex
