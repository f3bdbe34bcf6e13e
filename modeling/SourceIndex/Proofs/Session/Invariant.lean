import Mathlib
import SourceIndex.Proofs.Session.Basic

/-! # What holds throughout a session

At any time of a session the index directory is a shelf. The pointer names the generation that was
put into use last, which has the largest number so far and still its store; at most one build is
under way; and every store is that of the generation in use, or of a retired generation that a
reader holds, or a build takes care of it (`Session.Inv`). Every step of a session keeps it so
(`Session.Inv.step`).
-/

set_option autoImplicit false

namespace SourceIndex

open IndexDirectory

-- names of files are not to be computed
attribute [local irreducible] nameOf journalName removeStore Project.buildLocked

/-! ## Stages -/

namespace Stage

/-- The pointer is not set yet. -/
def IsBefore : Stage → Prop
  | .installed _ _ | .ended _ => False
  | _ => True

/-- The build has got as far as its contents, and has not failed. -/
def IsBased : Stage → Prop
  | .locked | .looked | .undoing _ _ | .ended (.error _) => False
  | _ => True

/-- The generations whose file the build takes care of. -/
def Owns : Stage → Nat → Prop
  | .created id _ _, n | .filled id _, n | .undoing id _, n => n = id
  | .opened g _, n => n = g.id
  | .installed previous _, n => previous.map Generation.id = some n
  | .locked, _ | .looked, _ | .prepared _ _ _, _ | .ended _, _ => False

end Stage

/-- What a build starts from: the generation that the pointer named when it took the lock, and the
store that this had then. -/
structure Work.StartsFrom (home : List String) (d : IndexDirectory) (k : Work)
    (e : Option (Nat × Store)) : Prop where
  pointer : d.readCurrent k.origin = .ok (e.map Prod.fst)
  file : ∀ id store, e = some (id, store) →
    k.origin.item? (home ++ [nameOf id]) = some (.index store)
  base : k.stage.IsBased → ∀ hints, k.request.mode = .incremental hints →
    k.base = e.bind fun e => e.2.facts.map fun facts => { facts, store := e.2 }

namespace Session

/-! ## The invariant -/

/-- A generation that a handle or a reader refers to: there is one for each token. -/
structure Ref (home : List String) (w : Workspace) (named : Nat → Generation) (g : Generation) :
    Prop where
  token : g.token < w.nextToken
  named : named g.token = g
  path : ∃ d : IndexDirectory, d.LiesAt w.tree home ∧ g.path = d.fileFor g.id

/-- Such a generation that is or was in use. -/
structure Known (home : List String) (w : Workspace) (installed : List (Nat × Store))
    (named : Nat → Generation) (g : Generation) : Prop extends Ref home w named g where
  recorded : ∃ store, (g.id, store) ∈ installed ∧ store.facts = some g.facts

/-- A handle has its index in the directory, and all that it refers to is or was in use. -/
structure Attached (home : List String) (w : Workspace) (installed : List (Nat × Store))
    (named : Nat → Generation) (c : Client) : Prop where
  lies : c.project.directory.LiesAt w.tree home
  current : ∀ g, c.project.current = some g →
    Known home w installed named g ∧ g.path = c.project.directory.fileFor g.id
  found : ∀ g ∈ c.found,
    Known home w installed named g ∧ g.path = c.project.directory.fileFor g.id

/-- A number that comes after that of the generation in use. -/
def New (shelf : Shelf) (id : Nat) : Prop :=
  id < UInt64.size ∧ ∀ c, shelf.current = some c → c < id

/-- The handle holds the generation in use. -/
def Settled (shelf : Shelf) (p : Project) : Prop := p.current.map Generation.id = shelf.current

/-- The generation that a build has reported was put into use. -/
def Delivered (installed : List (Nat × Store)) (built : Project.Built) : Prop :=
  built.report.generation ∈ installed.map Prod.fst

/-- What holds at each stage of a build. -/
def Proper (home : List String) (w : Workspace) (installed : List (Nat × Store)) (shelf : Shelf)
    (named : Nat → Generation) (p : Project) : Stage → Prop
  | .locked | .ended (.error _) => True
  | .looked => Settled shelf p
  | .prepared id _ _ => Settled shelf p ∧ New shelf id ∧ shelf.store id = none
  | .created id _ _ => Settled shelf p ∧ New shelf id ∧ (shelf.store id).isSome = true
  | .filled id built => Settled shelf p ∧ New shelf id ∧ (shelf.store id).isSome = true ∧
    built.report.generation = id
  | .opened g built => Settled shelf p ∧ New shelf g.id ∧
    (Ref home w named g ∧ g.path = p.directory.fileFor g.id) ∧
    (∃ store, shelf.store g.id = some store ∧ store.facts = some g.facts ∧
      g.facts.schema = Store.schemaVersion) ∧
    built.report.generation = g.id
  | .installed previous built => Settled shelf p ∧ (∀ g, previous = some g →
    Known home w installed named g ∧ g.path = p.directory.fileFor g.id ∧
      ∃ c, shelf.current = some c ∧ g.id < c) ∧ Delivered installed built
  | .undoing id _ => New shelf id
  | .ended (.ok built) => Delivered installed built

/-- A client runs a build. -/
def Busy (s : Session) (n : Nat) (c : Client) (k : Work) : Prop :=
  s.client n = some c ∧ c.work = some k

/-- What holds of a session, with the shelf that the directory is, and the generation that each
token stands for. -/
structure Inv (home : List String) (s : Session) (shelf : Shelf) (named : Nat → Generation) :
    Prop where
  isAt : shelf.IsAt s.workspace.tree home
  current : shelf.current = s.installed.head?.map Prod.fst
  ordered : s.installed.Pairwise fun a b => b.1 < a.1
  valid : ∀ e ∈ s.installed, ∃ facts, e.2.facts = some facts ∧ facts.schema = Store.schemaVersion
  faithful : ∀ e ∈ s.installed, ∀ store, shelf.store e.1 = some store → store = e.2
  stocked : ∀ id, shelf.current = some id → (shelf.store id).isSome = true
  clients : ∀ n c, s.client n = some c →
    Attached home s.workspace s.installed named c
  readers : ∀ r ∈ s.workspace.readers, Known home s.workspace s.installed named r
  retired : ∀ r ∈ s.workspace.retired, Known home s.workspace s.installed named r ∧
    s.workspace.isHeld r = true ∧ ∃ c, shelf.current = some c ∧ r.id < c
  alone : ∀ n m c c' k k', s.Busy n c k → s.Busy m c' k' → n = m
  locked : ∀ n c k, s.Busy n c k → home ++ [lockName] ∈ s.workspace.locked ∧
    (s.workspace.tree.item? (home ++ [lockName])).isSome = true
  proper : ∀ n c k, s.Busy n c k →
    Proper home s.workspace s.installed shelf named c.project k.stage
  started : ∀ n c k, s.Busy n c k → ∃ e, k.StartsFrom home c.project.directory e ∧
    (∀ id store, e = some (id, store) → (id, store) ∈ s.installed) ∧
    (k.stage.IsBefore → e = s.installed.head?)
  accounted : ∀ id, (shelf.store id).isSome = true → shelf.current = some id ∨
    (∃ r ∈ s.workspace.retired, r.id = id) ∨ ∃ n c k, s.Busy n c k ∧ k.stage.Owns id

variable {home : List String} {s : Session} {shelf shelf' : Shelf} {w w' : Workspace}
  {installed installed' : List (Nat × Store)} {named named' : Nat → Generation} {g : Generation}
  {c : Client} {k : Work} {n id : Nat}

/-! ## Time passes -/

/-- What is referred to at one time can be referred to later on. -/
structure Later (home : List String) (w w' : Workspace) (installed installed' : List (Nat × Store))
    (named named' : Nat → Generation) : Prop where
  lies : ∀ d : IndexDirectory, d.LiesAt w.tree home → d.LiesAt w'.tree home
  token : w.nextToken ≤ w'.nextToken
  named : ∀ t, t < w.nextToken → named' t = named t
  installed : installed ⊆ installed'

theorem Later.of_workspace (htree : w'.tree = w.tree) (htoken : w'.nextToken = w.nextToken) :
    Later home w w' installed installed named named :=
  ⟨fun _ hd => htree ▸ hd, htoken.ge, fun _ _ => rfl, fun _ => id⟩

theorem Ref.later (h : Ref home w named g) (hlater : Later home w w' installed installed' named named') :
    Ref home w' named' g := by
  obtain ⟨d, hd, hpath⟩ := h.path
  exact ⟨h.token.trans_le hlater.token, (hlater.named _ h.token).trans h.named,
    d, hlater.lies d hd, hpath⟩

theorem Known.later (h : Known home w installed named g)
    (hlater : Later home w w' installed installed' named named') :
    Known home w' installed' named' g := by
  obtain ⟨store, hmem, hfacts⟩ := h.recorded
  exact ⟨h.toRef.later hlater, store, hlater.installed hmem, hfacts⟩

theorem Attached.later (h : Attached home w installed named c)
    (hlater : Later home w w' installed installed' named named') :
    Attached home w' installed' named' c :=
  ⟨hlater.lies _ h.lies, fun g hg => ⟨(h.current g hg).1.later hlater, (h.current g hg).2⟩,
    fun g hg => ⟨(h.found g hg).1.later hlater, (h.found g hg).2⟩⟩

theorem Delivered.later {built : Project.Built} (h : Delivered installed built)
    (hsubset : installed ⊆ installed') : Delivered installed' built :=
  List.map_subset _ hsubset h

theorem Proper.later {p : Project} {stage : Stage}
    (h : Proper home w installed shelf named p stage)
    (hlater : Later home w w' installed installed' named named') :
    Proper home w' installed' shelf named' p stage := by
  cases stage with
  | locked | looked | prepared _ _ _ | created _ _ _ | filled _ _ | undoing _ _ =>
      exact h
  | ended answer =>
      cases answer with
      | error f => trivial
      | ok built => exact Delivered.later h hlater.installed
  | opened g built =>
      obtain ⟨hsettled, hnew, ⟨href, hpath⟩, hstore⟩ := h
      exact ⟨hsettled, hnew, ⟨href.later hlater, hpath⟩, hstore⟩
  | installed previous built =>
      obtain ⟨hsettled, hprevious, hdelivered⟩ := h
      refine ⟨hsettled, fun g hg => ?_, hdelivered.later hlater.installed⟩
      obtain ⟨hknown, hrest⟩ := hprevious g hg
      exact ⟨hknown.later hlater, hrest⟩

/-- What holds at a stage depends on the stores of new generations only. -/
theorem Proper.of_stores {p : Project} {stage : Stage}
    (h : Proper home w installed shelf named p stage) (hcurrent : shelf'.current = shelf.current)
    (hstores : ∀ id, New shelf id → shelf'.store id = shelf.store id) :
    Proper home w installed shelf' named p stage := by
  have hnew : ∀ {id}, New shelf id → New shelf' id := fun hid =>
    ⟨hid.1, fun i hi => hid.2 i (hcurrent ▸ hi)⟩
  have hsettled : Settled shelf p → Settled shelf' p := fun hp => hp.trans hcurrent.symm
  cases stage with
  | locked => trivial
  | ended answer =>
      cases answer with
      | error f => trivial
      | ok built => exact h
  | looked => exact hsettled h
  | undoing id f => exact hnew h
  | prepared id _ _ => exact ⟨hsettled h.1, hnew h.2.1, (hstores id h.2.1).trans h.2.2⟩
  | created id _ _ =>
      refine ⟨hsettled h.1, hnew h.2.1, ?_⟩
      rw [hstores id h.2.1]
      exact h.2.2
  | filled id _ =>
      refine ⟨hsettled h.1, hnew h.2.1, ?_⟩
      rw [hstores id h.2.1]
      exact h.2.2
  | opened g _ =>
      obtain ⟨hp, hid, href, ⟨store, hstore, hfacts⟩, hreport⟩ := h
      exact ⟨hsettled hp, hnew hid, href, ⟨store, (hstores g.id hid).trans hstore, hfacts⟩, hreport⟩
  | installed previous _ =>
      refine ⟨hsettled h.1, fun g hg => ?_, h.2.2⟩
      obtain ⟨hknown, hpath, i, hi, hlt⟩ := h.2.1 g hg
      exact ⟨hknown, hpath, i, hcurrent.trans hi, hlt⟩

/-! ## What follows at once -/

namespace Inv

/-- No number that was put into use is larger than that of the generation in use. -/
theorem le_current (h : Inv home s shelf named) {e : Nat × Store} (he : e ∈ s.installed) :
    ∃ c, shelf.current = some c ∧ e.1 ≤ c := by
  rw [h.current]
  have hordered := h.ordered
  revert he hordered
  cases s.installed with
  | nil => exact fun he => nomatch he
  | cons first rest =>
      intro he hordered
      refine ⟨first.1, rfl, ?_⟩
      rcases List.mem_cons.mp he with rfl | he
      · exact le_rfl
      · exact ((List.pairwise_cons.mp hordered).1 e he).le

/-- There is one store for each number. -/
theorem eq_of_mem (h : Inv home s shelf named) {e e' : Nat × Store} (he : e ∈ s.installed)
    (he' : e' ∈ s.installed) (hid : e.1 = e'.1) : e = e' := by
  have hnodup : (s.installed.map Prod.fst).Nodup :=
    List.pairwise_map.mpr (h.ordered.imp fun hlt => hlt.ne')
  exact List.inj_on_of_nodup_map hnodup he he' hid

theorem known_le (h : Inv home s shelf named) (hg : Known home s.workspace s.installed named g) :
    ∃ c, shelf.current = some c ∧ g.id ≤ c := by
  obtain ⟨store, hmem, -⟩ := hg.recorded
  exact h.le_current hmem

/-- A new number is larger than all that were put into use. -/
theorem lt_of_new (h : Inv home s shelf named) (hnew : New shelf id) {e : Nat × Store}
    (he : e ∈ s.installed) : e.1 < id := by
  obtain ⟨c, hc, hle⟩ := h.le_current he
  exact hle.trans_lt (hnew.2 c hc)

/-- At most one build is under way. -/
theorem busy_unique (h : Inv home s shelf named) {m : Nat} {c' : Client} {k' : Work}
    (hb : s.Busy m c' k') (hbusy : s.Busy n c k) : m = n ∧ c' = c ∧ k' = k := by
  obtain rfl := h.alone m n c' c k' k hb hbusy
  obtain rfl := Option.some.inj (hb.1.symm.trans hbusy.1)
  exact ⟨rfl, rfl, Option.some.inj (hb.2.symm.trans hbusy.2)⟩

/-- The generation in use has the store that was put into use last. -/
theorem store_current (h : Inv home s shelf named) {e : Nat × Store}
    (he : s.installed.head? = some e) : shelf.current = some e.1 ∧ shelf.store e.1 = some e.2 := by
  have hcurrent : shelf.current = some e.1 := by rw [h.current, he]; rfl
  obtain ⟨store, hstore⟩ := Option.isSome_iff_exists.mp (h.stocked e.1 hcurrent)
  have hmem : e ∈ s.installed := List.mem_of_mem_head? he
  exact ⟨hcurrent, hstore.trans (congrArg some (h.faithful e hmem store hstore))⟩

end Inv

/-! ## One handle changes -/

@[simp] theorem update_self (s : Session) (n : Nat) (w : Workspace) (c : Option Client) :
    (s.update n w c).client n = c := Function.update_self ..

theorem update_of_ne (s : Session) {n m : Nat} (h : m ≠ n) (w : Workspace) (c : Option Client) :
    (s.update n w c).client m = s.client m := Function.update_of_ne h ..

theorem busy_update_self {w : Workspace} {c c' : Client} :
    (s.update n w (some c)).Busy n c' k ↔ c' = c ∧ c.work = some k := by
  rw [Busy, update_self, Option.some.injEq]
  exact ⟨fun ⟨hc, hk⟩ => ⟨hc.symm, hc ▸ hk⟩, fun ⟨hc, hk⟩ => ⟨hc.symm, hc ▸ hk⟩⟩

theorem busy_update_of_ne {m : Nat} (h : m ≠ n) {w : Workspace} {c : Option Client} {c' : Client} :
    (s.update n w c).Busy m c' k ↔ s.Busy m c' k := by
  rw [Busy, Busy, update_of_ne s h]

/-- If no other handle builds, then only the one that changes may do so. -/
theorem busy_update_of_alone (hothers : ∀ m c' k', s.Busy m c' k' → m = n) {w : Workspace}
    {c c' : Client} {m : Nat} (hb : (s.update n w (some c)).Busy m c' k) :
    m = n ∧ c' = c ∧ c.work = some k := by
  by_cases hm : m = n
  · subst hm
    exact ⟨rfl, busy_update_self.mp hb⟩
  · exact absurd (hothers m c' k ((busy_update_of_ne hm).mp hb)) hm

theorem not_busy_update (hidle : ∀ m c' k', ¬ s.Busy m c' k') {w : Workspace} {c : Client}
    (hwork : c.work = none) (m : Nat) (c' : Client) (k : Work) :
    ¬ (s.update n w (some c)).Busy m c' k := by
  intro hb
  obtain ⟨-, -, hk⟩ := busy_update_of_alone (fun m c' k' hb => absurd hb (hidle m c' k')) hb
  cases hk.symm.trans hwork

/-- A property of all handles is kept if it holds of the one that changes. -/
theorem forall_client_update {P : Nat → Client → Prop} {w : Workspace} {c : Client}
    (hnew : P n c) (hold : ∀ m, m ≠ n → ∀ c', s.client m = some c' → P m c') :
    ∀ m c', (s.update n w (some c)).client m = some c' → P m c' := by
  intro m c' hc'
  by_cases hm : m = n
  · subst hm
    rw [update_self] at hc'
    exact Option.some.inj hc' ▸ hnew
  · rw [update_of_ne s hm] at hc'
    exact hold m hm c' hc'

namespace Inv

/-- Files change outside of the index, something is opened, or the lock changes hands. -/
theorem passes (h : Inv home s shelf named) {tree : FileTree} {nextToken : Nat}
    {locked : List (List String)} (hturns : Shelf.Turns home s.workspace.tree tree shelf)
    (hlocked : ∀ n c k, s.Busy n c k → home ++ [lockName] ∈ locked)
    (htoken : s.workspace.nextToken ≤ nextToken)
    (hnamed : ∀ t, t < s.workspace.nextToken → named' t = named t) :
    Inv home { s with workspace := { s.workspace with tree, nextToken, locked } } shelf named' := by
  have hlater : Later home s.workspace { s.workspace with tree, nextToken, locked } s.installed
      s.installed named named' := ⟨hturns.lies, htoken, hnamed, fun _ => id⟩
  exact {
    isAt := hturns.isAt
    current := h.current
    ordered := h.ordered
    valid := h.valid
    faithful := h.faithful
    stocked := h.stocked
    clients := fun n c hc => (h.clients n c hc).later hlater
    readers := fun r hr => (h.readers r hr).later hlater
    retired := fun r hr => ⟨(h.retired r hr).1.later hlater, (h.retired r hr).2⟩
    alone := h.alone
    locked := fun n c k hbusy => ⟨hlocked n c k hbusy, hturns.lock (h.locked n c k hbusy).2⟩
    proper := fun n c k hbusy => (h.proper n c k hbusy).later hlater
    started := h.started
    accounted := h.accounted }

/-- A generation that is or was in use is opened for a handle. -/
theorem opens (h : Inv home s shelf named) {d : IndexDirectory}
    (hd : d.LiesAt s.workspace.tree home) {store : Store} (hmem : (id, store) ∈ s.installed)
    {w : Workspace} (hopen : s.workspace.openGeneration id (d.fileFor id) = .ok (w, g)) :
    ∃ named', Inv home { s with workspace := w } shelf named' ∧
      Known home w s.installed named' g ∧ g.path = d.fileFor g.id := by
  obtain ⟨store', hstore, hfacts, -, hg, rfl⟩ := (h.isAt.openGeneration_iff hd).mp hopen
  have hsame : store' = store := h.faithful _ hmem _ hstore
  have htoken : g.token = s.workspace.nextToken := by rw [hg]
  have hid : g.id = id := by rw [hg]
  have hpath : g.path = d.fileFor g.id := by rw [hg]
  refine ⟨Function.update named s.workspace.nextToken g,
    h.passes h.isAt.refl (fun n c k hbusy => (h.locked n c k hbusy).1) (Nat.le_succ _)
      fun t ht => Function.update_of_ne ht.ne _ _,
    ⟨⟨?_, ?_, d, hd, hpath⟩, store, ?_, ?_⟩, hpath⟩
  · rw [htoken]
    exact Nat.lt_succ_self _
  · rw [htoken]
    exact Function.update_self ..
  · rw [hid]
    exact hmem
  · rw [← hsame]
    exact hfacts

/-- A handle refers to other generations, and goes on with its build if it runs one. -/
theorem setClient (h : Inv home s shelf named) (hc : s.client n = some c) {c' : Client}
    (hwork : c'.work = c.work) (hattached : Attached home s.workspace s.installed named c')
    (hdirectory : c'.project.directory = c.project.directory)
    (hproper : ∀ k, c.work = some k →
      Proper home s.workspace s.installed shelf named c'.project k.stage) :
    Inv home (s.update n s.workspace (some c')) shelf named := by
  have hbusy : ∀ {m c'' k}, (s.update n s.workspace (some c')).Busy m c'' k →
      ∃ c₀, s.Busy m c₀ k ∧ (m = n → c'' = c' ∧ c₀ = c) ∧ (m ≠ n → c'' = c₀) := by
    intro m c'' k hb
    by_cases hm : m = n
    · subst hm
      obtain ⟨rfl, hk⟩ := busy_update_self.mp hb
      exact ⟨c, ⟨hc, hwork ▸ hk⟩, fun _ => ⟨rfl, rfl⟩, fun hne => absurd rfl hne⟩
    · exact ⟨c'', (busy_update_of_ne hm).mp hb, fun hsame => absurd hsame hm, fun _ => rfl⟩
  refine { h with clients := ?_, alone := ?_, locked := ?_, proper := ?_, started := ?_,
                  accounted := ?_ }
  · exact forall_client_update hattached fun m _ c₀ hc₀ => h.clients m c₀ hc₀
  · intro m m' c₁ c₂ k₁ k₂ hb₁ hb₂
    obtain ⟨_, hb₁, -⟩ := hbusy hb₁
    obtain ⟨_, hb₂, -⟩ := hbusy hb₂
    exact h.alone m m' _ _ k₁ k₂ hb₁ hb₂
  · intro m c₁ k hb
    obtain ⟨_, hb, -⟩ := hbusy hb
    exact h.locked m _ k hb
  · intro m c₁ k hb₁
    obtain ⟨c₀, hb₀, hself, hother⟩ := hbusy hb₁
    by_cases hm : m = n
    · obtain ⟨hnew, hold⟩ := hself hm
      rw [hnew]
      exact hproper k (hold ▸ hb₀.2)
    · rw [hother hm]
      exact h.proper m c₀ k hb₀
  · intro m c₁ k hb₁
    obtain ⟨c₀, hb₀, hself, hother⟩ := hbusy hb₁
    have hstarted := h.started m c₀ k hb₀
    by_cases hm : m = n
    · obtain ⟨hnew, hold⟩ := hself hm
      rw [hold] at hstarted
      rw [hnew, hdirectory]
      exact hstarted
    · rw [hother hm]
      exact hstarted
  · intro id hid
    refine (h.accounted id hid).imp_right (Or.imp_right ?_)
    rintro ⟨m, c₀, k, hb, howns⟩
    by_cases hm : m = n
    · subst hm
      obtain rfl := Option.some.inj (hc.symm.trans hb.1)
      exact ⟨m, c', k, busy_update_self.mpr ⟨rfl, hwork.trans hb.2⟩, howns⟩
    · exact ⟨m, c₀, k, (busy_update_of_ne hm).mpr hb, howns⟩

end Inv

/-! ## Handles look for newer generations -/

theorem update_eq_self (hc : s.client n = some c) :
    s.update n s.workspace (some c) = s := by
  rw [update, ← hc, Function.update_eq_self]

/-- A handle takes over a generation, or leaves it. -/
theorem take_spec (p : Project) (g : Generation) :
    p.take g = p ∨ p.take g = { p with current := some g } := by
  rw [Project.take]
  split
  · split
    · exact Or.inl rfl
    · exact Or.inr rfl
  · exact Or.inr rfl

/-- A handle that holds the generation in use takes over no other one. -/
theorem Settled.take_eq {p : Project} (h : Settled shelf p)
    (hle : ∃ i, shelf.current = some i ∧ g.id ≤ i) : p.take g = p := by
  obtain ⟨i, hi, hle⟩ := hle
  rw [Settled, hi] at h
  obtain ⟨held, hheld, rfl⟩ := Option.map_eq_some_iff.mp h
  rw [Project.take, hheld]
  exact if_pos hle

theorem Proper.take {p : Project} {stage : Stage} (h : Proper home w installed shelf named p stage)
    (hle : ∃ i, shelf.current = some i ∧ g.id ≤ i) :
    Proper home w installed shelf named (p.take g) stage := by
  cases stage with
  | locked | undoing _ _ => exact h
  | ended answer =>
      cases answer with
      | error f => trivial
      | ok built => exact h
  | looked =>
      have hsettled : Settled shelf p := h
      rw [hsettled.take_eq hle]
      exact h
  | prepared _ _ _ | created _ _ _ | filled _ _ | opened _ _ | installed _ _ =>
      rw [h.1.take_eq hle]
      exact h

namespace Inv

theorem takes (h : Inv home s shelf named) (hc : s.client n = some c)
    (hg : Known home s.workspace s.installed named g)
    (hpath : g.path = c.project.directory.fileFor g.id) :
    Inv home (s.update n s.workspace (some { c with project := c.project.take g })) shelf named := by
  have hattached := h.clients n c hc
  have hdirectory : (c.project.take g).directory = c.project.directory := by
    rcases take_spec c.project g with hsame | hnew
    · rw [hsame]
    · rw [hnew]
  refine h.setClient hc rfl ⟨hdirectory ▸ hattached.lies, ?_, ?_⟩ hdirectory fun k hk =>
    (h.proper n c k ⟨hc, hk⟩).take (h.known_le hg)
  · intro g' hg'
    rw [hdirectory]
    rcases take_spec c.project g with hsame | hnew
    · exact hattached.current g' (hsame ▸ hg')
    · have hsome : (c.project.take g).current = some g' := hg'
      rw [hnew] at hsome
      obtain rfl := Option.some.inj hsome
      exact ⟨hg, hpath⟩
  · intro g' hg'
    rw [hdirectory]
    exact hattached.found g' hg'

theorem refresh (h : Inv home s shelf named) (hc : s.client n = some c) :
    ∃ named', Inv home (s.update n (c.project.refresh s.workspace).1
      (some { c with project := (c.project.refresh s.workspace).2 })) shelf named' := by
  have hlies := (h.clients n c hc).lies
  have hself : Inv home (s.update n s.workspace (some { c with project := c.project })) shelf
      named := by
    rw [update_eq_self hc]
    exact h
  rw [Project.refresh_eq_take, h.isAt.readCurrent_eq hlies]
  cases hcurrent : shelf.current with
  | none => exact ⟨named, hself⟩
  | some id =>
      dsimp only
      split
      · exact ⟨named, hself⟩
      · cases hopen : s.workspace.openGeneration id (c.project.directory.fileFor id) with
        | error f => exact ⟨named, hself⟩
        | ok opened =>
            obtain ⟨w, g⟩ := opened
            obtain ⟨e, he, hid⟩ := Option.map_eq_some_iff.mp (h.current.symm.trans hcurrent)
            have hmem : (id, e.2) ∈ s.installed := hid ▸ List.mem_of_mem_head? he
            obtain ⟨named', hopened, hknown, hpath⟩ := h.opens hlies hmem hopen
            exact ⟨named', hopened.takes hc hknown hpath⟩

theorem asking (h : Inv home s shelf named) (hc : s.client n = some c) (q : Project.Query) :
    ∃ named', Inv home (s.update n (q.put s.workspace c.project).1
      (some { c with project := (q.put s.workspace c.project).2.1 })) shelf named' := by
  obtain ⟨named', hfirst⟩ := h.refresh hc
  rcases q.put_refreshes s.workspace c.project with hput | hput
  · obtain ⟨hw, hp⟩ := Prod.mk.inj (hput.trans Prod.mk.eta.symm)
    rw [hw, hp]
    exact ⟨named', hfirst⟩
  · obtain ⟨hw, hp⟩ := Prod.mk.inj (hput.trans Prod.mk.eta.symm)
    rw [hw, hp]
    obtain ⟨named'', hagain⟩ := hfirst.refresh (update_self ..)
    refine ⟨named'', ?_⟩
    rw [update, update, Function.update_idem] at hagain
    exact hagain

/-! ## Readers come and go -/

/-- Readers come and go, and generations are retired, without a change of the files. -/
theorem rereads (h : Inv home s shelf named) {readers retired : List Generation}
    (hreaders : ∀ r ∈ readers, Known home s.workspace s.installed named r)
    (hretired : ∀ r ∈ retired, Known home s.workspace s.installed named r ∧
      { s.workspace with readers, retired }.isHeld r = true ∧
      ∃ c, shelf.current = some c ∧ r.id < c)
    (hsubset : s.workspace.retired ⊆ retired) :
    Inv home { s with workspace := { s.workspace with readers, retired } } shelf named := by
  have hlater : Later home s.workspace { s.workspace with readers, retired } s.installed s.installed
      named named := .of_workspace rfl rfl
  exact { h with
    clients := fun n c hc => (h.clients n c hc).later hlater
    readers := fun r hr => (hreaders r hr).later hlater
    retired := fun r hr => ⟨(hretired r hr).1.later hlater, (hretired r hr).2⟩
    proper := fun n c k hbusy => (h.proper n c k hbusy).later hlater
    accounted := fun id hid => (h.accounted id hid).imp_right (Or.imp_left (by
      rintro ⟨r, hr, hrid⟩
      exact ⟨r, hsubset hr, hrid⟩)) }

theorem holds (h : Inv home s shelf named) (hg : Known home s.workspace s.installed named g) :
    Inv home { s with workspace := s.workspace.hold g } shelf named := by
  refine h.rereads (fun r hr => ?_) (fun r hr => ⟨(h.retired r hr).1, ?_, (h.retired r hr).2.2⟩)
    (List.Subset.refl _)
  · exact (List.mem_cons.mp hr).elim (fun hsame => hsame ▸ hg) (h.readers r)
  · have hheld := (h.retired r hr).2.1
    rw [Workspace.isHeld, List.any_eq_true] at hheld ⊢
    obtain ⟨r', hr', htoken⟩ := hheld
    exact ⟨r', List.mem_cons_of_mem _ hr', htoken⟩

/-- The last reader of a retired generation lets go, and its store goes away. -/
theorem forgets (h : Inv home s shelf named) (hg : g ∈ s.workspace.retired) {d : IndexDirectory}
    (hd : d.LiesAt s.workspace.tree home) {readers : List Generation}
    (hreaders : ∀ r ∈ readers, Known home s.workspace s.installed named r)
    (hheld : ∀ r ∈ s.workspace.retired, r.token ≠ g.token →
      { s.workspace with readers }.isHeld r = true) :
    Inv home { s with workspace := { s.workspace with
        readers
        retired := s.workspace.retired.filter fun r => r.token ≠ g.token
        tree := removeStore s.workspace.tree (d.fileFor g.id) } } (shelf.drop g.id) named := by
  obtain ⟨hknown, -, i, hi, hlt⟩ := h.retired g hg
  have hturns := h.isAt.removeStore hd g.id
  have hlater : Later home s.workspace { s.workspace with
      readers
      retired := s.workspace.retired.filter fun r => r.token ≠ g.token
      tree := removeStore s.workspace.tree (d.fileFor g.id) } s.installed s.installed named named :=
    ⟨hturns.lies, le_rfl, fun _ _ => rfl, fun _ => id⟩
  exact {
    isAt := hturns.isAt
    current := h.current
    ordered := h.ordered
    valid := h.valid
    faithful := fun e he store hstore =>
      h.faithful e he store (Shelf.store_drop_eq_some_iff.mp hstore).2
    stocked := fun i' hi' => by
      refine Shelf.isSome_store_drop_iff.mpr ⟨?_, h.stocked i' hi'⟩
      rintro rfl
      exact hlt.ne (Option.some.inj (hi'.symm.trans hi))
    clients := fun n c hc => (h.clients n c hc).later hlater
    readers := fun r hr => (hreaders r hr).later hlater
    retired := fun r hr => by
      obtain ⟨hr, htoken⟩ := List.mem_filter.mp hr
      obtain ⟨hknown', -, hlt'⟩ := h.retired r hr
      exact ⟨hknown'.later hlater, hheld r hr (of_decide_eq_true htoken), hlt'⟩
    alone := h.alone
    locked := fun n c k hbusy => ⟨(h.locked n c k hbusy).1, hturns.lock (h.locked n c k hbusy).2⟩
    proper := fun n c k hbusy => by
      refine ((h.proper n c k hbusy).later hlater).of_stores rfl fun id hid => ?_
      refine Shelf.store_drop_of_ne _ ?_
      rintro rfl
      exact hlt.not_gt (hid.2 i hi)
    started := h.started
    accounted := fun id hid => by
      obtain ⟨hne, hstored⟩ := Shelf.isSome_store_drop_iff.mp hid
      refine (h.accounted id hstored).imp_right (Or.imp_left ?_)
      rintro ⟨r, hr, rfl⟩
      refine ⟨r, List.mem_filter.mpr ⟨hr, decide_eq_true fun htoken => hne ?_⟩, rfl⟩
      rw [← (h.retired r hr).1.named, ← hknown.named, htoken] }

/-- A reader lets go: if it was the last one of a retired generation, its store goes away. -/
theorem releases (h : Inv home s shelf named) (hg : g ∈ s.workspace.readers) :
    ∃ shelf', Inv home { s with workspace := s.workspace.release g } shelf' named := by
  have hknown := h.readers g hg
  have hsame : ∀ r ∈ s.workspace.retired, r.token = g.token → r = g := by
    intro r hr htoken
    rw [← (h.retired r hr).1.named, ← hknown.named, htoken]
  have hreaders : ∀ r ∈ Workspace.eraseReader g s.workspace.readers,
      Known home s.workspace s.installed named r :=
    fun r hr => h.readers r (Workspace.mem_of_mem_eraseReader hr)
  have hheld : ∀ r ∈ s.workspace.retired, r.token ≠ g.token →
      { s.workspace with
        readers := Workspace.eraseReader g s.workspace.readers }.isHeld r = true := by
    intro r hr htoken
    rw [Workspace.isHeld_eraseReader s.workspace htoken]
    exact (h.retired r hr).2.1
  rcases s.workspace.release_cases g with ⟨hw, hstill⟩ | ⟨hw, -, r, hr, htoken⟩
  · rw [hw]
    refine ⟨shelf, h.rereads hreaders (fun r hr => ⟨(h.retired r hr).1, ?_, (h.retired r hr).2.2⟩)
      (List.Subset.refl _)⟩
    by_cases htoken : r.token = g.token
    · rw [hsame r hr htoken]
      exact hstill r hr htoken
    · exact hheld r hr htoken
  · obtain rfl := hsame r hr htoken
    obtain ⟨d, hd, hpath⟩ := hknown.path
    rw [hw, hpath]
    exact ⟨_, h.forgets hr hd hreaders hheld⟩

end Inv

end Session

end SourceIndex
