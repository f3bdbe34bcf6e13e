import Mathlib
import SourceIndex.Files.Tree
import SourceIndex.Proofs.Path.Normal

/-! # Well-formed trees and edits

In a *well-formed* tree every item has names of its own and lies in a directory
(`FileTree.WellFormed`). An *edit* of a tree puts a file where no directory and no link stands,
or takes a file away (`FileTree.Edit`). Edits keep trees well-formed, and a path that leads
elsewhere leads there still (`FileTree.Edit.locate_eq`).
-/

set_option autoImplicit false

namespace SourceIndex

namespace FileTree

/-! ## Items -/

@[simp] theorem item?_nil (t : FileTree) : t.item? [] = some .directory := rfl

theorem item?_eq_find? (t : FileTree) {names : List String} (h : names ≠ []) :
    t.item? names = (t.entries.find? (·.1 == names)).map (·.2) := by
  cases names with
  | nil => exact absurd rfl h
  | cons n names => rfl

theorem mem_of_item? {t : FileTree} {names : List String} {item : FileItem} (h : names ≠ [])
    (hitem : t.item? names = some item) : (names, item) ∈ t.entries := by
  rw [item?_eq_find? t h] at hitem
  obtain ⟨⟨ns, i⟩, hfind, rfl⟩ := Option.map_eq_some_iff.mp hitem
  have hns : ns = names := by simpa using List.find?_some hfind
  exact hns ▸ List.mem_of_find?_eq_some hfind

theorem hasDirectory_iff (t : FileTree) (names : List String) :
    t.hasDirectory names = true ↔ t.item? names = some .directory := by
  unfold hasDirectory
  split <;> simp_all

theorem isBelow_iff (lead names : List String) : isBelow lead names = true ↔ lead <+: names :=
  List.isPrefixOf_iff_prefix

theorem item?_remove_of_not_prefix (t : FileTree) {lead names : List String}
    (h : ¬ lead <+: names) : (t.remove lead).item? names = t.item? names := by
  cases names with
  | nil => rfl
  | cons n names =>
      rw [item?_eq_find? _ (by simp), item?_eq_find? _ (by simp), remove, List.find?_filter]
      congr 2
      funext e
      by_cases he : e.1 = n :: names
      · have hbelow : isBelow lead (n :: names) = false := by
          rw [Bool.eq_false_iff, Ne, isBelow_iff]
          exact h
        simp [he, hbelow]
      · simp [he]

theorem item?_remove_of_prefix (t : FileTree) {lead names : List String} (hne : names ≠ [])
    (h : lead <+: names) : (t.remove lead).item? names = none := by
  rw [item?_eq_find? _ hne, Option.map_eq_none_iff, List.find?_eq_none]
  intro e he hname
  have hkept := (List.mem_filter.mp he).2
  rw [show e.1 = names by simpa using hname, (isBelow_iff lead names).mpr h] at hkept
  cases hkept

theorem item?_set_self (t : FileTree) {names : List String} (hne : names ≠ []) (item : FileItem) :
    (t.set names item).item? names = some item := by
  have hgone := t.item?_remove_of_prefix hne (List.prefix_refl names)
  rw [item?_eq_find? _ hne, Option.map_eq_none_iff] at hgone
  rw [item?_eq_find? _ hne, set, List.find?_append, hgone]
  simp

theorem item?_set_of_ne (t : FileTree) {names ms : List String} (h : ms ≠ names)
    (item : FileItem) : (t.set names item).item? ms = (t.remove names).item? ms := by
  cases ms with
  | nil => rfl
  | cons m ms =>
      rw [item?_eq_find? _ (by simp), item?_eq_find? _ (by simp), set, List.find?_append]
      simp [Ne.symm h]

/-- An item that is set twice is what it was set to last. -/
theorem set_set (t : FileTree) (spot : List String) (item item' : FileItem) :
    (t.set spot item).set spot item' = t.set spot item' := by
  have hspot : isBelow spot spot = true := (isBelow_iff _ _).mpr (List.prefix_refl _)
  simp [set, remove, List.filter_append, List.filter_filter, hspot]

/-- An item that is taken away might as well not have been set. -/
theorem remove_set (t : FileTree) (spot : List String) (item : FileItem) :
    (t.set spot item).remove spot = t.remove spot := by
  have hspot : isBelow spot spot = true := (isBelow_iff _ _).mpr (List.prefix_refl _)
  simp [set, remove, List.filter_append, List.filter_filter, hspot]

/-- A file that was made first does not matter. -/
theorem set_remove_set (t : FileTree) {spot other : List String} (h : ¬ other <+: spot)
    (item item' : FileItem) :
    ((t.set spot item).remove other).set spot item' = (t.remove other).set spot item' := by
  have hother : isBelow other spot = false := by
    rw [Bool.eq_false_iff, Ne, isBelow_iff]
    exact h
  have hspot : isBelow spot spot = true :=
    (isBelow_iff _ _).mpr (List.prefix_refl _)
  simp only [set, remove, List.filter_append, List.filter_filter]
  congr 2
  simp only [List.filter_cons, List.filter_nil, hother, hspot]
  simp only [Bool.not_false, Bool.not_true, Bool.and_true, List.append_nil, Bool.false_eq_true,
    if_false]
  refine List.filter_congr fun e _ => ?_
  cases isBelow spot e.1 <;> simp

/-! ## Well-formed trees -/

/-- Every item has names of its own and lies in a directory. -/
structure WellFormed (t : FileTree) : Prop where
  nodup : (t.entries.map (·.1)).Nodup
  nonempty : ∀ e ∈ t.entries, e.1 ≠ []
  names : ∀ e ∈ t.entries, ∀ n ∈ e.1, Path.IsName n
  parents : ∀ e ∈ t.entries, t.hasDirectory e.1.dropLast = true

namespace WellFormed

variable {t : FileTree}

theorem item?_of_mem (h : t.WellFormed) {names : List String} {item : FileItem}
    (hmem : (names, item) ∈ t.entries) : t.item? names = some item := by
  rw [item?_eq_find? _ (h.nonempty _ hmem), Option.map_eq_some_iff]
  cases hfind : t.entries.find? (·.1 == names) with
  | none =>
      have hno := List.find?_eq_none.mp hfind _ hmem
      simp at hno
  | some e =>
      have hname : e.1 = names := by simpa using List.find?_some hfind
      have hsame := List.inj_on_of_nodup_map h.nodup (List.mem_of_find?_eq_some hfind) hmem hname
      exact ⟨e, rfl, congrArg Prod.snd hsame⟩

theorem isName_of_item? (h : t.WellFormed) {names : List String} {item : FileItem}
    (hitem : t.item? names = some item) : ∀ n ∈ names, Path.IsName n := by
  by_cases hne : names = []
  · simp [hne]
  · exact h.names _ (mem_of_item? hne hitem)

theorem hasDirectory_dropLast (h : t.WellFormed) {names : List String} {item : FileItem}
    (hitem : t.item? names = some item) : t.hasDirectory names.dropLast = true := by
  by_cases hne : names = []
  · subst hne
    rfl
  · exact h.parents _ (mem_of_item? hne hitem)

/-- The names in a directory are those that an item has there. -/
theorem mem_namesIn (h : t.WellFormed) {directory : List String} {name : String} :
    name ∈ t.namesIn directory ↔ (t.item? (directory ++ [name])).isSome = true := by
  rw [namesIn, List.mem_filterMap]
  constructor
  · rintro ⟨⟨names, item⟩, hmem, hname⟩
    split at hname
    · rename_i hdirectory
      have hnames : names = directory ++ [name] := by
        rw [← hdirectory]
        exact (List.dropLast_append_getLast? name hname).symm
      rw [← hnames, h.item?_of_mem hmem]
      rfl
    · cases hname
  · intro hsome
    obtain ⟨item, hitem⟩ := Option.isSome_iff_exists.mp hsome
    exact ⟨_, mem_of_item? (by simp) hitem, by simp⟩

/-- What lies above an item is a directory. -/
theorem hasDirectory_of_prefix (h : t.WellFormed) {lead names : List String} {item : FileItem}
    (hitem : t.item? names = some item) (hlead : lead <+: names) (hne : lead ≠ names) :
    t.hasDirectory lead = true := by
  obtain ⟨below, rfl⟩ := hlead
  induction below using List.reverseRecOn generalizing item with
  | nil => simp at hne
  | append_singleton below n ih =>
      have hparent := h.hasDirectory_dropLast hitem
      rw [← List.append_assoc, List.dropLast_concat] at hparent
      by_cases hbelow : below = []
      · simpa [hbelow] using hparent
      · exact ih ((hasDirectory_iff t _).mp hparent) (by simpa using hbelow)

end WellFormed

/-! ## Following paths -/

/-- How a path goes on from the item `here` at a link, if another link may be followed. -/
def follow (t : FileTree) :
    (links : Nat) → (here pieces : List String) → Except Obstacle (List String)
  | 0, _, _ => .error .linkLoop
  | links + 1, here, pieces => t.locateFrom links here pieces

theorem locateFrom_nil (t : FileTree) (links : Nat) (here : List String) :
    t.locateFrom links here [] = .ok here := by
  cases links <;> rfl

theorem locateFrom_cons (t : FileTree) (links : Nat) (here : List String) (p : String)
    (ps : List String) :
    t.locateFrom links here (p :: ps) =
      if !t.hasDirectory here then .error .notDirectory
      else if p = "" ∨ p = "." then t.locateFrom links here ps
      else if p = ".." then t.locateFrom links here.dropLast ps
      else
        match t.item? (here ++ [p]) with
        | none => .error .missing
        | some (.link target) =>
          t.follow links (if Text.startsWith target "/" then [] else here)
            (Text.split (· == '/') target ++ ps)
        | some _ => t.locateFrom links (here ++ [p]) ps := by
  cases links <;> rfl

/-- Whether a piece names an item, rather than the directory it stands in or the one above. -/
def Names (p : String) : Prop := ¬ (p = "" ∨ p = ".") ∧ p ≠ ".."

/-- Pieces lead from an item to another one, and so many links may still be followed then. -/
inductive Leads (t : FileTree) :
    (links : Nat) → (here pieces : List String) → (left : Nat) → (names : List String) → Prop where
  | done {links here} : Leads t links here [] links here
  | stay {links here p ps left names} : t.hasDirectory here = true → p = "" ∨ p = "." →
      Leads t links here ps left names → Leads t links here (p :: ps) left names
  | up {links here ps left names} : t.hasDirectory here = true →
      Leads t links here.dropLast ps left names → Leads t links here (".." :: ps) left names
  | down {links here p ps left names item} : t.hasDirectory here = true → Names p →
      t.item? (here ++ [p]) = some item → (∀ target, item ≠ .link target) →
      Leads t links (here ++ [p]) ps left names → Leads t links here (p :: ps) left names
  | along {links here p ps left names target} : t.hasDirectory here = true → Names p →
      t.item? (here ++ [p]) = some (.link target) →
      Leads t links (if Text.startsWith target "/" then [] else here)
        (Text.split (· == '/') target ++ ps) left names →
      Leads t (links + 1) here (p :: ps) left names

theorem leads_of_locateFrom {t : FileTree} {links : Nat} {here pieces names : List String}
    (h : t.locateFrom links here pieces = .ok names) :
    ∃ left, t.Leads links here pieces left names := by
  induction links using Nat.strong_induction_on generalizing here pieces with
  | _ links ihLinks =>
      induction pieces generalizing here with
      | nil =>
          rw [locateFrom_nil] at h
          cases h
          exact ⟨links, .done⟩
      | cons p ps ih =>
          rw [locateFrom_cons] at h
          cases hdir : t.hasDirectory here with
          | false => simp [hdir] at h
          | true =>
              simp only [hdir, Bool.not_true, Bool.false_eq_true, if_false] at h
              by_cases hidle : p = "" ∨ p = "."
              · obtain ⟨left, hleads⟩ := ih (by simpa [hidle] using h)
                exact ⟨left, .stay hdir hidle hleads⟩
              · by_cases hup : p = ".."
                · subst hup
                  obtain ⟨left, hleads⟩ := ih (by simpa using h)
                  exact ⟨left, .up hdir hleads⟩
                · simp only [hidle, hup, if_false] at h
                  split at h
                  · cases h
                  · rename_i target hitem
                    cases links with
                    | zero => cases h
                    | succ links =>
                        obtain ⟨left, hleads⟩ := ihLinks links (Nat.lt_succ_self links) h
                        exact ⟨left, .along hdir ⟨hidle, hup⟩ hitem hleads⟩
                  · rename_i item hlink hitem
                    obtain ⟨left, hleads⟩ := ih h
                    exact ⟨left, .down hdir ⟨hidle, hup⟩ hitem hlink hleads⟩

namespace Leads

variable {t : FileTree} {links left : Nat} {here pieces names : List String}

/-- The pieces after those that lead to an item are followed from there. -/
theorem locateFrom_append (h : t.Leads links here pieces left names) (rest : List String) :
    t.locateFrom links here (pieces ++ rest) = t.locateFrom left names rest := by
  induction h with
  | done => rfl
  | stay hdir hidle _ ih =>
      rw [List.cons_append, locateFrom_cons]
      simp [hdir, hidle, ih]
  | up hdir _ ih =>
      rw [List.cons_append, locateFrom_cons]
      simp [hdir, ih]
  | down hdir hp hitem hlink _ ih =>
      rw [List.cons_append, locateFrom_cons, hitem]
      simp only [hdir, hp.1, hp.2, Bool.not_true, Bool.false_eq_true, if_false]
      exact ih
  | along hdir hp hitem _ ih =>
      rw [List.cons_append, locateFrom_cons, hitem]
      simp only [hdir, hp.1, hp.2, Bool.not_true, Bool.false_eq_true, if_false]
      rw [← List.append_assoc]
      exact ih

theorem locateFrom_eq (h : t.Leads links here pieces left names) :
    t.locateFrom links here pieces = .ok names := by
  have happ := h.locateFrom_append []
  rwa [List.append_nil, locateFrom_nil] at happ

/-- Leading pieces lead somewhere as well. -/
theorem exists_of_append {a b : List String} (h : t.Leads links here (a ++ b) left names) :
    ∃ mid x, t.Leads links here a mid x ∧ t.Leads mid x b left names := by
  generalize hab : a ++ b = ps at h
  induction h generalizing a with
  | done =>
      obtain ⟨rfl, rfl⟩ := List.append_eq_nil_iff.mp hab
      exact ⟨_, _, .done, .done⟩
  | stay hdir hidle h ih =>
      rcases List.append_eq_cons_iff.mp hab with ⟨rfl, rfl⟩ | ⟨a, rfl, hps⟩
      · exact ⟨_, _, .done, .stay hdir hidle h⟩
      · obtain ⟨mid, x, ha, hb⟩ := ih hps.symm
        exact ⟨mid, x, .stay hdir hidle ha, hb⟩
  | up hdir h ih =>
      rcases List.append_eq_cons_iff.mp hab with ⟨rfl, rfl⟩ | ⟨a, rfl, hps⟩
      · exact ⟨_, _, .done, .up hdir h⟩
      · obtain ⟨mid, x, ha, hb⟩ := ih hps.symm
        exact ⟨mid, x, .up hdir ha, hb⟩
  | down hdir hp hitem hlink h ih =>
      rcases List.append_eq_cons_iff.mp hab with ⟨rfl, rfl⟩ | ⟨a, rfl, hps⟩
      · exact ⟨_, _, .done, .down hdir hp hitem hlink h⟩
      · obtain ⟨mid, x, ha, hb⟩ := ih hps.symm
        exact ⟨mid, x, .down hdir hp hitem hlink ha, hb⟩
  | along hdir hp hitem h ih =>
      rcases List.append_eq_cons_iff.mp hab with ⟨rfl, rfl⟩ | ⟨a, rfl, hps⟩
      · exact ⟨_, _, .done, .along hdir hp hitem h⟩
      · obtain ⟨mid, x, ha, hb⟩ := ih ((List.append_assoc _ _ _).trans (congrArg _ hps.symm))
        exact ⟨mid, x, .along hdir hp hitem ha, hb⟩

/-- Only a directory leads on. -/
theorem hasDirectory (h : t.Leads links here pieces left names) (hne : pieces ≠ []) :
    t.hasDirectory here = true := by
  cases h with
  | done => exact absurd rfl hne
  | stay hdir _ _ => exact hdir
  | up hdir _ => exact hdir
  | down hdir _ _ _ _ => exact hdir
  | along hdir _ _ _ => exact hdir

/-- An empty piece leads nowhere else. -/
theorem eq_of_empty {p : String} (h : t.Leads links here [p] left names) (hp : p = "") :
    left = links ∧ names = here := by
  cases h with
  | stay _ _ hrest =>
      cases hrest
      exact ⟨rfl, rfl⟩
  | up _ _ => exact absurd hp (by decide)
  | down _ hnames _ _ _ => exact absurd (Or.inl hp) hnames.1
  | along _ hnames _ _ => exact absurd (Or.inl hp) hnames.1

end Leads

/-! ## One path after another -/

theorem exists_of_endsWith_slash {text : String} (h : Text.endsWith text "/" = true) :
    ∃ a, text = a ++ "/" := by
  have hhead : text.toList.reverse.head? = some '/' := by
    have hrev : Text.startsWith (String.ofList text.toList.reverse) "/" = true := by
      simpa [Text.startsWith, Text.endsWith] using h
    simpa using (Path.startsWith_slash_iff _).mp hrev
  rw [List.head?_reverse] at hhead
  refine ⟨String.ofList text.toList.dropLast, ?_⟩
  rw [← String.toList_inj, String.toList_append, String.toList_ofList]
  obtain ⟨hne, hlast⟩ := List.getLast?_eq_some_iff.mp hhead
  simp [hlast]

/-- The pieces of a relative path come after those of the path it is taken from. -/
theorem pieces_join (p : Path) {q : Path} (hq : q.isAbsolute = false) :
    ∃ lead, pieces (p.join q) = lead ++ pieces q ∧
      (pieces p = lead ∨ pieces p = lead ++ [""]) := by
  obtain ⟨text⟩ := p
  rw [Path.join, hq]
  simp only [Bool.false_eq_true, if_false, Bool.or_eq_true, decide_eq_true_eq]
  by_cases hempty : text = ""
  · subst hempty
    exact ⟨[], by simp [pieces], Or.inr rfl⟩
  · by_cases hslash : Text.endsWith text "/" = true
    · obtain ⟨a, rfl⟩ := exists_of_endsWith_slash hslash
      refine ⟨Text.split (· == '/') a, ?_, Or.inr ?_⟩
      · simp only [hslash, or_true, if_true, pieces]
        exact Text.split_append_slash a q.text
      · have hsplit := Text.split_append_slash a ""
        rw [String.append_empty] at hsplit
        exact hsplit
    · refine ⟨Text.split (· == '/') text, ?_, Or.inl rfl⟩
      simp only [hempty, hslash, pieces]
      exact Text.split_append_slash text q.text

/-- A relative path is followed from where the path it is taken from leads. -/
theorem leads_join {t : FileTree} {p q : Path} {here : List String} (hp : t.locate p = .ok here)
    (hq : q.isAbsolute = false) :
    ∃ lead left, pieces (p.join q) = lead ++ pieces q ∧ t.Leads maxLinks [] lead left here := by
  obtain ⟨lead, hpieces, hlead | hlead⟩ := pieces_join p hq
  · rw [locate, hlead] at hp
    obtain ⟨left, hleads⟩ := leads_of_locateFrom hp
    exact ⟨lead, left, hpieces, hleads⟩
  · rw [locate, hlead] at hp
    obtain ⟨left, hleads⟩ := leads_of_locateFrom hp
    obtain ⟨mid, x, hmid, hlast⟩ := hleads.exists_of_append
    obtain ⟨rfl, rfl⟩ := hlast.eq_of_empty rfl
    exact ⟨lead, left, hpieces, hmid⟩

/-- Names lead down from a directory to an item that is no link. -/
theorem WellFormed.leads {t : FileTree} (h : t.WellFormed) {names : List String}
    (hnames : ∀ n ∈ names, Path.IsName n) {here : List String} {item : FileItem}
    (hitem : t.item? (here ++ names) = some item) (hlink : ∀ target, item ≠ .link target)
    (links : Nat) : t.Leads links here names links (here ++ names) := by
  induction names generalizing here with
  | nil =>
      rw [List.append_nil]
      exact .done
  | cons n names ih =>
      have hn := hnames n (by simp)
      have hdir : t.hasDirectory here = true :=
        h.hasDirectory_of_prefix hitem (List.prefix_append _ _) (by simp)
      rw [List.append_cons] at hitem ⊢
      have hrest := ih (fun m hm => hnames m (by simp [hm])) hitem
      have hname : Names n := ⟨fun hidle => hidle.elim hn.1 hn.2.1, hn.2.2.1⟩
      by_cases hlast : names = []
      · subst hlast
        rw [List.append_nil] at hitem
        exact .down hdir hname hitem hlink hrest
      · have hnext : t.hasDirectory (here ++ [n]) = true :=
          h.hasDirectory_of_prefix hitem (List.prefix_append _ _) (by simpa using hlast)
        rw [hasDirectory_iff] at hnext
        exact .down hdir hname hnext (fun _ hlink => by cases hlink) hrest

/-- A path of names from where another path leads. -/
theorem WellFormed.locate_join {t : FileTree} (h : t.WellFormed) {p : Path} {here : List String}
    (hp : t.locate p = .ok here) {names : List String} (hne : names ≠ [])
    (hnames : ∀ n ∈ names, Path.IsName n) {item : FileItem}
    (hitem : t.item? (here ++ names) = some item) (hlink : ∀ target, item ≠ .link target) :
    t.locate (p.join ⟨"/".intercalate names⟩) = .ok (here ++ names) := by
  obtain ⟨lead, left, hpieces, hleads⟩ := leads_join hp (Path.not_isAbsolute_of_names hnames)
  have hsplit : pieces ⟨"/".intercalate names⟩ = names :=
    Text.split_intercalate rfl hne fun n hn => (hnames n hn).2.2.2
  rw [locate, hpieces, hsplit, hleads.locateFrom_append]
  exact (h.leads hnames hitem hlink left).locateFrom_eq

/-! ## Edits -/

/-- Two trees have the same items but for one spot, at which neither has a directory or a link. -/
structure Edit (spot : List String) (t t' : FileTree) : Prop where
  same : ∀ names, names ≠ spot → t'.item? names = t.item? names
  before : ∀ item, t.item? spot = some item → item.isFile = true
  after : ∀ item, t'.item? spot = some item → item.isFile = true

namespace Edit

variable {t t' : FileTree} {spot : List String}

theorem symm (h : Edit spot t t') : Edit spot t' t where
  same names hne := (h.same names hne).symm
  before := h.after
  after := h.before

theorem hasDirectory (h : Edit spot t t') {names : List String}
    (hdir : t.hasDirectory names = true) : t'.hasDirectory names = true := by
  have hitem := (hasDirectory_iff t names).mp hdir
  have hne : names ≠ spot := by
    rintro rfl
    cases h.before _ hitem
  exact (hasDirectory_iff t' names).mpr ((h.same names hne).trans hitem)

theorem hasDirectory_eq (h : Edit spot t t') (names : List String) :
    t'.hasDirectory names = t.hasDirectory names :=
  Bool.eq_iff_iff.mpr ⟨h.symm.hasDirectory, h.hasDirectory⟩

/-- Pieces that do not lead to the spot lead where they led. -/
theorem leads (h : Edit spot t t') {links left : Nat} {here pieces names : List String}
    (hleads : t.Leads links here pieces left names) (hne : names ≠ spot) :
    t'.Leads links here pieces left names := by
  induction hleads with
  | done => exact .done
  | stay hdir hidle _ ih => exact .stay (h.hasDirectory hdir) hidle (ih hne)
  | up hdir _ ih => exact .up (h.hasDirectory hdir) (ih hne)
  | @down links here p ps left names item hdir hp hitem hlink hrest ih =>
      have hspot : here ++ [p] ≠ spot := by
        intro hspot
        -- a file leads no further, so it would be where the pieces lead
        cases ps with
        | nil =>
            cases hrest
            exact hne hspot
        | cons q ps =>
            have hdir := hrest.hasDirectory (by simp)
            rw [hasDirectory_iff, hspot] at hdir
            cases h.before _ hdir
      exact .down (h.hasDirectory hdir) hp ((h.same _ hspot).trans hitem) hlink (ih hne)
  | @along links here p ps left names target hdir hp hitem _ ih =>
      have hspot : here ++ [p] ≠ spot := by
        intro hspot
        rw [hspot] at hitem
        cases h.before _ hitem
      exact .along (h.hasDirectory hdir) hp ((h.same _ hspot).trans hitem) (ih hne)

/-- A path that does not lead to the spot leads where it led. -/
theorem locate (h : Edit spot t t') {path : Path} {names : List String}
    (hlocate : t.locate path = .ok names) (hne : names ≠ spot) : t'.locate path = .ok names := by
  obtain ⟨left, hleads⟩ := leads_of_locateFrom hlocate
  exact (h.leads hleads hne).locateFrom_eq

end Edit

namespace WellFormed

variable {t : FileTree} {spot : List String}

/-- Nothing lies below a spot that is free or has a file. -/
theorem item?_below (h : t.WellFormed) (hspot : ∀ item, t.item? spot = some item → item.isFile = true)
    {names : List String} (hbelow : spot <+: names) (hne : names ≠ spot) : t.item? names = none := by
  cases hitem : t.item? names with
  | none => rfl
  | some item =>
      have hdir := h.hasDirectory_of_prefix hitem hbelow (Ne.symm hne)
      rw [hasDirectory_iff] at hdir
      cases hspot _ hdir

theorem item?_remove (h : t.WellFormed)
    (hspot : ∀ item, t.item? spot = some item → item.isFile = true) {names : List String}
    (hne : names ≠ spot) : (t.remove spot).item? names = t.item? names := by
  by_cases hbelow : spot <+: names
  · rw [h.item?_below hspot hbelow hne]
    refine t.item?_remove_of_prefix ?_ hbelow
    rintro rfl
    exact hne (List.prefix_nil.mp hbelow).symm
  · exact t.item?_remove_of_not_prefix hbelow

/-- Taking away what is not there changes nothing. -/
theorem remove_eq_self (h : t.WellFormed) (hnone : t.item? spot = none) : t.remove spot = t := by
  have hkept : ∀ e ∈ t.entries, (!isBelow spot e.1) = true := by
    intro e he
    rw [Bool.not_eq_true', Bool.eq_false_iff, Ne, isBelow_iff]
    intro hbelow
    have hitem := h.item?_of_mem he
    by_cases hne : e.1 = spot
    · rw [hne, hnone] at hitem
      cases hitem
    · rw [h.item?_below (by simp [hnone]) hbelow hne] at hitem
      cases hitem
  rw [FileTree.remove, List.filter_eq_self.mpr hkept]

/-- A file is taken away. -/
theorem edit_remove (h : t.WellFormed) (hne : spot ≠ [])
    (hspot : ∀ item, t.item? spot = some item → item.isFile = true) :
    Edit spot t (t.remove spot) where
  same names hnames := h.item?_remove hspot hnames
  before := hspot
  after item hitem := by
    rw [t.item?_remove_of_prefix hne (List.prefix_refl spot)] at hitem
    cases hitem

/-- A file is put in place. -/
theorem edit_set (h : t.WellFormed) (hne : spot ≠ [])
    (hspot : ∀ item, t.item? spot = some item → item.isFile = true) {file : FileItem}
    (hfile : file.isFile = true) : Edit spot t (t.set spot file) where
  same names hnames := by rw [t.item?_set_of_ne hnames, h.item?_remove hspot hnames]
  before := hspot
  after item hitem := by
    rw [t.item?_set_self hne] at hitem
    cases hitem
    exact hfile

theorem remove (h : t.WellFormed) (hne : spot ≠ [])
    (hspot : ∀ item, t.item? spot = some item → item.isFile = true) :
    (t.remove spot).WellFormed where
  nodup := h.nodup.sublist (List.filter_sublist.map _)
  nonempty e he := h.nonempty e (List.mem_filter.mp he).1
  names e he := h.names e (List.mem_filter.mp he).1
  parents e he := (h.edit_remove hne hspot).hasDirectory (h.parents e (List.mem_filter.mp he).1)

theorem set (h : t.WellFormed) {directory : List String} {name : String}
    (hdir : t.hasDirectory directory = true) (hname : Path.IsName name)
    (hspot : ∀ item, t.item? (directory ++ [name]) = some item → item.isFile = true)
    {file : FileItem} (hfile : file.isFile = true) :
    (t.set (directory ++ [name]) file).WellFormed := by
  have hne : directory ++ [name] ≠ [] := by simp
  have hremoved := h.remove hne hspot
  have hedit := h.edit_set hne hspot hfile
  have hnew : directory ++ [name] ∉ (t.remove (directory ++ [name])).entries.map (·.1) := by
    intro hmem
    obtain ⟨e, he, hnames⟩ := List.mem_map.mp hmem
    have hkept := (List.mem_filter.mp he).2
    rw [hnames, (isBelow_iff _ _).mpr (List.prefix_refl _)] at hkept
    cases hkept
  constructor
  · rw [FileTree.set, List.map_append]
    simpa using hremoved.nodup.concat hnew
  · intro e he
    rcases List.mem_append.mp he with he | he
    · exact hremoved.nonempty e he
    · rw [List.mem_singleton.mp he]
      exact hne
  · intro e he n hn
    rcases List.mem_append.mp he with he | he
    · exact hremoved.names e he n hn
    · rw [List.mem_singleton.mp he] at hn
      rcases List.mem_append.mp hn with hn | hn
      · exact h.isName_of_item? ((hasDirectory_iff t _).mp hdir) n hn
      · rw [List.mem_singleton.mp hn]
        exact hname
  · intro e he
    rcases List.mem_append.mp he with he | he
    · exact hedit.hasDirectory (h.parents e (List.mem_filter.mp he).1)
    · rw [List.mem_singleton.mp he]
      simpa using hedit.hasDirectory hdir

end WellFormed

end FileTree

end SourceIndex
