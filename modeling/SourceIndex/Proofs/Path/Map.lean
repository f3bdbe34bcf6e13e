import Mathlib
import SourceIndex.Path.Map
import SourceIndex.Proofs.Path.Normal

/-! # Maps and sets of paths

The entries of a map of paths are strictly ordered (`PathMap.Sorted`), so that no two of them
have the same parts. Every operation that builds a map keeps it so, and says which paths and
values are in it. A map has the parts of all paths that were put in, though not each path in its
own spelling (`PathMap.exists_parts_insert`, `PathMap.exists_parts_extend`); a set of normal paths
holds exactly those (`PathSet.mem_ofPaths_iff`).

Paths are counted by what they say (`Path.partSet`).
-/

set_option autoImplicit false

namespace SourceIndex

namespace PathMap

variable {β : Type}

/-- The entries are strictly ordered by their paths. -/
def Sorted (m : PathMap β) : Prop := m.entries.Pairwise fun a b => a.1.order b.1 = .lt

/-- All paths are normal. -/
def IsNormal (m : PathMap β) : Prop := ∀ k ∈ m.keys, k.IsNormal

theorem sorted_empty : (empty : PathMap β).Sorted := List.Pairwise.nil

/-- In a sorted map the paths have pairwise different parts. -/
theorem Sorted.nodup_parts {m : PathMap β} (h : m.Sorted) : (m.keys.map Path.parts).Nodup := by
  rw [keys, List.map_map, List.Nodup, List.pairwise_map]
  refine List.Pairwise.imp (fun {a b} hab hparts => ?_) h
  rw [(Path.order_eq_eq_iff a.1 b.1).mpr hparts] at hab
  cases hab

theorem Sorted.nodup_keys {m : PathMap β} (h : m.Sorted) : m.keys.Nodup :=
  List.Nodup.of_map Path.parts h.nodup_parts

/-! ## Looking up -/

theorem mem_keys_of_mem {m : PathMap β} {k : Path} {v : β} (h : (k, v) ∈ m.entries) :
    k ∈ m.keys :=
  List.mem_map.mpr ⟨(k, v), h, rfl⟩

theorem exists_mem_of_get? {m : PathMap β} {p : Path} {v : β} (h : m.get? p = some v) :
    ∃ k, (k, v) ∈ m.entries ∧ k.parts = p.parts := by
  obtain ⟨⟨k, w⟩, hfind, rfl⟩ := Option.map_eq_some_iff.mp h
  have hsame := List.find?_some hfind
  exact ⟨k, List.mem_of_find?_eq_some hfind, by simpa [Path.same] using hsame⟩

theorem get?_isSome_iff (m : PathMap β) (p : Path) :
    (m.get? p).isSome = true ↔ ∃ k ∈ m.keys, k.parts = p.parts := by
  rw [get?, Option.isSome_map, List.find?_isSome]
  simp [keys, Path.same]

theorem contains_eq (m : PathMap β) (p : Path) : m.contains p = (m.get? p).isSome := by
  rw [Bool.eq_iff_iff, get?_isSome_iff, contains, List.any_eq_true]
  simp [keys, Path.same]

theorem contains_iff (m : PathMap β) (p : Path) :
    m.contains p = true ↔ ∃ k ∈ m.keys, k.parts = p.parts := by
  rw [contains_eq, get?_isSome_iff]

/-- In a sorted map an entry is what is found under its path. -/
theorem Sorted.get?_of_mem {m : PathMap β} (h : m.Sorted) {k p : Path} {v : β}
    (hmem : (k, v) ∈ m.entries) (hparts : k.parts = p.parts) : m.get? p = some v := by
  obtain ⟨w, hw⟩ := Option.isSome_iff_exists.mp
    ((get?_isSome_iff m p).mpr ⟨k, mem_keys_of_mem hmem, hparts⟩)
  obtain ⟨l, hl, hlp⟩ := exists_mem_of_get? hw
  have hnodup : (m.entries.map fun e => e.1.parts).Nodup := by
    simpa [keys, Function.comp_def] using h.nodup_parts
  have hsame := List.inj_on_of_nodup_map hnodup hmem hl (hparts.trans hlp.symm)
  cases hsame
  exact hw

/-! ## Setting a value -/

theorem get?_insert (m : PathMap β) (p q : Path) (v : β) :
    (m.insert p v).get? q = if p.parts = q.parts then some v else m.get? q := by
  obtain ⟨entries⟩ := m
  simp only [insert, get?]
  induction entries with
  | nil => by_cases h : p.parts = q.parts <;> simp [insertEntry, Path.same, h]
  | cons e rest ih =>
      obtain ⟨k, w⟩ := e
      rw [insertEntry]
      split
      · by_cases h : p.parts = q.parts <;> simp [Path.same, h]
      · rename_i heq
        rw [Path.order_eq_eq_iff] at heq
        by_cases h : p.parts = q.parts
        · simp [Path.same, ← heq, h]
        · simp [Path.same, ← heq, h]
      · rename_i hgt
        have hne : p.parts ≠ k.parts := by
          intro hparts
          rw [(Path.order_eq_eq_iff p k).mpr hparts] at hgt
          cases hgt
        by_cases hk : k.parts = q.parts
        · have hpq : p.parts ≠ q.parts := fun h => hne (h.trans hk.symm)
          simp [Path.same, hk, hpq]
        · simpa [Path.same, hk] using ih

theorem mem_insertEntry {p : Path} {v : β} {entries : List (Path × β)} {e : Path × β}
    (h : e ∈ insertEntry p v entries) :
    e = (p, v) ∨ e ∈ entries ∨ (e.2 = v ∧ e.1.parts = p.parts ∧ e.1 ∈ entries.map (·.1)) := by
  induction entries with
  | nil => exact Or.inl (by simpa [insertEntry] using h)
  | cons f rest ih =>
      obtain ⟨k, w⟩ := f
      rw [insertEntry] at h
      split at h
      · rcases List.mem_cons.mp h with rfl | h
        · exact Or.inl rfl
        · exact Or.inr (Or.inl h)
      · rename_i heq
        rcases List.mem_cons.mp h with rfl | h
        · exact Or.inr (Or.inr ⟨rfl, ((Path.order_eq_eq_iff p k).mp heq).symm, by simp⟩)
        · exact Or.inr (Or.inl (List.mem_cons_of_mem _ h))
      · rcases List.mem_cons.mp h with rfl | h
        · exact Or.inr (Or.inl (by simp))
        · rcases ih h with h | h | ⟨h₁, h₂, h₃⟩
          · exact Or.inl h
          · exact Or.inr (Or.inl (List.mem_cons_of_mem _ h))
          · exact Or.inr (Or.inr ⟨h₁, h₂, List.mem_cons_of_mem _ h₃⟩)

theorem mem_keys_insert {m : PathMap β} {p q : Path} {v : β} (h : q ∈ (m.insert p v).keys) :
    q = p ∨ q ∈ m.keys := by
  obtain ⟨e, he, rfl⟩ := List.mem_map.mp h
  rcases mem_insertEntry he with rfl | he | ⟨-, -, he⟩
  · exact Or.inl rfl
  · exact Or.inr (List.mem_map.mpr ⟨e, he, rfl⟩)
  · exact Or.inr he

/-- A path that is there stays, in its spelling. -/
theorem keys_subset_insert (m : PathMap β) (p : Path) (v : β) : m.keys ⊆ (m.insert p v).keys := by
  obtain ⟨entries⟩ := m
  simp only [keys, insert]
  induction entries with
  | nil => simp
  | cons e rest ih =>
      obtain ⟨k, w⟩ := e
      rw [insertEntry]
      split
      · simp
      · simp
      · intro q hq
        rcases List.mem_cons.mp hq with rfl | hq
        · simp
        · exact List.mem_cons_of_mem _ (ih hq)

theorem sorted_insert {m : PathMap β} (h : m.Sorted) (p : Path) (v : β) :
    (m.insert p v).Sorted := by
  obtain ⟨entries⟩ := m
  simp only [Sorted, insert] at h ⊢
  induction entries with
  | nil => simp [insertEntry]
  | cons e rest ih =>
      obtain ⟨k, w⟩ := e
      obtain ⟨hk, hrest⟩ := List.pairwise_cons.mp h
      rw [insertEntry]
      split
      · rename_i hlt
        refine List.pairwise_cons.mpr ⟨fun f hf => ?_, h⟩
        rcases List.mem_cons.mp hf with rfl | hf
        · exact hlt
        · exact Path.order_lt_trans hlt (hk f hf)
      · exact List.pairwise_cons.mpr ⟨hk, hrest⟩
      · rename_i hgt
        have hkp : k.order p = .lt := by
          rw [Path.order_swap p k, hgt]
          rfl
        refine List.pairwise_cons.mpr ⟨fun f hf => ?_, ih hrest⟩
        rcases mem_insertEntry hf with rfl | hf | ⟨-, hparts, hf⟩
        · exact hkp
        · exact hk f hf
        · obtain ⟨g, hg, hgf⟩ := List.mem_map.mp hf
          rw [← hgf]
          exact hk g hg

/-- A path with new parts is put in between the others. -/
theorem perm_keys_insert {m : PathMap β} {p : Path} (v : β) (h : ∀ k ∈ m.keys, p.parts ≠ k.parts) :
    (m.insert p v).keys.Perm (p :: m.keys) := by
  obtain ⟨entries⟩ := m
  simp only [keys, insert] at h ⊢
  induction entries with
  | nil => exact List.Perm.refl _
  | cons e rest ih =>
      obtain ⟨k, w⟩ := e
      rw [insertEntry]
      split
      · exact List.Perm.refl _
      · rename_i heq
        exact absurd ((Path.order_eq_eq_iff p k).mp heq) (h k List.mem_cons_self)
      · exact ((ih fun q hq => h q (List.mem_cons_of_mem k hq)).cons k).trans (.swap p k _)

/-! ## Many entries at once -/

theorem pairwise_arrange (entries : List (Path × β)) :
    (arrange entries).Pairwise fun a b => a.1.le b.1 = true := by
  rw [arrange]
  apply List.pairwise_mergeSort
  · intro a b c hab hbc
    exact Path.le_trans a.1 b.1 c.1 hab hbc
  · intro a b
    exact Path.le_total a.1 b.1

theorem mem_arrange {entries : List (Path × β)} {e : Path × β} :
    e ∈ arrange entries ↔ e ∈ entries := by
  rw [arrange]
  exact List.mem_mergeSort

/-- One of each run of neighbours with the same parts is kept, whichever it is. -/
inductive Picks : (entries kept : List (Path × β)) → Prop where
  | nil : Picks [] []
  /-- Nothing was kept yet. -/
  | first {rest e} : Picks rest [] → Picks (e :: rest) [e]
  /-- An entry joins the run of the one kept first. -/
  | joins {rest kept e f g} : Picks rest (f :: kept) → e.1.same f.1 = true → g = e ∨ g = f →
      Picks (e :: rest) (g :: kept)
  /-- An entry begins a run of its own. -/
  | begins {rest kept e f} : Picks rest (f :: kept) → e.1.same f.1 ≠ true →
      Picks (e :: rest) (e :: f :: kept)

theorem picks_keepFirst (entries : List (Path × β)) : Picks entries (keepFirst entries) := by
  induction entries with
  | nil => exact .nil
  | cons e rest ih =>
      rw [keepFirst]
      split
      · rename_i hrest
        exact .first (hrest ▸ ih)
      · rename_i f kept hrest
        rw [hrest] at ih
        split
        · exact .joins ih (by assumption) (Or.inl rfl)
        · exact .begins ih (by assumption)

theorem picks_keepLast (entries : List (Path × β)) : Picks entries (keepLast entries) := by
  induction entries with
  | nil => exact .nil
  | cons e rest ih =>
      rw [keepLast]
      split
      · rename_i hrest
        exact .first (hrest ▸ ih)
      · rename_i f kept hrest
        rw [hrest] at ih
        split
        · exact .joins ih (by assumption) (Or.inr rfl)
        · exact .begins ih (by assumption)

namespace Picks

variable {entries kept : List (Path × β)}

theorem subset (h : Picks entries kept) : kept ⊆ entries := by
  induction h with
  | nil => exact List.Subset.refl _
  | first _ _ => simp
  | joins _ _ hg ih =>
      obtain ⟨hf, hkept⟩ := List.cons_subset.mp ih
      refine List.cons_subset.mpr ⟨?_, List.subset_cons_of_subset _ hkept⟩
      rcases hg with rfl | rfl
      · exact List.mem_cons_self
      · exact List.mem_cons_of_mem _ hf
  | begins _ _ ih =>
      exact List.cons_subset.mpr ⟨List.mem_cons_self, List.subset_cons_of_subset _ ih⟩

/-- No entry is left without one of its parts. -/
theorem covers (h : Picks entries kept) {e : Path × β} (he : e ∈ entries) :
    ∃ f ∈ kept, f.1.parts = e.1.parts := by
  induction h with
  | nil => cases he
  | first h ih =>
      rcases List.mem_cons.mp he with rfl | he
      · exact ⟨_, List.mem_cons_self, rfl⟩
      · obtain ⟨f, hf, -⟩ := ih he
        cases hf
  | @joins rest kept a f g h hsame hg ih =>
      have haf : a.1.parts = f.1.parts := by simpa [Path.same] using hsame
      have hga : g.1.parts = a.1.parts := by
        rcases hg with rfl | rfl
        · rfl
        · exact haf.symm
      rcases List.mem_cons.mp he with rfl | he
      · exact ⟨g, List.mem_cons_self, hga⟩
      · obtain ⟨k, hk, hke⟩ := ih he
        rcases List.mem_cons.mp hk with rfl | hk
        · exact ⟨g, List.mem_cons_self, hga.trans (haf.trans hke)⟩
        · exact ⟨k, List.mem_cons_of_mem _ hk, hke⟩
  | begins h _ ih =>
      rcases List.mem_cons.mp he with rfl | he
      · exact ⟨_, List.mem_cons_self, rfl⟩
      · obtain ⟨k, hk, hke⟩ := ih he
        exact ⟨k, List.mem_cons_of_mem _ hk, hke⟩

/-- What is kept of ordered entries is strictly ordered. -/
theorem sorted (h : Picks entries kept)
    (hle : entries.Pairwise fun a b => a.1.le b.1 = true) :
    kept.Pairwise fun a b => a.1.order b.1 = .lt := by
  induction h with
  | nil => exact List.Pairwise.nil
  | first _ _ => exact List.pairwise_singleton _ _
  | @joins rest kept a f g h hsame hg ih =>
      have hkept := ih (List.pairwise_cons.mp hle).2
      rcases hg with rfl | rfl
      · refine List.pairwise_cons.mpr ⟨fun k hk => ?_, (List.pairwise_cons.mp hkept).2⟩
        have haf : g.1.parts = f.1.parts := by simpa [Path.same] using hsame
        rw [Path.order_congr_left haf]
        exact (List.pairwise_cons.mp hkept).1 k hk
      · exact hkept
  | @begins rest kept a f h hne ih =>
      obtain ⟨hle₁, hle₂⟩ := List.pairwise_cons.mp hle
      refine List.pairwise_cons.mpr ⟨?_, ih hle₂⟩
      -- the first one kept is an entry, so it comes no earlier than the new one
      have haf := hle₁ f (h.subset List.mem_cons_self)
      have hlt : a.1.order f.1 = .lt := by
        have hgt := (Path.le_iff a.1 f.1).mp haf
        cases hord : a.1.order f.1 with
        | lt => rfl
        | eq => exact absurd ((Path.same_iff_order a.1 f.1).mpr hord) hne
        | gt => exact absurd hord hgt
      intro k hk
      rcases List.mem_cons.mp hk with rfl | hk
      · exact hlt
      · exact Path.order_lt_trans hlt ((List.pairwise_cons.mp (ih hle₂)).1 k hk)

end Picks

theorem sorted_ofList (entries : List (Path × β)) : (ofList entries).Sorted :=
  (picks_keepLast _).sorted (pairwise_arrange entries)

theorem sorted_extend (m : PathMap β) (entries : List (Path × β)) : (m.extend entries).Sorted :=
  (picks_keepFirst _).sorted (pairwise_arrange _)

theorem mem_ofList {entries : List (Path × β)} {e : Path × β} (h : e ∈ (ofList entries).entries) :
    e ∈ entries :=
  mem_arrange.mp ((picks_keepLast _).subset h)

/-- A map with a value set has the parts of its path, and those that it had. -/
theorem exists_parts_insert {m : PathMap β} {p : Path} {v : β} {ps : List Part} :
    (∃ k ∈ (m.insert p v).keys, k.parts = ps) ↔ p.parts = ps ∨ ∃ k ∈ m.keys, k.parts = ps := by
  constructor
  · rintro ⟨k, hk, hparts⟩
    rcases mem_keys_insert hk with rfl | hk
    · exact .inl hparts
    · exact .inr ⟨k, hk, hparts⟩
  · rintro (rfl | ⟨k, hk, hparts⟩)
    · rw [← get?_isSome_iff, get?_insert, if_pos rfl]
      rfl
    · exact ⟨k, keys_subset_insert m p v hk, hparts⟩

/-- A map made from a list has the parts of all paths of the list. -/
theorem exists_parts_ofList {entries : List (Path × β)} {ps : List Part} :
    (∃ k ∈ (ofList entries).keys, k.parts = ps) ↔ ∃ e ∈ entries, e.1.parts = ps := by
  constructor
  · rintro ⟨k, hk, hparts⟩
    obtain ⟨e, he, rfl⟩ := List.mem_map.mp hk
    exact ⟨e, mem_ofList he, hparts⟩
  · rintro ⟨e, he, hparts⟩
    obtain ⟨f, hf, hfe⟩ := (picks_keepLast _).covers (mem_arrange.mpr he)
    exact ⟨f.1, List.mem_map_of_mem hf, hfe.trans hparts⟩

/-- The value of a path in a map made from entries that are told apart by the parts of their paths. -/
theorem get?_ofList_iff_parts {entries : List (Path × β)}
    (hnodup : (entries.map fun e => e.1.parts).Nodup) {p : Path} {v : β} :
    (ofList entries).get? p = some v ↔ ∃ k, (k, v) ∈ entries ∧ k.parts = p.parts := by
  constructor
  · intro h
    obtain ⟨k, hk, hparts⟩ := exists_mem_of_get? h
    exact ⟨k, mem_ofList hk, hparts⟩
  · rintro ⟨k, hk, hparts⟩
    obtain ⟨f, hf, hfk⟩ := (picks_keepLast _).covers (mem_arrange.mpr hk)
    have hsame := List.inj_on_of_nodup_map hnodup (mem_ofList hf) hk hfk
    exact (sorted_ofList entries).get?_of_mem (hsame ▸ hf) hparts

/-- An extended map holds entries that it held or that were put in. -/
theorem mem_extend {m : PathMap β} {entries : List (Path × β)} {e : Path × β}
    (h : e ∈ (m.extend entries).entries) : e ∈ m.entries ∨ e ∈ entries :=
  List.mem_append.mp (mem_arrange.mp ((picks_keepFirst _).subset h))

/-- An extended map has the parts of all paths, old and new. -/
theorem exists_parts_extend {m : PathMap β} {entries : List (Path × β)} {ps : List Part} :
    (∃ k ∈ (m.extend entries).keys, k.parts = ps) ↔
      (∃ k ∈ m.keys, k.parts = ps) ∨ ∃ e ∈ entries, e.1.parts = ps := by
  constructor
  · rintro ⟨k, hk, hparts⟩
    obtain ⟨e, he, rfl⟩ := List.mem_map.mp hk
    exact (mem_extend he).imp (fun he => ⟨e.1, List.mem_map_of_mem he, hparts⟩)
      fun he => ⟨e, he, hparts⟩
  · intro h
    obtain ⟨e, he, hparts⟩ : ∃ e ∈ m.entries ++ entries, e.1.parts = ps := by
      rcases h with ⟨k, hk, hparts⟩ | ⟨e, he, hparts⟩
      · obtain ⟨e, he, rfl⟩ := List.mem_map.mp hk
        exact ⟨e, List.mem_append_left _ he, hparts⟩
      · exact ⟨e, List.mem_append_right _ he, hparts⟩
    obtain ⟨f, hf, hfe⟩ := (picks_keepFirst _).covers (mem_arrange.mpr he)
    exact ⟨f.1, List.mem_map_of_mem hf, hfe.trans hparts⟩

/-- Sorted maps with the same parts have them in the same order. -/
theorem Sorted.map_parts_eq {γ : Type} {m : PathMap β} {m' : PathMap γ} (h : m.Sorted)
    (h' : m'.Sorted)
    (hsame : ∀ ps, (∃ k ∈ m.keys, k.parts = ps) ↔ ∃ k ∈ m'.keys, k.parts = ps) :
    m.keys.map Path.parts = m'.keys.map Path.parts := by
  have hordered : ∀ {δ : Type} {n : PathMap δ}, n.Sorted →
      (n.keys.map Path.parts).Pairwise fun a b => Path.compareParts a b = .lt := by
    intro δ n hn
    rw [keys, List.map_map, List.pairwise_map]
    exact hn
  refine List.Perm.eq_of_pairwise ?_ (hordered h) (hordered h')
    ((List.perm_ext_iff_of_nodup h.nodup_parts h'.nodup_parts).mpr fun ps => ?_)
  · intro a b _ _ hab hba
    have hswap : Path.compareParts b a = (Path.compareParts a b).swap := Std.OrientedCmp.eq_swap
    rw [hab, hba] at hswap
    cases hswap
  · rw [List.mem_map, List.mem_map]
    exact hsame ps

/-- Of entries with normal paths, no two of them alike, all are kept. -/
theorem mem_ofList_of_mem {entries : List (Path × β)} (hnodup : (entries.map (·.1)).Nodup)
    (hnormal : ∀ e ∈ entries, e.1.IsNormal) {e : Path × β} (h : e ∈ entries) :
    e ∈ (ofList entries).entries := by
  obtain ⟨f, hf, hparts⟩ := (picks_keepLast _).covers (mem_arrange.mpr h)
  have hfe := mem_ofList hf
  have hpath := (hnormal f hfe).eq_of_parts (hnormal e h) hparts
  have hsame := List.inj_on_of_nodup_map hnodup hfe h hpath
  exact hsame ▸ hf

/-- The value of a normal path in a map made from entries with normal paths, no two of them
alike. -/
theorem get?_ofList_iff {entries : List (Path × β)} (hnodup : (entries.map (·.1)).Nodup)
    (hnormal : ∀ e ∈ entries, e.1.IsNormal) {p : Path} (hp : p.IsNormal) {v : β} :
    (ofList entries).get? p = some v ↔ (p, v) ∈ entries := by
  constructor
  · intro h
    obtain ⟨k, hk, hparts⟩ := exists_mem_of_get? h
    have hk := mem_ofList hk
    have hpath := (hnormal (k, v) hk).eq_of_parts hp hparts
    exact hpath ▸ hk
  · intro h
    exact (sorted_ofList entries).get?_of_mem (mem_ofList_of_mem hnodup hnormal h) rfl

end PathMap

/-! ## Paths in any spelling -/

/-- What some paths say, in whatever spelling they do: two spellings of a path count once. -/
def Path.partSet (paths : List Path) : Finset (List Part) := (paths.map Path.parts).toFinset

theorem Path.mem_partSet {paths : List Path} {ps : List Part} :
    ps ∈ partSet paths ↔ ∃ p ∈ paths, p.parts = ps := by
  rw [partSet, List.mem_toFinset, List.mem_map]

theorem Path.partSet_append (as bs : List Path) : partSet (as ++ bs) = partSet as ∪ partSet bs := by
  rw [partSet, List.map_append, List.toFinset_append]
  rfl

/-- Paths with different parts are as many as what they say. -/
theorem Path.card_partSet {paths : List Path} (h : (paths.map Path.parts).Nodup) :
    (partSet paths).card = paths.length := by
  rw [partSet, List.toFinset_card_of_nodup h, List.length_map]

/-! ## Sets -/

namespace PathSet

open PathMap

theorem mem_ofPaths_iff {ps : List Path} (hps : ∀ p ∈ ps, p.IsNormal) {p : Path} :
    p ∈ (ofPaths ps).keys ↔ p ∈ ps := by
  constructor
  · intro h
    obtain ⟨e, he, rfl⟩ := List.mem_map.mp h
    obtain ⟨q, hq, rfl⟩ := List.mem_map.mp (mem_ofList he)
    exact hq
  · intro h
    have hmem : (p, ()) ∈ arrange (ps.map fun p => (p, ())) :=
      mem_arrange.mpr (List.mem_map.mpr ⟨p, h, rfl⟩)
    obtain ⟨⟨k, u⟩, hk, hparts⟩ := (picks_keepLast _).covers hmem
    obtain ⟨q, hq, hqk⟩ := List.mem_map.mp (mem_ofList hk)
    cases hqk
    rw [← (hps k hq).eq_of_parts (hps p h) hparts]
    exact mem_keys_of_mem hk

/-! ### In any spelling -/

theorem exists_parts_ofPaths {paths : List Path} {ps : List Part} :
    (∃ k ∈ (ofPaths paths).keys, k.parts = ps) ↔ ∃ q ∈ paths, q.parts = ps := by
  rw [ofPaths, exists_parts_ofList]
  simp

theorem exists_parts_union {s : PathSet} {paths : List Path} {ps : List Part} :
    (∃ k ∈ (s.union paths).keys, k.parts = ps) ↔
      (∃ k ∈ s.keys, k.parts = ps) ∨ ∃ q ∈ paths, q.parts = ps := by
  rw [union, exists_parts_extend]
  simp

theorem mem_union {s : PathSet} {paths : List Path} {p : Path} (h : p ∈ (s.union paths).keys) :
    p ∈ s.keys ∨ p ∈ paths := by
  obtain ⟨e, he, rfl⟩ := List.mem_map.mp h
  refine (mem_extend he).imp List.mem_map_of_mem fun he => ?_
  obtain ⟨q, hq, rfl⟩ := List.mem_map.mp he
  exact hq

theorem contains_ofPaths_iff {paths : List Path} {p : Path} :
    (ofPaths paths).contains p = true ↔ ∃ q ∈ paths, q.parts = p.parts := by
  rw [contains_iff, exists_parts_ofPaths]

theorem contains_union_iff {s : PathSet} {paths : List Path} {p : Path} :
    (s.union paths).contains p = true ↔
      s.contains p = true ∨ ∃ q ∈ paths, q.parts = p.parts := by
  rw [contains_iff, contains_iff, exists_parts_union]

theorem partSet_ofPaths (ps : List Path) : Path.partSet (ofPaths ps).paths = Path.partSet ps := by
  ext parts
  rw [Path.mem_partSet, Path.mem_partSet]
  exact exists_parts_ofPaths

theorem partSet_union (s : PathSet) (ps : List Path) :
    Path.partSet (s.union ps).paths = Path.partSet s.paths ∪ Path.partSet ps := by
  ext parts
  rw [Finset.mem_union, Path.mem_partSet, Path.mem_partSet, Path.mem_partSet]
  exact exists_parts_union

/-- A sorted set has as many paths as there are different ones among them. -/
theorem size_eq_card {s : PathSet} (h : PathMap.Sorted s) :
    s.size = (Path.partSet s.paths).card := by
  have hcard := Path.card_partSet h.nodup_parts
  exact (List.length_map _).symm.trans hcard.symm

theorem size_ofPaths (ps : List Path) : (ofPaths ps).size = (Path.partSet ps).card := by
  rw [← partSet_ofPaths]
  exact size_eq_card (PathMap.sorted_ofList _)

end PathSet

end SourceIndex
