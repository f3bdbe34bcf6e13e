import Mathlib
import SourceIndex.Files.Listing
import SourceIndex.Proofs.Files.Tree

/-! # What is listed and what is read

The listed paths of a well-formed tree are normal and pairwise different (`Listing.files_normal`,
`Listing.files_nodup`), and every directory on the way to a listed file can be hinted at
(`Listing.isDirectory_of_listed`). What is read at a path is determined by the path and the text
there (`Listing.eq_ofPath_of_readSource`).
-/

set_option autoImplicit false

namespace SourceIndex

/-- The source file that a text at a path is. -/
def SourceFile.ofPath (path : Path) (content : String) : SourceFile :=
  SourceFile.ofText path (Language.resolve path content).language content

namespace Path

/-- Names joined by slashes are told apart by their spelling. -/
theorem intercalate_inj {ns ms : List String} (hns : ∀ n ∈ ns, IsName n)
    (hms : ∀ m ∈ ms, IsName m) (h : "/".intercalate ns = "/".intercalate ms) : ns = ms := by
  have hparts : parts ⟨"/".intercalate ns⟩ = parts ⟨"/".intercalate ms⟩ := by rw [h]
  rw [parts_intercalate hns, parts_intercalate hms] at hparts
  exact List.map_injective_iff.mpr (fun a b hab => by simpa using hab) hparts

end Path

namespace Listing

variable {t : FileTree} {root : Path} {o : WalkOptions}

/-! ## Listed paths -/

/-- What a walk from a directory makes of an item: the names below the directory, if the item is
a file that is reached. -/
def below? (t : FileTree) (root : List String) (e : List String × FileItem) :
    Option (List String) :=
  if e.2.isFile && root.isPrefixOf e.1 && root.length < e.1.length then
    let below := e.1.drop root.length
    if reaches t root below then some below else none
  else none

theorem reached_eq (t : FileTree) (root : List String) :
    reached t root = t.entries.filterMap (below? t root) := rfl

theorem below?_eq_some_iff {root below : List String} {e : List String × FileItem} :
    below? t root e = some below ↔ e.1 = root ++ below ∧ below ≠ [] ∧
      reaches t root below = true ∧ e.2.isFile = true := by
  obtain ⟨names, item⟩ := e
  constructor
  · intro h
    simp only [below?, Option.ite_none_right_eq_some, Option.some.injEq, Bool.and_eq_true,
      decide_eq_true_eq, List.isPrefixOf_iff_prefix] at h
    obtain ⟨⟨⟨hfile, below', rfl⟩, hlength⟩, hreaches, hbelow⟩ := h
    rw [List.drop_left] at hbelow hreaches
    subst hbelow
    refine ⟨rfl, ?_, hreaches, hfile⟩
    rintro rfl
    simp at hlength
  · rintro ⟨rfl, hne, hreaches, hfile⟩
    have hlength : 0 < below.length := List.length_pos_iff.mpr hne
    simp only at hfile
    simp [below?, hfile, hlength, hreaches]

theorem mem_reached_iff {root below : List String} :
    below ∈ reached t root ↔ below ≠ [] ∧ reaches t root below = true ∧
      ∃ item, (root ++ below, item) ∈ t.entries ∧ item.isFile = true := by
  rw [reached_eq, List.mem_filterMap]
  constructor
  · rintro ⟨⟨names, item⟩, hmem, hbelow⟩
    obtain ⟨rfl, hne, hreaches, hfile⟩ := below?_eq_some_iff.mp hbelow
    exact ⟨hne, hreaches, item, hmem, hfile⟩
  · rintro ⟨hne, hreaches, item, hmem, hfile⟩
    exact ⟨_, hmem, below?_eq_some_iff.mpr ⟨rfl, hne, hreaches, hfile⟩⟩

/-- No two walks reach the same file. -/
theorem nodup_reached (hwf : t.WellFormed) (root : List String) : (reached t root).Nodup := by
  rw [reached_eq]
  refine List.Pairwise.filterMap _ ?_ (List.pairwise_map.mp hwf.nodup)
  intro e f hne below hbelow below' hbelow' hsame
  apply hne
  rw [(below?_eq_some_iff.mp hbelow).1, (below?_eq_some_iff.mp hbelow').1, hsame]

/-- The listed paths are those of the files that a walk reaches and that are not ignored. -/
theorem mem_files_iff {ps : List Path} (h : files t root o = .ok ps) :
    ∃ here, t.locate root = .ok here ∧ t.hasDirectory here = true ∧
      ∀ p, p ∈ ps ↔ o.isIgnored p = false ∧
        ∃ below ∈ reached t here, p = ⟨"/".intercalate below⟩ := by
  rw [files] at h
  split at h
  · cases h
  · rename_i here hhere
    split at h
    · rename_i hdir
      cases h
      refine ⟨here, hhere, hdir, fun p => ?_⟩
      simp only [List.mem_mergeSort, List.mem_filter, List.mem_map, Bool.not_eq_true']
      constructor
      · rintro ⟨⟨below, hbelow, rfl⟩, hkept⟩
        exact ⟨hkept, below, hbelow, rfl⟩
      · rintro ⟨hkept, below, hbelow, rfl⟩
        exact ⟨⟨below, hbelow, rfl⟩, hkept⟩
    · cases h

theorem isName_of_reached (hwf : t.WellFormed) {root below : List String}
    (h : below ∈ reached t root) : ∀ n ∈ below, Path.IsName n := by
  obtain ⟨-, -, item, hmem, -⟩ := mem_reached_iff.mp h
  exact fun n hn => hwf.names _ hmem n (List.mem_append_right root hn)

/-- Listed paths are normal. -/
theorem files_normal (hwf : t.WellFormed) {ps : List Path} (h : files t root o = .ok ps) :
    ∀ p ∈ ps, p.IsNormal := by
  obtain ⟨here, -, -, hmem⟩ := mem_files_iff h
  intro p hp
  obtain ⟨-, below, hbelow, rfl⟩ := (hmem p).mp hp
  exact ⟨below, isName_of_reached hwf hbelow, rfl⟩

/-- Listed paths are pairwise different. -/
theorem files_nodup (hwf : t.WellFormed) {ps : List Path} (h : files t root o = .ok ps) :
    ps.Nodup := by
  rw [files] at h
  split at h
  · cases h
  · rename_i here _
    split at h
    · cases h
      rw [(List.mergeSort_perm _ _).nodup_iff]
      refine List.Nodup.filter _ ((nodup_reached hwf here).map_on ?_)
      intro below hbelow below' hbelow' hsame
      exact Path.intercalate_inj (isName_of_reached hwf hbelow) (isName_of_reached hwf hbelow')
        (congrArg Path.text hsame)
    · cases h

/-- A listed file stands where its path leads. -/
theorem item?_of_listed (hwf : t.WellFormed) {ps : List Path} (h : files t root o = .ok ps)
    {p : Path} (hp : p ∈ ps) :
    ∃ here below item, t.locate root = .ok here ∧ below ≠ [] ∧ (∀ n ∈ below, Path.IsName n) ∧
      p = ⟨"/".intercalate below⟩ ∧ t.item? (here ++ below) = some item ∧ item.isFile = true := by
  obtain ⟨here, hhere, -, hmem⟩ := mem_files_iff h
  obtain ⟨-, below, hbelow, rfl⟩ := (hmem p).mp hp
  obtain ⟨hne, -, item, hitem, hfile⟩ := mem_reached_iff.mp hbelow
  exact ⟨here, below, item, hhere, hne, isName_of_reached hwf hbelow, rfl, hwf.item?_of_mem hitem,
    hfile⟩

/-- What lies strictly above a listed file is a directory. -/
theorem isDirectory_of_listed (hwf : t.WellFormed) {ps : List Path} (h : files t root o = .ok ps)
    {p hint : Path} (hp : p ∈ ps) (hhint : hint.IsNormal) (hne : hint.text ≠ "")
    (hunder : p.isUnder hint = true) (hstrict : p ≠ hint) :
    t.isDirectory (root.join hint) = true := by
  obtain ⟨here, below, item, hhere, -, hnames, rfl, hitem, -⟩ := item?_of_listed hwf h hp
  obtain ⟨ns, hns, hspelled⟩ := hhint
  obtain ⟨text⟩ := hint
  simp only at hspelled hne
  subst hspelled
  rw [Path.isUnder_iff, Path.parts_intercalate hns, Path.parts_intercalate hnames] at hunder
  have hprefix : ns <+: below :=
    (List.prefix_map_iff_of_injective (fun a b hab => by simpa using hab)).mp hunder
  have hns' : ns ≠ [] := by
    rintro rfl
    exact hne rfl
  have hbelow : ns ≠ below := by
    rintro rfl
    exact hstrict rfl
  have hdir : t.hasDirectory (here ++ ns) = true :=
    hwf.hasDirectory_of_prefix hitem ((List.prefix_append_right_inj here).mpr hprefix)
      (by simpa using hbelow)
  have hlocate := hwf.locate_join hhere hns' hns ((FileTree.hasDirectory_iff t _).mp hdir)
    fun _ hlink => by cases hlink
  rw [FileTree.isDirectory, hlocate]
  exact hdir

/-! ## Reading -/

/-- A source file that is read is the one that the text at its path is. -/
theorem eq_ofPath_of_readSource {path : Path} {file : SourceFile}
    (h : readSource t root path o = .ok (some file)) :
    file = SourceFile.ofPath path file.content := by
  rw [readSource] at h
  split at h
  · cases h
  · split at h
    · split at h <;> cases h
    · obtain ⟨bytes, -, hfile⟩ := Option.bind_eq_some_iff.mp (Except.ok.inj h)
      rw [ofBytes?] at hfile
      split at hfile
      · cases hfile
      · obtain ⟨content, -, hcontent⟩ := Option.bind_eq_some_iff.mp hfile
        dsimp only at hcontent
        split at hcontent
        · cases hcontent
          rfl
        · cases hcontent

/-- The text of a source file that is read is that of a file of the tree. -/
theorem text_of_readSource {path : Path} {file : SourceFile}
    (h : readSource t root path o = .ok (some file)) :
    ∃ names item bytes, t.item? names = some item ∧ item.bytes? = some bytes ∧
      String.fromUTF8? bytes = some file.content := by
  rw [readSource] at h
  split at h
  · cases h
  · rename_i names _
    split at h
    · split at h <;> cases h
    · obtain ⟨bytes, hbytes, hfile⟩ := Option.bind_eq_some_iff.mp (Except.ok.inj h)
      obtain ⟨item, hitem, hbytes⟩ := Option.bind_eq_some_iff.mp hbytes
      rw [ofBytes?] at hfile
      split at hfile
      · cases hfile
      · obtain ⟨content, hcontent, hkept⟩ := Option.bind_eq_some_iff.mp hfile
        dsimp only at hkept
        split at hkept
        · cases hkept
          exact ⟨names, item, bytes, hitem, hbytes, hcontent⟩
        · cases hkept

end Listing

end SourceIndex
