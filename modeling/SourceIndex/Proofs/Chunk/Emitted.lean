import Mathlib
import SourceIndex.Chunk.Forest

/-! # Chunks as they are cut

Every chunk that is cut from a file carries the path and the language of the file and has no vector
(`Chunk.emitted_ofFile`, `Chunk.language_ofFile`). As long as it is drafted its id is a plain digest
(`Chunk.all_definitionDraft`), which has hexadecimal digits only (`Digest.isHexDigit_of_mem`).
-/

set_option autoImplicit false

namespace SourceIndex

/-! ## Digests -/

/-- A digit of a hexadecimal number. -/
def Text.IsHexDigit (c : Char) : Prop := ∃ n < 16, c = Text.hexDigit n

theorem Text.isHexDigit_of_mem_hex {width n : Nat} {c : Char} (h : c ∈ (Text.hex width n).toList) :
    Text.IsHexDigit c := by
  induction width generalizing n with
  | zero => simp [Text.hex] at h
  | succ width ih =>
    rw [Text.hex, String.toList_push, List.mem_append, List.mem_singleton] at h
    rcases h with h | h
    · exact ih h
    · exact ⟨n % 16, Nat.mod_lt n (by decide), h⟩

theorem Text.exists_of_mem_intercalate {ls : List String} {c : Char}
    (h : c ∈ ("".intercalate ls).toList) : ∃ s ∈ ls, c ∈ s.toList := by
  induction ls with
  | nil => simp at h
  | cons s ls ih =>
    cases ls with
    | nil => exact ⟨s, List.mem_cons_self, by simpa using h⟩
    | cons t ls =>
      rw [String.intercalate_cons_cons, String.append_empty, String.toList_append,
        List.mem_append] at h
      rcases h with h | h
      · exact ⟨s, List.mem_cons_self, h⟩
      · obtain ⟨u, hu, hc⟩ := ih h
        exact ⟨u, List.mem_cons_of_mem s hu, hc⟩

theorem Digest.isHexDigit_of_mem {bytes : ByteArray} {c : Char}
    (h : c ∈ (Digest.sha256 bytes).toList) : Text.IsHexDigit c := by
  rw [Digest.sha256] at h
  obtain ⟨s, hs, hc⟩ := Text.exists_of_mem_intercalate h
  obtain ⟨w, -, rfl⟩ := List.mem_map.mp hs
  exact Text.isHexDigit_of_mem_hex hc

/-- No digit is a mark or a zero byte. -/
theorem Text.IsHexDigit.ne {c : Char} (h : Text.IsHexDigit c) : c ≠ '#' ∧ c ≠ '\x00' := by
  obtain ⟨n, hn, rfl⟩ := h
  have hall : ∀ m < 16, Text.hexDigit m ≠ '#' ∧ Text.hexDigit m ≠ '\x00' := by decide
  exact hall n hn

namespace Chunk

/-- The digits of an id have no mark among them. -/
theorem mark_not_mem_idOf (path : Path) (kind : ChunkKind) (fullPath contentHash : String) :
    '#' ∉ (idOf path kind fullPath contentHash).toList := by
  rw [idOf, String.toList_ofList]
  intro hmem
  exact (Digest.isHexDigit_of_mem (List.mem_of_mem_take hmem)).ne.1 rfl

/-- The chunk carries a path and has no vector. -/
def IsEmitted (path : Path) (c : Chunk) : Prop := c.path = path ∧ c.embedding = none

/-- The chunk is as it is drafted: its id has no count yet. -/
structure IsDrafted (path : Path) (c : Chunk) : Prop where
  emitted : c.IsEmitted path
  plain : '#' ∉ c.id.toList

/-- The text whose digest a chunk's id is made from. -/
def hashed (c : Chunk) : String := idText c.path c.kind c.fullPath c.contentHash

/-- The id of a chunk without a count. -/
def baseId (c : Chunk) : String := idOf c.path c.kind c.fullPath c.contentHash

/-- The chunk is as it is drafted in a context. -/
structure IsCut (x : Context) (c : Chunk) : Prop where
  drafted : c.IsDrafted x.file.path
  language_eq : c.language = x.file.language.id
  id_eq : c.id = c.baseId
  contentHash_eq : c.contentHash = Digest.ofText c.content
  fileHash_eq : c.fileHash = x.file.contentHash
  calls_eq : ∃ excluded roots, c.calls = x.calls excluded roots

end Chunk

namespace Draft

mutual

/-- All chunks of a draft have a property. -/
def All (P : Chunk → Prop) : Draft → Prop
  | .mk c ds => P c ∧ AllIn P ds

/-- All chunks of drafts have a property. -/
def AllIn (P : Chunk → Prop) : List Draft → Prop
  | [] => True
  | d :: ds => All P d ∧ AllIn P ds

end

theorem allIn_iff (P : Chunk → Prop) (ds : List Draft) : AllIn P ds ↔ ∀ d ∈ ds, All P d := by
  induction ds with
  | nil => simp [AllIn]
  | cons d ds ih => simp [AllIn, ih]

mutual

/-- What all chunks of a draft have, whatever their ids and parents, those of its list have. -/
theorem of_mem_list {P : Chunk → Prop} (hP : ∀ c id parentId, P c → P { c with id, parentId })
    (d : Draft) (h : All P d) (parent : Option String) (seen : List String) :
    ∀ c ∈ (list parent seen d).1, P c := by
  match d with
  | .mk c ds =>
      intro e he
      rw [list] at he
      rcases List.mem_cons.mp he with rfl | he
      · exact hP c _ _ h.1
      · exact of_mem_listAll hP ds h.2 _ _ e he

theorem of_mem_listAll {P : Chunk → Prop} (hP : ∀ c id parentId, P c → P { c with id, parentId })
    (ds : List Draft) (h : AllIn P ds) (parent : Option String) (seen : List String) :
    ∀ c ∈ (listAll parent seen ds).1, P c := by
  match ds with
  | [] =>
      intro e he
      cases he
  | d :: ds =>
      intro e he
      rw [listAll] at he
      rcases List.mem_append.mp he with he | he
      · exact of_mem_list hP d h.1 _ _ e he
      · exact of_mem_listAll hP ds h.2 _ _ e he

end

end Draft

namespace Chunk

section Drafts

variable {P : Chunk → Prop} (x : Context) (hP : ∀ c : Chunk, c.IsCut x → P c)
include hP

/-- The chunks of a definition and of all it encloses. -/
theorem all_definitionDraft (site : Site) (first last : Nat) (fullPath : String) (kind : ChunkKind)
    (depth : Nat) : (definitionDraft x site first last fullPath kind depth).All P := by
  rw [definitionDraft, Draft.All, Draft.allIn_iff]
  refine ⟨hP _ ⟨⟨⟨rfl, rfl⟩, mark_not_mem_idOf _ _ _ _⟩, rfl, rfl, rfl, rfl, _, _, rfl⟩, fun d hd => ?_⟩
  obtain ⟨child, hchild, rfl⟩ := List.mem_map.mp hd
  cases child with
  | definition s inside start stop =>
      exact all_definitionDraft s start stop _ _ _
  | window statements start stop =>
      rw [Draft.All]
      exact ⟨hP _ ⟨⟨⟨rfl, rfl⟩, mark_not_mem_idOf _ _ _ _⟩, rfl, rfl, rfl, rfl, _, _, rfl⟩, trivial⟩
termination_by sizeOf site.outer

theorem all_segmentDraft (s : Segment) : (segmentDraft x s).All P := by
  rw [segmentDraft]
  split
  · exact all_definitionDraft x hP _ _ _ _ _ _
  · rw [Draft.All]
    exact ⟨hP _ ⟨⟨⟨rfl, rfl⟩, mark_not_mem_idOf _ _ _ _⟩, rfl, rfl, rfl, rfl, [], [], rfl⟩, trivial⟩

theorem allIn_drafts (root : Node) : Draft.AllIn P (drafts x root) := by
  refine (Draft.allIn_iff _ _).mpr fun d hd => ?_
  obtain ⟨s, -, rfl⟩ := List.mem_map.mp hd
  exact all_segmentDraft x hP s

end Drafts

theorem of_mem_ofTree (rules : Rules) (file : SourceFile) (limits : ChunkLimits) (root : Node) :
    ∀ c ∈ ofTree rules file limits root, c.IsEmitted file.path ∧ c.language = file.language.id := by
  refine Draft.of_mem_listAll (fun _ _ _ h => h) _ ?_ _ _
  exact allIn_drafts _ (fun _ hcut => ⟨hcut.drafted.emitted, hcut.language_eq⟩) root

theorem of_mem_windows (file : SourceFile) (limits : ChunkLimits) :
    ∀ c ∈ windows file limits, c.IsEmitted file.path ∧ c.language = file.language.id := by
  intro c hc
  obtain ⟨⟨start, ls⟩, -, hwindow⟩ := List.mem_filterMap.mp hc
  simp only [ofWindow?, Option.ite_none_left_eq_some] at hwindow
  rw [← Option.some.inj hwindow.2]
  exact ⟨⟨rfl, rfl⟩, rfl⟩

theorem of_mem_ofFile (parse : Parse) (file : SourceFile) (limits : ChunkLimits) :
    ∀ c ∈ (ofFile parse file limits).chunks,
      c.IsEmitted file.path ∧ c.language = file.language.id := by
  rw [ofFile]
  split
  · simp
  · split
    · exact of_mem_windows file limits
    · split
      · exact of_mem_windows file limits
      · exact of_mem_ofTree _ file limits _

/-- The chunks of a file carry its path and have no vectors. -/
theorem emitted_ofFile (parse : Parse) (file : SourceFile) (limits : ChunkLimits) :
    ∀ c ∈ (ofFile parse file limits).chunks, c.IsEmitted file.path :=
  fun c hc => (of_mem_ofFile parse file limits c hc).1

/-- The chunks of a file are of its language. -/
theorem language_ofFile (parse : Parse) (file : SourceFile) (limits : ChunkLimits) :
    ∀ c ∈ (ofFile parse file limits).chunks, c.language = file.language.id :=
  fun c hc => (of_mem_ofFile parse file limits c hc).2

/-- The chunks of a file carry the digest of its text. -/
theorem fileHash_ofFile (parse : Parse) (file : SourceFile) (limits : ChunkLimits) :
    ∀ c ∈ (ofFile parse file limits).chunks, c.fileHash = file.contentHash := by
  have hwindows : ∀ c ∈ windows file limits, c.fileHash = file.contentHash := by
    intro c hc
    obtain ⟨⟨start, ls⟩, -, hwindow⟩ := List.mem_filterMap.mp hc
    simp only [ofWindow?, Option.ite_none_left_eq_some] at hwindow
    rw [← Option.some.inj hwindow.2]
  rw [ofFile]
  split
  · simp
  · split
    · exact hwindows
    · split
      · exact hwindows
      · refine Draft.of_mem_listAll (fun _ _ _ h => h) _ ?_ _ _
        exact allIn_drafts (P := fun c => c.fileHash = file.contentHash) _
          (fun _ hcut => hcut.fileHash_eq) _

end Chunk

end SourceIndex
