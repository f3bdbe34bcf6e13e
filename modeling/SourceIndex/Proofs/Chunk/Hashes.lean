import Mathlib
import SourceIndex.Proofs.Chunk.Parents

/-! # Ids of the chunks of many files

The id of a chunk is made from the digest of a text with zero bytes between its parts. No digest and
no kind has a zero byte, so if a path has none either, the text says all its parts, also if the dotted
path has zero bytes (`Chunk.idText_inj`). Within a file a chunk that occurs again gets its count
(`Draft.counted_listAll`). So over files with different paths all ids are different, as long as the
digests of the texts are (`Chunk.ids_ofFiles`).
-/

set_option autoImplicit false

namespace SourceIndex

/-! ## The text of an id -/

theorem Digest.zero_not_mem (text : String) : '\x00' ∉ (Digest.ofText text).toList := by
  intro hmem
  exact (Digest.isHexDigit_of_mem hmem).ne.2 rfl

namespace ChunkKind

theorem zero_not_mem_id (k : ChunkKind) : '\x00' ∉ k.id.toList := by
  cases k <;> decide

theorem id_injective {k l : ChunkKind} (h : k.id = l.id) : k = l := by
  have hof := congrArg ofId? h
  rw [ofId?_id, ofId?_id] at hof
  exact Option.some.inj hof

end ChunkKind

namespace Chunk

/-- Two texts with a mark that are the same are the same before the first mark and after it. -/
theorem eq_of_append_cons_eq {x y u v : List Char} {a : Char} (hx : a ∉ x) (hy : a ∉ y)
    (h : x ++ a :: u = y ++ a :: v) : x = y ∧ u = v := by
  induction x generalizing y with
  | nil =>
    cases y with
    | nil => exact ⟨rfl, (List.cons.inj h).2⟩
    | cons b y => exact absurd (List.cons.inj h).1 (List.ne_of_not_mem_cons hy)
  | cons b x ih =>
    cases y with
    | nil => exact absurd (List.cons.inj h).1.symm (List.ne_of_not_mem_cons hx)
    | cons c y =>
      obtain ⟨rfl, hrest⟩ := List.cons.inj h
      obtain ⟨rfl, huv⟩ := ih (List.not_mem_of_not_mem_cons hx) (List.not_mem_of_not_mem_cons hy) hrest
      exact ⟨rfl, huv⟩

theorem toList_idText (path : Path) (kind : ChunkKind) (fullPath contentHash : String) :
    (idText path kind fullPath contentHash).toList = path.text.toList ++ '\x00' ::
      (kind.id.toList ++ '\x00' :: (fullPath.toList ++ '\x00' :: contentHash.toList)) := by
  simp [idText]

/-- The text of an id says the path, the kind, the dotted path and the digest it is made from, if
the path has no zero byte. The dotted path may have some. -/
theorem idText_inj {p q : Path} {kind kind' : ChunkKind} {fullPath fullPath' hash hash' : String}
    (hp : '\x00' ∉ p.text.toList) (hq : '\x00' ∉ q.text.toList) (hhash : '\x00' ∉ hash.toList)
    (hhash' : '\x00' ∉ hash'.toList)
    (h : idText p kind fullPath hash = idText q kind' fullPath' hash') :
    p = q ∧ kind = kind' ∧ fullPath = fullPath' ∧ hash = hash' := by
  have hlists := congrArg String.toList h
  rw [toList_idText, toList_idText] at hlists
  obtain ⟨hpath, hlists⟩ := eq_of_append_cons_eq hp hq hlists
  obtain ⟨hkind, hlists⟩ := eq_of_append_cons_eq kind.zero_not_mem_id kind'.zero_not_mem_id hlists
  -- the digest is what stands after the last zero byte
  have hreversed := congrArg List.reverse hlists
  simp only [List.reverse_append, List.reverse_cons, List.append_assoc, List.singleton_append]
    at hreversed
  obtain ⟨hdigest, hfull⟩ := eq_of_append_cons_eq (by simpa using hhash) (by simpa using hhash')
    hreversed
  refine ⟨?_, ChunkKind.id_injective (String.toList_inj.mp hkind), ?_, ?_⟩
  · cases p
    cases q
    exact congrArg Path.mk (String.toList_inj.mp hpath)
  · exact String.toList_inj.mp (List.reverse_inj.mp hfull)
  · exact String.toList_inj.mp (List.reverse_inj.mp hdigest)

end Chunk

/-! ## Counts -/

namespace Draft

/-- Each of the chunks `cs` has the count of its id among the ids `seen` and those of the chunks
before it; `seen'` are the ids met afterwards. -/
structure Counted (seen : List String) (cs : List Chunk) (seen' : List String) : Prop where
  seen_eq : seen' = (cs.map Chunk.baseId).reverse ++ seen
  id_eq : ∀ before c after, cs = before ++ c :: after →
    c.id = numbered c.baseId (seen.count c.baseId + (before.map Chunk.baseId).count c.baseId + 1)

namespace Counted

variable {seen seen' seen'' : List String} {cs rest : List Chunk}

theorem nil : Counted seen [] seen where
  seen_eq := rfl
  id_eq before c after h := by simp at h

theorem append (h : Counted seen cs seen') (hrest : Counted seen' rest seen'') :
    Counted seen (cs ++ rest) seen'' where
  seen_eq := by
    rw [hrest.seen_eq, h.seen_eq, List.map_append, List.reverse_append, List.append_assoc]
  id_eq before c after hsplit := by
    rcases eq_append_of_append_eq hsplit with ⟨after', hcs⟩ | ⟨before', rfl, hcs⟩
    · exact h.id_eq before c after' hcs
    · rw [hrest.id_eq before' c after hcs, h.seen_eq, List.count_append, List.count_reverse,
        List.map_append, List.count_append, Nat.add_comm (List.count _ (cs.map Chunk.baseId)),
        Nat.add_assoc (List.count _ seen)]

/-- A chunk whose id is made fresh comes before the others. -/
theorem cons {c : Chunk} {parent : Option String} (hid : c.id = c.baseId)
    (h : Counted (c.id :: seen) cs seen') :
    Counted seen ({ c with id := freshId seen c.id, parentId := parent } :: cs) seen' where
  seen_eq := by
    rw [h.seen_eq, hid, List.map_cons, List.reverse_cons, List.append_assoc]
    rfl
  id_eq before e after hsplit := by
    cases before with
    | nil =>
      obtain ⟨rfl, -⟩ := List.cons.inj hsplit
      show freshId seen c.id = numbered c.baseId (seen.count c.baseId + 0 + 1)
      rw [freshId_eq, hid]
    | cons b before =>
      obtain ⟨rfl, hcs⟩ := List.cons.inj hsplit
      have hbase : Chunk.baseId { c with id := freshId seen c.id, parentId := parent } = c.baseId := rfl
      rw [h.id_eq before e after hcs, List.map_cons, hbase, hid, List.count_cons, List.count_cons,
        Nat.add_assoc (List.count _ seen), Nat.add_comm (ite _ _ _)]

end Counted

mutual

theorem counted_list {x : Chunk.Context} (d : Draft) (h : All (Chunk.IsCut x) d)
    (parent : Option String) (seen : List String) :
    Counted seen (list parent seen d).1 (list parent seen d).2 := by
  match d with
  | .mk c ds =>
      rw [list]
      exact (counted_listAll ds h.2 _ _).cons h.1.id_eq

/-- Listing drafts gives each chunk the count of its id. -/
theorem counted_listAll {x : Chunk.Context} (ds : List Draft) (h : AllIn (Chunk.IsCut x) ds)
    (parent : Option String) (seen : List String) :
    Counted seen (listAll parent seen ds).1 (listAll parent seen ds).2 := by
  match ds with
  | [] =>
      rw [listAll]
      exact .nil
  | d :: ds =>
      rw [listAll]
      exact (counted_list d h.1 _ _).append (counted_listAll ds h.2 _ _)

end

end Draft

/-! ## The chunks of one file -/

namespace Chunk

/-- The digests tell the texts apart from which the ids of the chunks are made. -/
def TellApart (cs : List Chunk) : Prop :=
  ∀ c ∈ cs, ∀ e ∈ cs, c.baseId = e.baseId → c.hashed = e.hashed

instance (cs : List Chunk) : Decidable (TellApart cs) :=
  inferInstanceAs (Decidable (∀ c ∈ cs, ∀ e ∈ cs, c.baseId = e.baseId → c.hashed = e.hashed))

theorem TellApart.mono {cs es : List Chunk} (h : TellApart es) (hsub : ∀ c ∈ cs, c ∈ es) :
    TellApart cs := fun c hc e he => h c (hsub c hc) e (hsub e he)

variable {parse : Parse} {limits : ChunkLimits} {file : SourceFile}

theorem chunks_ofFile_cases (parse : Parse) (file : SourceFile) (limits : ChunkLimits) :
    (ofFile parse file limits).chunks = [] ∨
      (ofFile parse file limits).chunks = windows file limits ∨
      ∃ rules root, (ofFile parse file limits).chunks = ofTree rules file limits root := by
  rw [ofFile]
  split
  · exact .inl rfl
  · split
    · exact .inr (.inl rfl)
    · split
      · exact .inr (.inl rfl)
      · exact .inr (.inr ⟨_, _, rfl⟩)

/-- A window has its digest for an id, no parent, and its line in its dotted path. -/
theorem of_mem_windows_plain {c : Chunk} (hc : c ∈ windows file limits) :
    c.id = c.baseId ∧ c.parentId = none ∧ c.contentHash = Digest.ofText c.content ∧
      c.fullPath = modulePath file.path ++ "@" ++ toString c.startLine := by
  obtain ⟨⟨start, ls⟩, -, hwindow⟩ := List.mem_filterMap.mp hc
  simp only [ofWindow?, Option.ite_none_left_eq_some] at hwindow
  rw [← Option.some.inj hwindow.2]
  exact ⟨rfl, rfl, rfl, rfl⟩

theorem contentHash_ofFile {c : Chunk} (hc : c ∈ (ofFile parse file limits).chunks) :
    c.contentHash = Digest.ofText c.content := by
  rcases chunks_ofFile_cases parse file limits with h | h | ⟨rules, root, h⟩ <;> rw [h] at hc
  · cases hc
  · exact (of_mem_windows_plain hc).2.2.1
  · refine Draft.of_mem_listAll (P := fun c => c.contentHash = Digest.ofText c.content)
      (fun _ _ _ h => h) _ ?_ _ _ c hc
    exact allIn_drafts _ (fun _ hcut => hcut.contentHash_eq) root

/-- Texts of ids that are the same come from the same path and the same dotted path. -/
theorem eq_of_hashed_eq {g : SourceFile} (hzero : '\x00' ∉ file.path.text.toList)
    (hzero' : '\x00' ∉ g.path.text.toList) {c e : Chunk}
    (hc : c ∈ (ofFile parse file limits).chunks) (he : e ∈ (ofFile parse g limits).chunks)
    (h : c.hashed = e.hashed) : file.path = g.path ∧ c.fullPath = e.fullPath := by
  have hpath := (emitted_ofFile parse file limits c hc).1
  have hpath' := (emitted_ofFile parse g limits e he).1
  rw [hashed, hashed, hpath, hpath', contentHash_ofFile hc, contentHash_ofFile he] at h
  obtain ⟨hsame, -, hfull, -⟩ :=
    idText_inj hzero hzero' (Digest.zero_not_mem _) (Digest.zero_not_mem _) h
  exact ⟨hsame, hfull⟩

/-- Windows with the same text of their ids begin on the same line. -/
theorem startLine_eq_of_windows {c e : Chunk} (hc : c ∈ windows file limits)
    (he : e ∈ windows file limits) (h : c.fullPath = e.fullPath) : c.startLine = e.startLine := by
  rw [(of_mem_windows_plain hc).2.2.2, (of_mem_windows_plain he).2.2.2] at h
  exact Draft.toString_inj (by simpa [← String.toList_inj] using h)

variable (hzero : '\x00' ∉ file.path.text.toList)
  (hapart : TellApart (ofFile parse file limits).chunks)
include hzero hapart

/-- The id of a chunk is its digest, with a count if the digest occurred before. -/
theorem id_eq_numbered {before after : List Chunk} {c : Chunk}
    (hsplit : (ofFile parse file limits).chunks = before ++ c :: after) :
    c.id = Draft.numbered c.baseId ((before.map baseId).count c.baseId + 1) := by
  rcases chunks_ofFile_cases parse file limits with h | h | ⟨rules, root, h⟩
  · rw [h] at hsplit
    simp at hsplit
  · -- windows are not counted, and their digests are different
    have hmem : ∀ {e}, e ∈ before ++ c :: after → e ∈ (ofFile parse file limits).chunks :=
      fun he => hsplit ▸ he
    have hc : c ∈ before ++ c :: after := by simp
    have hnone : c.baseId ∉ before.map baseId := by
      intro hin
      obtain ⟨b, hb, hsame⟩ := List.mem_map.mp hin
      have hb' : b ∈ before ++ c :: after := List.mem_append_left _ hb
      have hhashed := hapart b (hmem hb') c (hmem hc) hsame
      have hfull := (eq_of_hashed_eq hzero hzero (hmem hb') (hmem hc) hhashed).2
      have hpairwise := pairwise_windows file limits
      rw [← h, hsplit] at hpairwise
      have hlt := (List.pairwise_append.mp hpairwise).2.2 b hb c List.mem_cons_self
      have hline := startLine_eq_of_windows (h ▸ hmem hb') (h ▸ hmem hc) hfull
      omega
    rw [List.count_eq_zero.mpr hnone]
    exact (of_mem_windows_plain (h ▸ hmem hc)).1
  · have hcounted := Draft.counted_listAll _
      (allIn_drafts (contextOf rules file limits root) (fun _ hcut => hcut) root) none []
    rw [h, ofTree_eq] at hsplit
    simpa using hcounted.id_eq before c after hsplit

theorem nodup_ids_of_tellApart : ((ofFile parse file limits).chunks.map Chunk.id).Nodup := by
  rcases chunks_ofFile_cases parse file limits with h | h | ⟨rules, root, h⟩
  · rw [h]
    exact List.nodup_nil
  · -- windows with the same id would have the same line in their paths
    rw [h]
    refine nodup_ids_windows fun c hc e he hid => ?_
    rw [(of_mem_windows_plain hc).1, (of_mem_windows_plain he).1] at hid
    have hhashed := hapart c (h ▸ hc) e (h ▸ he) hid
    exact startLine_eq_of_windows hc he (eq_of_hashed_eq hzero hzero (h ▸ hc) (h ▸ he) hhashed).2
  · rw [h]
    exact nodup_ids_ofTree rules file limits root

omit hzero hapart

theorem follows_ofFile {before after : List Chunk} {c : Chunk}
    (hsplit : (ofFile parse file limits).chunks = before ++ c :: after) (hparent : c.parentId ≠ none) :
    c.Follows before := by
  rcases chunks_ofFile_cases parse file limits with h | h | ⟨rules, root, h⟩
  · rw [h] at hsplit
    simp at hsplit
  · have hc : c ∈ windows file limits := by
      rw [← h, hsplit]
      simp
    exact absurd (of_mem_windows_plain hc).2.1 hparent
  · exact follows_ofTree (h ▸ hsplit) hparent

/-! ## The chunks of many files -/

/-- The chunks of files, each file cut alone. -/
def ofFiles (parse : Parse) (limits : ChunkLimits) (files : List SourceFile) : List Chunk :=
  files.flatMap fun file => (ofFile parse file limits).chunks

variable {files : List SourceFile}

theorem mem_ofFiles (hfile : file ∈ files) {c : Chunk} (hc : c ∈ (ofFile parse file limits).chunks) :
    c ∈ ofFiles parse limits files := List.mem_flatMap.mpr ⟨file, hfile, hc⟩

/-- Chunks of files with different paths have different ids. -/
theorem id_ne_of_path_ne {g : SourceFile} (hzero : '\x00' ∉ file.path.text.toList)
    (hzero' : '\x00' ∉ g.path.text.toList) (hfile : file ∈ files) (hg : g ∈ files)
    (hapart : TellApart (ofFiles parse limits files)) (hne : file.path.text ≠ g.path.text) {c e : Chunk}
    (hc : c ∈ (ofFile parse file limits).chunks) (he : e ∈ (ofFile parse g limits).chunks) :
    c.id ≠ e.id := by
  intro hid
  obtain ⟨before, after, hsplit⟩ := List.append_of_mem hc
  obtain ⟨before', after', hsplit'⟩ := List.append_of_mem he
  rw [id_eq_numbered hzero (hapart.mono fun _ => mem_ofFiles hfile) hsplit,
    id_eq_numbered hzero' (hapart.mono fun _ => mem_ofFiles hg) hsplit'] at hid
  obtain ⟨hbase, -⟩ := Draft.numbered_inj (mark_not_mem_idOf _ _ _ _) (mark_not_mem_idOf _ _ _ _)
    (Nat.succ_pos _) (Nat.succ_pos _) hid
  have hhashed := hapart c (mem_ofFiles hfile hc) e (mem_ofFiles hg he) hbase
  exact hne (congrArg Path.text (eq_of_hashed_eq hzero hzero' hc he hhashed).1)

/-- Over files with different paths without zero bytes, all chunks have different ids, if the digests
tell apart what is hashed; and what is hashed says the path, the kind, the dotted path and the digest
of the content. A parent is the only chunk with its id, it is of the same file, and it is the nearest
chunk before that is less deep. A chunk whose digest occurs again in its file has the count in its
id. -/
theorem ids_ofFiles (parse : Parse) (limits : ChunkLimits) (files : List SourceFile)
    (hpaths : (files.map fun file => file.path.text).Nodup)
    (hzero : ∀ file ∈ files, '\x00' ∉ file.path.text.toList)
    (hapart : TellApart (ofFiles parse limits files)) :
    ((ofFiles parse limits files).map Chunk.id).Nodup ∧
    (∀ file ∈ files, ∀ c ∈ (ofFile parse file limits).chunks, ∀ id, c.parentId = some id →
      ∃ p ∈ (ofFile parse file limits).chunks, p.id = id ∧
        ∀ e ∈ ofFiles parse limits files, e.id = id → e = p) ∧
    (∀ file ∈ files, ∀ before c after,
      (ofFile parse file limits).chunks = before ++ c :: after →
        c.id = Draft.numbered c.baseId ((before.map baseId).count c.baseId + 1) ∧
          (c.parentId ≠ none → c.Follows before)) ∧
    ∀ file ∈ files, ∀ g ∈ files, ∀ kind kind' fullPath fullPath' content content',
      idText file.path kind fullPath (Digest.ofText content) =
          idText g.path kind' fullPath' (Digest.ofText content') →
        file.path = g.path ∧ kind = kind' ∧ fullPath = fullPath' ∧
          Digest.ofText content = Digest.ofText content' := by
  have hapartIn : ∀ file ∈ files, TellApart (ofFile parse file limits).chunks :=
    fun file hfile => hapart.mono fun _ => mem_ofFiles hfile
  have hdistinct : ((ofFiles parse limits files).map Chunk.id).Nodup := by
    rw [ofFiles, List.map_flatMap, List.nodup_flatMap]
    refine ⟨fun file hfile => nodup_ids_of_tellApart (hzero file hfile) (hapartIn file hfile), ?_⟩
    refine (List.pairwise_map.mp hpaths).imp_of_mem fun {f g} hf hg hne => ?_
    intro id hid hid'
    obtain ⟨c, hc, rfl⟩ := List.mem_map.mp hid
    obtain ⟨e, he, heq⟩ := List.mem_map.mp hid'
    exact id_ne_of_path_ne (hzero f hf) (hzero g hg) hf hg hapart hne hc he heq.symm
  refine ⟨hdistinct, fun file hfile c hc id hid => ?_, fun file hfile before c after hsplit => ?_,
    fun f hf g hg kind kind' fullPath fullPath' content content' h => ?_⟩
  · -- the parent is before the chunk in the file, and no other chunk of any file has its id
    obtain ⟨before, after, hsplit⟩ := List.append_of_mem hc
    obtain ⟨p, hp, hpid⟩ := (follows_ofFile hsplit (by rw [hid]; simp)).exists_parent
    have hp' : p ∈ (ofFile parse file limits).chunks := by
      rw [hsplit]
      exact List.mem_append_left _ hp
    have hsame : p.id = id := Option.some.inj (hpid.symm.trans hid)
    refine ⟨p, hp', hsame, fun e he heid => ?_⟩
    exact List.inj_on_of_nodup_map hdistinct he (mem_ofFiles hfile hp') (heid.trans hsame.symm)
  · exact ⟨id_eq_numbered (hzero file hfile) (hapartIn file hfile) hsplit, follows_ofFile hsplit⟩
  · exact idText_inj (hzero f hf) (hzero g hg) (Digest.zero_not_mem _) (Digest.zero_not_mem _) h

/-! ## Twins -/

/-- A file with the same type twice, and a file that has it once. -/
def twinFiles : List SourceFile :=
  [.ofText ⟨"a.rs"⟩ .rust "struct A;\nstruct A;\n", .ofText ⟨"b.rs"⟩ .rust "struct A;\n"]

/-- The tree of a text that has the same type on each line. -/
def twinParse : Parse := fun _ source =>
  Node.ofRows? source (⟨0, "source_file", true, "", 0, source.utf8ByteSize⟩ ::
    (List.range (source.utf8ByteSize / 10)).flatMap fun i =>
      [⟨1, "struct_item", true, "", 10 * i, 10 * i + 9⟩,
        ⟨2, "type_identifier", true, "name", 10 * i + 7, 10 * i + 8⟩])

/-- What the ids of the twins are made from: the twins of the first file share all of it. -/
theorem parts_twins : (ofFiles twinParse ⟨10, 1, 10, 0⟩ twinFiles).map
      (fun c => (c.path, c.kind, c.fullPath, c.content)) =
    [(⟨"a.rs"⟩, .container, "a.A", "struct A;"), (⟨"a.rs"⟩, .container, "a.A", "struct A;"),
      (⟨"b.rs"⟩, .container, "b.A", "struct A;")] := by decide +kernel

theorem tellApart_twins : TellApart (ofFiles twinParse ⟨10, 1, 10, 0⟩ twinFiles) := by
  have hcontent : ∀ c ∈ ofFiles twinParse ⟨10, 1, 10, 0⟩ twinFiles,
      c.contentHash = Digest.ofText c.content := by
    intro c hc
    obtain ⟨file, -, hc⟩ := List.mem_flatMap.mp hc
    exact contentHash_ofFile hc
  have hparts : ∀ c ∈ ofFiles twinParse ⟨10, 1, 10, 0⟩ twinFiles,
      (c.path, c.kind, c.fullPath, c.content) = (⟨"a.rs"⟩, .container, "a.A", "struct A;") ∨
        (c.path, c.kind, c.fullPath, c.content) = (⟨"b.rs"⟩, .container, "b.A", "struct A;") := by
    intro c hc
    have hmem := List.mem_map_of_mem (f := fun c : Chunk => (c.path, c.kind, c.fullPath, c.content)) hc
    rw [parts_twins] at hmem
    simpa using hmem
  have hne : idOf ⟨"a.rs"⟩ .container "a.A" (Digest.ofText "struct A;") ≠
      idOf ⟨"b.rs"⟩ .container "b.A" (Digest.ofText "struct A;") := by decide +kernel
  intro c hc e he hbase
  rw [baseId, baseId, hcontent c hc, hcontent e he] at hbase
  rw [hashed, hashed, hcontent c hc, hcontent e he]
  rcases hparts c hc with h | h <;> rcases hparts e he with h' | h' <;>
    simp only [Prod.mk.injEq] at h h' <;> simp only [h, h'] at hbase ⊢
  · exact absurd hbase hne
  · exact absurd hbase.symm hne

/-- The twins have different ids though what is hashed is the same. -/
theorem ids_ofFiles_twins : ∃ cs, ofFiles twinParse ⟨10, 1, 10, 0⟩ twinFiles = cs ∧
    cs.map (fun c => (c.path, c.kind, c.fullPath, c.content)) =
      [(⟨"a.rs"⟩, .container, "a.A", "struct A;"), (⟨"a.rs"⟩, .container, "a.A", "struct A;"),
        (⟨"b.rs"⟩, .container, "b.A", "struct A;")] ∧
    (twinFiles.map fun file => file.path.text).Nodup ∧
    (∀ file ∈ twinFiles, '\x00' ∉ file.path.text.toList) ∧ TellApart cs ∧
    (cs.map Chunk.id).Nodup := by
  have hpaths : (twinFiles.map fun file => file.path.text).Nodup := by decide
  have hzero : ∀ file ∈ twinFiles, '\x00' ∉ file.path.text.toList := by decide
  refine ⟨_, rfl, parts_twins, hpaths, hzero, tellApart_twins, ?_⟩
  exact (ids_ofFiles twinParse ⟨10, 1, 10, 0⟩ twinFiles hpaths hzero tellApart_twins).1

end Chunk

end SourceIndex
