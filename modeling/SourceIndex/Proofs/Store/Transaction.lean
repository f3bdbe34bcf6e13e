import Mathlib
import SourceIndex.Proofs.Store.Insert
import SourceIndex.Store.Search
import SourceIndex.Store.Statistics

/-! # Batches row by row

`Store.insert` takes a batch whole or not at all. Below it a batch goes in row by row: first the
records, each in the place of the record of its path, then the chunks, and with every chunk its
document goes into the word index. The rows are written inside a transaction, which is committed
after the last row and rolled back at the first row that is refused.

* `Connection.insertBatch`: a batch goes in, row by row.
* `Connection.insertBatch_eq`: seen from outside this is `Store.insert`.
* `Connection.InStep`: what holds between the files, the chunks and the word index.
* `Connection.insertBatch_transaction`: any number of batches, and one more.
-/

set_option autoImplicit false

namespace SourceIndex

/-! ## Tallies -/

theorem nodup_eraseDups (names : List String) : names.eraseDups.Nodup := by
  -- the recursion is on the names that differ from the first
  induction h : names.length using Nat.strong_induction_on generalizing names with
  | _ n ih =>
      cases names with
      | nil => simp
      | cons name names =>
          rw [List.eraseDups_cons, List.nodup_cons, List.mem_eraseDups]
          refine ⟨by simp, ih _ ?_ _ rfl⟩
          rw [← h, List.length_cons]
          exact Nat.lt_succ_of_le (List.length_filter_le _ _)

/-- The counts of a tally add up to the number of names. -/
theorem sum_tally (names : List String) :
    ((tally names).map Prod.snd).sum = names.length := by
  have hperm : (names.eraseDups.mergeSort Text.le).Perm names.dedup := by
    refine (List.mergeSort_perm _ _).trans ?_
    refine (List.perm_ext_iff_of_nodup (nodup_eraseDups names) names.nodup_dedup).mpr fun name => ?_
    rw [List.mem_eraseDups, List.mem_dedup]
  have hsnd : (tally names).map Prod.snd =
      (names.eraseDups.mergeSort Text.le).map names.count := by
    rw [tally, List.map_map]
    rfl
  rw [hsnd, (hperm.map names.count).sum_eq, List.sum_map_count_dedup_eq_length]

/-! ## Records and batches -/

namespace Store

theorem mem_path_addFile {files : List FileRecord} {file : FileRecord} {p : Path} :
    p ∈ (addFile files file).map FileRecord.path ↔
      p ∈ files.map FileRecord.path ∨ p = file.path := by
  by_cases hp : p = file.path
  · simp [addFile, hp]
  · simp only [addFile, List.map_append, List.mem_append, List.mem_map, List.mem_filter, hp,
      or_false, List.map_cons, List.map_nil, List.mem_singleton]
    constructor
    · rintro ⟨f, ⟨hf, -⟩, rfl⟩
      exact ⟨f, hf, rfl⟩
    · rintro ⟨f, hf, rfl⟩
      exact ⟨f, ⟨hf, by simpa using hp⟩, rfl⟩

theorem mem_path_foldl_addFile {earlier files : List FileRecord} {p : Path} :
    p ∈ (files.foldl addFile earlier).map FileRecord.path ↔
      p ∈ earlier.map FileRecord.path ∨ p ∈ files.map FileRecord.path := by
  induction files generalizing earlier with
  | nil => simp
  | cons f files ih =>
      rw [List.foldl_cons, ih, mem_path_addFile, List.map_cons, List.mem_cons, or_assoc]

/-- No path has two records, however often a file is recorded. -/
theorem nodup_foldl_addFile {earlier files : List FileRecord}
    (h : (earlier.map FileRecord.path).Nodup) :
    ((files.foldl addFile earlier).map FileRecord.path).Nodup := by
  induction files generalizing earlier with
  | nil => exact h
  | cons f files ih =>
      refine ih ?_
      rw [addFile, List.map_append, List.map_singleton, ← List.concat_eq_append]
      exact (h.sublist (List.filter_sublist.map _)).concat (by simp)

/-- Chunks of different ids whose files are recorded. -/
structure Sound (s : Store) : Prop where
  paths : (s.files.map FileRecord.path).Nodup
  ids : (s.chunks.map Chunk.id).Nodup
  recorded : ∀ c ∈ s.chunks, c.path ∈ s.files.map FileRecord.path

theorem Sound.empty : Sound empty :=
  ⟨by simp [Store.empty], by simp [Store.empty], by simp [Store.empty]⟩

variable {s s' : Store} {files : List FileRecord} {chunks : List Chunk}

/-- A batch goes in exactly if its chunks bring new and different ids and belong to files that
are recorded already or with the batch. -/
theorem Sound.insert_ok_iff (h : s.Sound) :
    s.insert files chunks = .ok s' ↔ ((s.chunks ++ chunks).map Chunk.id).Nodup ∧
      (∀ c ∈ chunks, c.path ∈ (s.files ++ files).map FileRecord.path) ∧
      s' = { s with files := files.foldl addFile s.files, chunks := s.chunks ++ chunks } := by
  have hrecorded : ∀ c : Chunk, (∃ f ∈ files.foldl addFile s.files, f.path = c.path) ↔
      c.path ∈ (s.files ++ files).map FileRecord.path := by
    intro c
    rw [List.map_append, List.mem_append, ← mem_path_foldl_addFile, List.mem_map]
  have hids : (({ s with files := files.foldl addFile s.files } : Store).chunks.map Chunk.id).Nodup :=
    h.ids
  rw [insert, addChunks_ok_iff hids]
  simp only [hrecorded]

/-- What a batch leaves is sound again. -/
theorem Sound.insert (h : s.Sound) (hs : s.insert files chunks = .ok s') : s'.Sound := by
  obtain ⟨hids, hfiles, rfl⟩ := h.insert_ok_iff.mp hs
  refine ⟨nodup_foldl_addFile h.paths, hids, fun c hc => ?_⟩
  rw [mem_path_foldl_addFile]
  rcases List.mem_append.mp hc with hc | hc
  · exact .inl (h.recorded c hc)
  · simpa using hfiles c hc

/-- Why a batch is refused. -/
def Clashes (s : Store) (files : List FileRecord) (chunks : List Chunk) : Prop :=
  (∃ c ∈ chunks, ∃ d ∈ s.chunks, c.id = d.id) ∨ ¬ (chunks.map Chunk.id).Nodup ∨
    ∃ c ∈ chunks, c.path ∉ s.files.map FileRecord.path ∧ c.path ∉ files.map FileRecord.path

/-- A batch is refused exactly if an id comes twice or a file is not recorded. -/
theorem Sound.insert_error_iff (h : s.Sound) :
    (∃ f, s.insert files chunks = .error f) ↔ s.Clashes files chunks := by
  have hok : (∃ f, s.insert files chunks = .error f) ↔ ¬ ∃ s', s.insert files chunks = .ok s' := by
    cases s.insert files chunks <;> simp
  simp only [hok, h.insert_ok_iff, exists_and_left, exists_eq, and_true, Clashes, List.map_append,
    List.nodup_append, h.ids, true_and, List.mem_append]
  constructor
  · intro hnot
    by_contra hclash
    push Not at hclash
    obtain ⟨hnew, hnodup, hfiles⟩ := hclash
    refine hnot ⟨⟨hnodup, fun i hi j hj hij => ?_⟩, fun c hc => ?_⟩
    · obtain ⟨d, hd, rfl⟩ := List.mem_map.mp hi
      obtain ⟨c, hc, rfl⟩ := List.mem_map.mp hj
      exact hnew c hc d hd hij.symm
    · exact or_iff_not_imp_left.mpr (hfiles c hc)
  · rintro (⟨c, hc, d, hd, hcd⟩ | hdup | ⟨c, hc, hstored, hbatch⟩) ⟨⟨hnodup, hnew⟩, hfiles⟩
    · exact hnew _ (List.mem_map_of_mem hd) _ (List.mem_map_of_mem hc) hcd.symm
    · exact hdup hnodup
    · exact (hfiles c hc).elim hstored hbatch

/-! ## Counts -/

theorem embedded_add_countUnembedded (s : Store) :
    s.statistics.embedded + s.countUnembedded none = s.statistics.chunks := by
  have hsplit := List.length_eq_countP_add_countP (fun c : Chunk => c.embedding.isSome)
    (l := s.chunks)
  simpa [statistics, countUnembedded, passes, ← Option.isNone_iff_eq_none] using hsplit.symm

theorem sum_languages (s : Store) :
    (s.statistics.languages.map Prod.snd).sum = s.statistics.chunks := by
  simp [statistics, sum_tally]

theorem sum_kinds (s : Store) : (s.statistics.kinds.map Prod.snd).sum = s.statistics.chunks := by
  simp [statistics, sum_tally]

end Store

/-! ## Tables and rows -/

/-- The tables of a store. The word index is a table of its own, written with the chunks. -/
structure Tables extends Store where
  words : List Keyword.Document := []

/-- What is written at once. -/
inductive Row where
  | file (file : FileRecord)
  | chunk (chunk : Chunk)

/-- What goes in with one call. -/
structure Batch where
  files : List FileRecord
  chunks : List Chunk

/-- The rows of a batch: the records before the chunks that refer to them. -/
def Batch.rows (b : Batch) : List Row := b.files.map Row.file ++ b.chunks.map Row.chunk

namespace Tables

/-- The tables with one more row, and with the document of a chunk. -/
def write (t : Tables) : Row → Except StoreFault Tables
  | .file file => .ok { t with files := Store.addFile t.files file }
  | .chunk c =>
    (t.toStore.addChunk c).map fun s => { s with words := t.words ++ [Store.document c] }

/-- The chunks that have most of a query's words, found in the word index. -/
def keywordSearch (t : Tables) (query : String) (language : Option String) (limit : Nat) :
    List (Ranked Float) :=
  let found := (Keyword.scored t.words query).filter fun d => Store.passesDocument language d.1
  (Ranked.ranking (found.map fun (d, x) => ⟨d.id, x⟩)).take limit

/-- A word index in step with the chunks finds what the chunks say. -/
theorem keywordSearch_eq {t : Tables} (h : t.words = t.chunks.map Store.document) (query : String)
    (language : Option String) (limit : Nat) :
    t.keywordSearch query language limit = t.toStore.keywordSearch query language limit := by
  rw [keywordSearch, Store.keywordSearch, h]

end Tables

/-! ## Connections -/

/-- A connection to a store: what was committed, and what an open transaction made of it. -/
structure Connection where
  committed : Tables := {}
  written : Option Tables := none

namespace Connection

/-- The tables that a query reads. -/
def tables (c : Connection) : Tables := c.written.getD c.committed

/-- A transaction is opened. -/
def start (c : Connection) : Connection := { c with written := some c.tables }

/-- One row is written in the open transaction. -/
def execute (c : Connection) (row : Row) : Except StoreFault Connection :=
  (c.tables.write row).map fun t => { c with written := some t }

/-- Rows are written up to the first that is refused; what stands before it stays written. -/
def executeAll (c : Connection) : List Row → Connection × Option StoreFault
  | [] => (c, none)
  | row :: rest =>
    match c.execute row with
    | .ok c => c.executeAll rest
    | .error f => (c, some f)

/-- The open transaction is kept. -/
def commit (c : Connection) : Connection := ⟨c.tables, none⟩

/-- The open transaction is dropped. -/
def rollBack (c : Connection) : Connection := ⟨c.committed, none⟩

/-- A batch goes in: its rows in one transaction, dropped if a row is refused. -/
def insertBatch (c : Connection) (b : Batch) : Connection × Except StoreFault Unit :=
  match c.start.executeAll b.rows with
  | (c, none) => (c.commit, .ok ())
  | (c, some f) => (c.rollBack, .error f)

/-- The connection after some batches, whether they went in or not. -/
def insertAll (c : Connection) (batches : List Batch) : Connection :=
  batches.foldl (fun c b => (c.insertBatch b).1) c

/-! ## Rows of a transaction -/

variable {c : Connection} {t : Tables}

theorem executeAll_append (c : Connection) (before after : List Row) :
    c.executeAll (before ++ after) =
      match c.executeAll before with
      | (d, none) => d.executeAll after
      | (d, some f) => (d, some f) := by
  induction before generalizing c with
  | nil => rfl
  | cons row before ih =>
      rw [List.cons_append, executeAll, executeAll]
      cases c.execute row with
      | ok d => exact ih d
      | error f => rfl

theorem execute_file (h : c.written = some t) (f : FileRecord) :
    c.execute (.file f) = .ok ⟨c.committed, some { t with files := Store.addFile t.files f }⟩ := by
  simp [execute, tables, h, Tables.write, Except.map]

theorem execute_chunk_of_ok (h : c.written = some t) {k : Chunk} {s : Store}
    (hs : t.toStore.addChunk k = .ok s) :
    c.execute (.chunk k) =
      .ok ⟨c.committed, some { s with words := t.words ++ [Store.document k] }⟩ := by
  simp [execute, tables, h, Tables.write, hs, Except.map]

theorem execute_chunk_of_error (h : c.written = some t) {k : Chunk} {f : StoreFault}
    (hs : t.toStore.addChunk k = .error f) : c.execute (.chunk k) = .error f := by
  simp [execute, tables, h, Tables.write, hs, Except.map]

/-- Records always go in. -/
theorem executeAll_files (h : c.written = some t) (files : List FileRecord) :
    c.executeAll (files.map Row.file) =
      (⟨c.committed, some { t with files := files.foldl Store.addFile t.files }⟩, none) := by
  induction files generalizing c t with
  | nil => simp [executeAll, ← h]
  | cons f files ih =>
      rw [List.map_cons, executeAll, execute_file h]
      exact ih (c := ⟨c.committed, some { t with files := Store.addFile t.files f }⟩) rfl

/-- Chunks go in if the store takes them, and bring their documents. -/
theorem executeAll_chunks_of_ok (h : c.written = some t) {chunks : List Chunk} {s : Store}
    (hs : t.toStore.addChunks chunks = .ok s) :
    c.executeAll (chunks.map Row.chunk) =
      (⟨c.committed, some { s with words := t.words ++ chunks.map Store.document }⟩, none) := by
  induction chunks generalizing c t with
  | nil =>
      cases hs
      simp [executeAll, ← h]
  | cons k chunks ih =>
      rw [Store.addChunks] at hs
      split at hs
      · rename_i u hu
        rw [List.map_cons, executeAll, execute_chunk_of_ok h hu]
        simpa using ih (c := ⟨c.committed, some { u with words := t.words ++ [Store.document k] }⟩)
          rfl hs
      · cases hs

/-- A chunk that the store refuses stops the rows. -/
theorem executeAll_chunks_of_error (h : c.written = some t) {chunks : List Chunk} {f : StoreFault}
    (hs : t.toStore.addChunks chunks = .error f) :
    ∃ u, c.executeAll (chunks.map Row.chunk) = (⟨c.committed, some u⟩, some f) := by
  induction chunks generalizing c t with
  | nil => cases hs
  | cons k chunks ih =>
      rw [Store.addChunks] at hs
      rw [List.map_cons, executeAll]
      split at hs
      · rename_i u hu
        rw [execute_chunk_of_ok h hu]
        exact ih (c := ⟨c.committed, some { u with words := t.words ++ [Store.document k] }⟩) rfl hs
      · rename_i g hg
        cases hs
        rw [execute_chunk_of_error h hg]
        exact ⟨t, by simp [← h]⟩

/-- Outside of a transaction a batch does what `Store.insert` does: it goes in with its
documents, or nothing has changed. -/
theorem insertBatch_eq (h : c.written = none) (b : Batch) :
    c.insertBatch b =
      match c.committed.toStore.insert b.files b.chunks with
      | .ok s =>
        (⟨{ s with words := c.committed.words ++ b.chunks.map Store.document }, none⟩, .ok ())
      | .error f => (c, .error f) := by
  obtain ⟨t, w⟩ := c
  obtain rfl : w = none := h
  have hfiles : (start ⟨t, none⟩).executeAll (b.files.map Row.file) =
      (⟨t, some { t with files := b.files.foldl Store.addFile t.files }⟩, none) :=
    executeAll_files rfl b.files
  -- the records are in; whether the transaction is kept is up to the chunks
  rw [insertBatch, Batch.rows, executeAll_append, hfiles]
  cases hs : t.toStore.insert b.files b.chunks with
  | ok s =>
      have hchunks := executeAll_chunks_of_ok
        (c := ⟨t, some { t with files := b.files.foldl Store.addFile t.files }⟩) rfl hs
      simp only [hchunks]
      rfl
  | error f =>
      obtain ⟨u, hchunks⟩ := executeAll_chunks_of_error
        (c := ⟨t, some { t with files := b.files.foldl Store.addFile t.files }⟩) rfl hs
      simp only [hchunks]
      rfl

/-! ## Sequences of batches -/

/-- No transaction is open, the chunks have different ids and recorded files, no path has two
records, and the word index holds the documents of the chunks. -/
structure InStep (c : Connection) : Prop where
  closed : c.written = none
  sound : c.tables.Sound
  words : c.tables.words = c.tables.chunks.map Store.document

theorem InStep.fresh : InStep {} := ⟨rfl, Store.Sound.empty, rfl⟩

theorem InStep.tables_eq (h : c.InStep) : c.tables = c.committed := by
  rw [tables, h.closed, Option.getD_none]

/-- A batch keeps the tables in step, whether it goes in or not. -/
theorem InStep.insertBatch (h : c.InStep) (b : Batch) : (c.insertBatch b).1.InStep := by
  rw [insertBatch_eq h.closed, ← h.tables_eq]
  cases hs : c.tables.toStore.insert b.files b.chunks with
  | ok s =>
      obtain ⟨-, -, hchunks⟩ := h.sound.insert_ok_iff.mp hs
      refine ⟨rfl, h.sound.insert hs, ?_⟩
      change c.tables.words ++ b.chunks.map Store.document = s.chunks.map Store.document
      rw [hchunks, h.words, List.map_append]
  | error f => exact h

theorem InStep.insertAll (h : c.InStep) (batches : List Batch) : (c.insertAll batches).InStep := by
  induction batches generalizing c with
  | nil => exact h
  | cons b batches ih => exact ih (h.insertBatch b)

/-- A batch fails exactly if it clashes with the tables or with itself. -/
theorem InStep.insertBatch_error_iff (h : c.InStep) (b : Batch) :
    (∃ f, (c.insertBatch b).2 = .error f) ↔ c.tables.Clashes b.files b.chunks := by
  rw [← h.sound.insert_error_iff, insertBatch_eq h.closed, ← h.tables_eq]
  cases c.tables.toStore.insert b.files b.chunks <;> simp

/-- A batch that failed, at whatever row, has left nothing behind. -/
theorem InStep.insertBatch_of_error (h : c.InStep) {b : Batch} {f : StoreFault}
    (hf : (c.insertBatch b).2 = .error f) : (c.insertBatch b).1 = c := by
  rw [insertBatch_eq h.closed] at hf ⊢
  cases hs : c.committed.toStore.insert b.files b.chunks with
  | ok s => simp [hs] at hf
  | error g => rfl

/-- A batch that did not fail has gone in whole. -/
theorem InStep.insertBatch_of_ok (h : c.InStep) {b : Batch} (hb : (c.insertBatch b).2 = .ok ()) :
    (c.insertBatch b).1.tables.files = b.files.foldl Store.addFile c.tables.files ∧
      (c.insertBatch b).1.tables.chunks = c.tables.chunks ++ b.chunks := by
  rw [insertBatch_eq h.closed, ← h.tables_eq] at hb ⊢
  cases hs : c.tables.toStore.insert b.files b.chunks with
  | ok s =>
      obtain ⟨-, -, rfl⟩ := h.sound.insert_ok_iff.mp hs
      exact ⟨rfl, rfl⟩
  | error f => simp [hs] at hb

/-- Batches on a fresh store, and one more. It fails exactly if an id comes twice or a file is not
recorded; it leaves everything as it was then, and has gone in whole otherwise. The tables stay in
step, both searches for words agree, and all counts of chunks are the same. -/
theorem insertBatch_transaction (batches : List Batch) (b : Batch) :
    let c := insertAll {} batches
    let d := (c.insertBatch b).1
    let answer := (c.insertBatch b).2
    c.InStep ∧ d.InStep ∧
      ((∃ f, answer = .error f) ↔ c.tables.Clashes b.files b.chunks) ∧
      (∀ f, answer = .error f → d = c) ∧
      (answer = .ok () → d.tables.files = b.files.foldl Store.addFile c.tables.files ∧
        d.tables.chunks = c.tables.chunks ++ b.chunks) ∧
      (∀ query language limit, d.tables.keywordSearch query language limit =
        d.tables.toStore.keywordSearch query language limit) ∧
      d.tables.statistics.chunks =
        d.tables.statistics.embedded + d.tables.countUnembedded none ∧
      d.tables.statistics.chunks = (d.tables.statistics.languages.map Prod.snd).sum ∧
      d.tables.statistics.chunks = (d.tables.statistics.kinds.map Prod.snd).sum := by
  have hc : (insertAll {} batches).InStep := InStep.fresh.insertAll batches
  have hd := hc.insertBatch b
  exact ⟨hc, hd, hc.insertBatch_error_iff b, fun _ => hc.insertBatch_of_error,
    hc.insertBatch_of_ok, Tables.keywordSearch_eq hd.words,
    (Store.embedded_add_countUnembedded _).symm, (Store.sum_languages _).symm,
    (Store.sum_kinds _).symm⟩

end Connection

end SourceIndex
