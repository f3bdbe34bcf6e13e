import Mathlib
import SourceIndex.Proofs.Json.Reading
import SourceIndex.Store.Rows

/-! # Rows read back

A row has everything of its chunk, so the chunk is read back from it (`ChunkRow.chunk?_ofChunk`): the
lists through their texts and the vector through its bytes, bit for bit. So the rows of a file give
the chunks that the store has for it, in the same order (`Store.select?_eq`).
-/

set_option autoImplicit false

namespace SourceIndex

/-! ## Vectors -/

namespace Embedding

theorem wordOfBytes_bytesOfWord (w : UInt32) :
    wordOfBytes w.toUInt8 (w >>> 8).toUInt8 (w >>> 16).toUInt8 (w >>> 24).toUInt8 = w := by
  have hw := w.toNat_lt
  apply UInt32.toNat_inj.mp
  simp [wordOfBytes, Nat.shiftRight_eq_div_pow]
  omega

/-- Any words are read back from their bytes. -/
theorem wordsOfBytes_bytesOfWords (words : List UInt32) :
    wordsOfBytes (bytesOfWords words) = words := by
  induction words with
  | nil => rfl
  | cons w words ih =>
    have hbytes : bytesOfWords (w :: words) = bytesOfWord w ++ bytesOfWords words := by
      simp [bytesOfWords]
    rw [hbytes, bytesOfWord]
    simp only [List.cons_append, List.nil_append, wordsOfBytes, wordOfBytes_bytesOfWord, ih]

theorem ofBytes_bytes (v : Embedding) : ofBytes v.bytes = v := by
  rw [ofBytes, bytes, wordsOfBytes_bytesOfWords, List.map_map]
  have hbits : Float32.ofBits ∘ Float32.toBits = id := funext Float32.ofBits_toBits
  rw [hbits, List.map_id]

end Embedding

/-! ## Lists -/

/-- What is read of each item on its own is read of the list. -/
theorem mapM_map_some {α β γ : Type} {f : α → β} {g : β → Option γ} {k : α → γ} {as : List α}
    (h : ∀ a ∈ as, g (f a) = some (k a)) : (as.map f).mapM g = some (as.map k) := by
  induction as with
  | nil => rfl
  | cons a as ih =>
    obtain ⟨ha, has⟩ := List.forall_mem_cons.mp h
    simp [ha, ih has]

namespace Json

/-- A list is read back from its text if its items are. -/
theorem listOfText?_listText {α : Type} {item : α → Json} {item? : Json → Option α} {items : List α}
    (hreadable : ∀ a ∈ items, (item a).IsReadable (maxDepth - 1))
    (h : ∀ a ∈ items, item? (item a) = some a) :
    listOfText? item? (listText item items) = some items := by
  have harr : (arr (items.map item)).IsReadable maxDepth := by
    refine ⟨by decide, areReadable_iff.mpr fun v hv => ?_⟩
    obtain ⟨a, ha, rfl⟩ := List.mem_map.mp hv
    exact hreadable a ha
  rw [listOfText?, listText, read?_compact harr]
  exact (mapM_map_some h).trans (congrArg some (List.map_id' items))

end Json

theorem Parameter.isReadable_json (p : Parameter) {room : Nat} (h : 0 < room) :
    p.json.IsReadable room := by
  obtain ⟨name, type, default⟩ := p
  refine ⟨h, Json.hasReadable_iff.mpr fun f hf => ?_⟩
  have htext : ∃ text, f.2 = .str text := by
    cases type <;> cases default <;> simp [Json.optional] at hf <;> grind
  obtain ⟨text, htext⟩ := htext
  rw [htext]
  trivial

theorem Parameter.ofJson?_json (p : Parameter) : ofJson? p.json = some p := by
  obtain ⟨name, _ | type, _ | default⟩ := p <;> rfl

theorem CallEdge.isReadable_json {e : CallEdge} (hline : e.line < UInt64.size) {room : Nat}
    (h : 0 < room) : e.json.IsReadable room := by
  refine ⟨h, trivial, ⟨Int.natCast_nonneg _, ?_⟩, trivial⟩
  exact_mod_cast hline

theorem CallEdge.ofJson?_json (e : CallEdge) : ofJson? e.json = some e := by
  have hcallee : e.json.stringAt? "callee" = some e.callee := rfl
  have hline : e.json.naturalAt? "line" = some e.line := by
    have hgiven : e.json.given? "line" = some (.natural e.line) := rfl
    simp [Json.naturalAt?, hgiven, Json.natural?, Json.natural]
  rw [ofJson?, hcallee, hline]
  rfl

/-! ## Rows -/

namespace ChunkRow

/-- A chunk is read back from its row, if the lines of its calls fit into 64 bits. -/
theorem chunk?_ofChunk (number : Nat) {c : Chunk} (hcalls : ∀ e ∈ c.calls, e.line < UInt64.size) :
    (ofChunk number c).chunk? = some c := by
  have hparameters : Json.listOfText? Parameter.ofJson? (ofChunk number c).parameters =
      some c.parameters :=
    Json.listOfText?_listText (fun p _ => p.isReadable_json (by decide)) fun p _ => p.ofJson?_json
  have htexts : ∀ texts : List String,
      Json.listOfText? Json.string? (Json.listText Json.str texts) = some texts := fun texts =>
    Json.listOfText?_listText (fun _ _ => trivial) fun _ _ => rfl
  have hedges : Json.listOfText? CallEdge.ofJson? (ofChunk number c).calls = some c.calls :=
    Json.listOfText?_listText (fun e he => CallEdge.isReadable_json (hcalls e he) (by decide))
      fun e _ => e.ofJson?_json
  have hvector : (ofChunk number c).embedding.map Embedding.ofBytes = c.embedding := by
    simp [ofChunk, Function.comp_def, Embedding.ofBytes_bytes]
  have hkind : ChunkKind.ofId? (ofChunk number c).kind = some c.kind := c.kind.ofId?_id
  have hdecorators : Json.listOfText? Json.string? (ofChunk number c).decorators =
      some c.decorators := htexts c.decorators
  have himports : Json.listOfText? Json.string? (ofChunk number c).imports = some c.imports :=
    htexts c.imports
  simp only [chunk?, hkind, hparameters, hdecorators, himports, hedges, hvector,
    Option.bind_eq_bind, Option.bind_some]
  rfl

/-! ## The order of rows -/

/-- Whether a row stands no later in its file than another, whatever their numbers. -/
def placeLe (r t : ChunkRow) : Bool :=
  r.startLine < t.startLine || (r.startLine == t.startLine && r.depth ≤ t.depth)

theorem placeLe_iff {r t : ChunkRow} : r.placeLe t = true ↔
    r.startLine < t.startLine ∨ r.startLine = t.startLine ∧ r.depth ≤ t.depth := by
  simp [placeLe]

theorem le_iff {r t : ChunkRow} : r.le t = true ↔ r.startLine < t.startLine ∨
    r.startLine = t.startLine ∧ (r.depth < t.depth ∨ r.depth = t.depth ∧ r.number ≤ t.number) := by
  simp [le]

/-- Rows that are numbered in order are sorted the same with their numbers and without. -/
theorem mergeSort_le {rs : List ChunkRow} (h : rs.Pairwise fun r t => r.number < t.number) :
    rs.mergeSort le = rs.mergeSort placeLe := by
  -- a sort that keeps the order of equal places compares the places of rows in the list
  have hplaces : ∀ p ∈ rs.zipIdx, ∀ q ∈ rs.zipIdx, List.zipIdxLE placeLe p q = p.1.le q.1 := by
    intro p hp q hq
    have hnumber : p.2 ≤ q.2 ↔ p.1.number ≤ q.1.number := by
      obtain ⟨hi, hp⟩ := List.mem_zipIdx' hp
      obtain ⟨hj, hq⟩ := List.mem_zipIdx' hq
      have hlt := List.pairwise_iff_getElem.mp h
      rw [hp, hq]
      rcases Nat.lt_trichotomy p.2 q.2 with hij | hij | hij
      · have := hlt p.2 q.2 hi hj hij
        omega
      · simp [hij]
      · have := hlt q.2 p.2 hj hi hij
        omega
    rw [Bool.eq_iff_iff, le_iff]
    simp only [List.zipIdxLE, placeLe_iff]
    split_ifs with hle hge
    · simp only [decide_eq_true_eq, hnumber]
      omega
    · simp only [true_iff]
      omega
    · simp only [false_iff]
      omega
  have hstable := List.map_mergeSort hplaces
  rw [List.mergeSort_zipIdx, List.zipIdx_map_fst] at hstable
  exact hstable.symm

end ChunkRow

/-! ## The table of a store -/

namespace Store

theorem pairwise_number_rows (s : Store) : s.rows.Pairwise fun r t => r.number < t.number := by
  refine List.pairwise_iff_getElem.mpr fun i j hi hj hij => ?_
  simpa [rows, ChunkRow.ofChunk] using hij

/-- The rows of a file give the chunks that the store has for it, if the lines of their calls fit into
64 bits. -/
theorem select?_eq (s : Store) (path : Path)
    (h : ∀ c ∈ s.chunks, c.path = path → ∀ e ∈ c.calls, e.line < UInt64.size) :
    s.select? path = some (s.chunksOf path) := by
  -- the chunks of the file, each with its place in the table
  let row (p : Chunk × Nat) : ChunkRow := .ofChunk (p.2 + 1) p.1
  let placed := s.chunks.zipIdx.filter fun p => p.1.path = path
  let sorted := placed.mergeSort fun p q => placeLe p.1 q.1
  have hpath : ∀ p : Chunk × Nat, (decide ((row p).path = path.text)) = decide (p.1.path = path) := by
    intro p
    refine decide_eq_decide.mpr ⟨fun htext => ?_, congrArg Path.text⟩
    cases hp : p.1.path
    cases path
    simpa [row, ChunkRow.ofChunk, hp] using htext
  have hrows : s.rows.filter (fun r => r.path = path.text) = placed.map row := by
    rw [rows, List.mapIdx_eq_zipIdx_map, List.filter_map]
    exact congrArg _ (List.filter_congr fun p _ => hpath p)
  have hchunks : placed.map Prod.fst = s.chunks.filter fun c => c.path = path := by
    have hfst := List.filter_map (f := Prod.fst) (p := fun c : Chunk => decide (c.path = path))
      (l := s.chunks.zipIdx)
    rw [List.zipIdx_map_fst] at hfst
    exact hfst.symm
  -- sorting rows by their places comes to sorting chunks by theirs
  have hrowsSorted : sorted.map row = (placed.map row).mergeSort ChunkRow.placeLe :=
    List.map_mergeSort fun _ _ _ _ => rfl
  have hchunksSorted : sorted.map Prod.fst = (placed.map Prod.fst).mergeSort placeLe :=
    List.map_mergeSort fun _ _ _ _ => rfl
  have hread : ∀ p ∈ sorted, (row p).chunk? = some p.1 := by
    intro p hp
    obtain ⟨hmem, hof⟩ := List.mem_filter.mp (List.mem_mergeSort.mp hp)
    have hchunk : p.1 ∈ s.chunks := by
      have := List.mem_map_of_mem (f := Prod.fst) hmem
      rwa [List.zipIdx_map_fst] at this
    exact ChunkRow.chunk?_ofChunk _ (h p.1 hchunk (of_decide_eq_true hof))
  calc s.select? path
      = ((placed.map row).mergeSort ChunkRow.le).mapM ChunkRow.chunk? := by rw [select?, hrows]
    _ = ((placed.map row).mergeSort ChunkRow.placeLe).mapM ChunkRow.chunk? := by
        rw [ChunkRow.mergeSort_le (hrows ▸ s.pairwise_number_rows.filter _)]
    _ = (sorted.map row).mapM ChunkRow.chunk? := by rw [hrowsSorted]
    _ = some (sorted.map Prod.fst) := mapM_map_some hread
    _ = some (s.chunksOf path) := by rw [hchunksSorted, chunksOf, hchunks]

end Store

end SourceIndex
