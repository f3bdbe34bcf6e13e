import Mathlib
import SourceIndex.Proofs.Chunk.Calls
import SourceIndex.Proofs.Chunk.Coverage
import SourceIndex.Proofs.Chunk.Hashes

/-! # The order of the chunks of a file

The chunks of a file are listed in the order in which they stand in it: by first line, and those with
the same first line from the outermost inwards (`Chunk.pairwise_standsBefore_ofFile`). In a tree this
is so because children lie inside their parents and beside each other.

The lines of their calls are lines of the file (`Chunk.line_le_of_mem_calls`), and their ids are
different if digests tell windows of lines apart (`Chunk.nodup_ids_of_digests`).
-/

set_option autoImplicit false

namespace SourceIndex

/-! ## Chunks in their places -/

namespace Chunk

/-- A chunk begins on an earlier line than another, or on the same line and is less deep. -/
def StandsBefore (c e : Chunk) : Prop :=
  c.startLine < e.startLine ∨ c.startLine = e.startLine ∧ c.depth < e.depth

/-- A chunk begins on a line of another and is as deep at least. -/
structure BeginsIn (e c : Chunk) : Prop where
  start_le : c.startLine ≤ e.startLine
  le_end : e.startLine ≤ c.endLine
  depth_le : c.depth ≤ e.depth

end Chunk

namespace Draft

variable {lines : List String} {ds : List Draft}

/-- Drafts beside each other are listed in order if each of them is. -/
theorem pairwise_listAll {parent : Option String}
    (hlist : ∀ d ∈ ds, ∀ seen, (list parent seen d).1.Pairwise Chunk.StandsBefore ∧
      ∀ e ∈ (list parent seen d).1, e.BeginsIn d.chunk)
    (hapart : ds.Pairwise fun a b => a.chunk.endLine < b.chunk.startLine) (seen : List String) :
    (listAll parent seen ds).1.Pairwise Chunk.StandsBefore ∧
      ∀ e ∈ (listAll parent seen ds).1, ∃ d ∈ ds, e.BeginsIn d.chunk := by
  induction ds generalizing seen with
  | nil => exact ⟨.nil, fun e he => by cases he⟩
  | cons d ds ih =>
    obtain ⟨hbeside, hapart⟩ := List.pairwise_cons.mp hapart
    obtain ⟨hfirst, hin⟩ := hlist d List.mem_cons_self seen
    obtain ⟨hrest, hinRest⟩ :=
      ih (fun b hb => hlist b (List.mem_cons_of_mem d hb)) hapart (list parent seen d).2
    rw [listAll]
    refine ⟨List.pairwise_append.mpr ⟨hfirst, hrest, fun c hc e he => .inl ?_⟩, fun e he => ?_⟩
    · obtain ⟨b, hb, he⟩ := hinRest e he
      have hlast := (hin c hc).le_end
      have hnext := hbeside b hb
      have hbegins := he.start_le
      omega
    · rcases List.mem_append.mp he with he | he
      · exact ⟨d, List.mem_cons_self, hin e he⟩
      · obtain ⟨b, hb, he⟩ := hinRest e he
        exact ⟨b, List.mem_cons_of_mem d hb, he⟩

/-- A nested draft is listed in order: its chunk, and then those that begin in it. -/
theorem Nested.pairwise_list {d : Draft} (h : d.Nested lines) (parent : Option String)
    (seen : List String) : (list parent seen d).1.Pairwise Chunk.StandsBefore ∧
      ∀ e ∈ (list parent seen d).1, e.BeginsIn d.chunk := by
  induction h generalizing parent seen with
  | @mk c ds _ hstart _ hunder hapart _ ih =>
    have hall := pairwise_listAll (fun d hd => ih d hd (some (freshId seen c.id))) hapart
    obtain ⟨hsorted, hin⟩ := hall (c.id :: seen)
    have hbelow : ∀ e ∈ (listAll (some (freshId seen c.id)) (c.id :: seen) ds).1,
        c.startLine ≤ e.startLine ∧ e.startLine ≤ c.endLine ∧ c.depth < e.depth := by
      intro e he
      obtain ⟨d, hd, he⟩ := hin e he
      obtain ⟨hdepth, -, hfirst, hlast⟩ := hunder d hd
      obtain ⟨hbegins, hends, hdeep⟩ := he
      exact ⟨by omega, by omega, by omega⟩
    rw [list]
    refine ⟨List.pairwise_cons.mpr ⟨fun e he => ?_, hsorted⟩, fun e he => ?_⟩
    · have := hbelow e he
      simp only [Chunk.StandsBefore]
      omega
    · rcases List.mem_cons.mp he with rfl | he
      · exact ⟨le_refl _, hstart, le_refl _⟩
      · obtain ⟨hfirst, hlast, hdeep⟩ := hbelow e he
        exact ⟨hfirst, hlast, hdeep.le⟩

end Draft

namespace Node

/-- From a named node a walk meets named nodes only. -/
theorem named_of_mem_walk {stop : Node → Bool} {n m : Node} (hn : n.named = true)
    (hm : m ∈ n.walk stop) : m.named = true := by
  cases h : stop n with
  | true =>
    rw [walk_of_stop h] at hm
    exact List.mem_singleton.mp hm ▸ hn
  | false =>
    rw [walk_of_go h] at hm
    rcases List.mem_cons.mp hm with rfl | hm
    · exact hn
    · obtain ⟨k, hk, hm⟩ := List.mem_flatMap.mp hm
      exact named_of_mem_walk (named_of_mem_named hk) hm
termination_by sizeOf n
decreasing_by exact sizeOf_lt_of_mem_named hk

end Node

namespace Chunk

/-! ## The lines of calls -/

theorem line_le_of_mem_callsIn {rules : Rules} {source : String} {callables : List String}
    {excluded : List Nat} {roots : List Node}
    (hroots : ∀ n ∈ roots, n.WellFormed source ∧ n.named = true) {e : CallEdge}
    (he : e ∈ callsIn rules source callables excluded roots) :
    e.line ≤ (Text.lines source).length := by
  obtain ⟨n, hn, hcall⟩ := mem_callsIn.mp he
  obtain ⟨r, hr, hn⟩ := List.mem_flatMap.mp (List.mem_filter.mp hn).1
  obtain ⟨hwell, hnamed⟩ := hroots r hr
  have hrows := (hwell.of_mem ((Node.walk_sublist _ r).subset hn)).rows
    (Node.named_of_mem_walk hnamed hn)
  rw [call?] at hcall
  split at hcall
  · obtain ⟨-, hedge⟩ := Option.ite_none_right_eq_some.mp hcall
    rw [← Option.some.inj hedge]
    simp only
    omega
  · cases hcall

variable {x : Context}

/-- The calls in the drafts of a definition are on lines of the file. -/
theorem all_lines_definitionDraft (hrules : x.rules.BodyInside) (site : Site)
    (hsite : site.IsFound x.rules x.source) (first last : Nat) (fullPath : String) (kind : ChunkKind)
    (depth : Nat) : (definitionDraft x site first last fullPath kind depth).All
      fun c => ∀ e ∈ c.calls, e.line ≤ (Text.lines x.source).length := by
  rw [definitionDraft_mk, Draft.All, Draft.allIn_iff]
  refine ⟨fun e he => line_le_of_mem_callsIn (fun n hn => ?_) he, fun d hd => ?_⟩
  · rw [List.mem_singleton.mp hn]
    exact ⟨hsite.wellFormed, hsite.named⟩
  · obtain ⟨child, hchild, rfl⟩ := List.mem_map.mp hd
    cases child with
    | definition s inside start stop =>
      obtain ⟨hs, -⟩ := ((planned_plannedFor hrules hsite first last).fits _ hchild).covers s inside
        start stop rfl
      exact all_lines_definitionDraft hrules s hs start stop _ _ _
    | window statements start stop =>
      -- the statements of a window are nodes of the definition
      obtain ⟨b, hb, hroots⟩ := exists_roots_plannedFor hrules hsite.found first last
      rw [childDraft, Draft.All]
      refine ⟨fun e he => line_le_of_mem_callsIn (fun n hn => ?_) he, trivial⟩
      have hmem : n ∈ b.namedChildren :=
        hroots.subset (List.mem_flatMap.mpr ⟨_, hchild, hn⟩)
      have hinside := Node.mem_nodes_trans hb (Node.child_mem_nodes (Node.mem_of_mem_named hmem))
      exact ⟨hsite.wellFormed.of_mem hinside, Node.named_of_mem_named hmem⟩
termination_by sizeOf site.outer

/-! ## Files -/

variable {parse : Parse} {file : SourceFile} {limits : ChunkLimits}

theorem line_le_of_mem_ofTree {rules : Rules} {root : Node} (hrules : rules.BodyInside)
    (hroot : root.WellFormed file.content) {c : Chunk} (hc : c ∈ ofTree rules file limits root) :
    ∀ e ∈ c.calls, e.line ≤ (Text.lines file.content).length := by
  refine Draft.of_mem_listAll
    (P := fun c => ∀ e ∈ c.calls, e.line ≤ (Text.lines file.content).length)
    (fun _ _ _ h => h) _ ((Draft.allIn_iff _ _).mpr fun d hd => ?_) _ _ c hc
  obtain ⟨s, hs, rfl⟩ := List.mem_map.mp hd
  have hcovers := (tiles_layout limits hroot).2 s hs
  rw [segmentDraft]
  split
  · rename_i site hsite
    exact all_lines_definitionDraft (x := contextOf rules file limits root) hrules site
      (hcovers site hsite).1 _ _ _ _ _
  · exact ⟨fun e he => (by cases he), trivial⟩

/-- A window is a plain chunk, with the digest of its file. -/
theorem eq_make_of_mem_windows {c : Chunk} (hc : c ∈ windows file limits) :
    ∃ content first last, c = { make file.path file.language.id .window content first last with
      fileHash := file.contentHash } := by
  obtain ⟨⟨start, ls⟩, -, hwindow⟩ := List.mem_filterMap.mp hc
  simp only [ofWindow?, Option.ite_none_left_eq_some] at hwindow
  exact ⟨_, _, _, (Option.some.inj hwindow.2).symm⟩

/-- The calls in the chunks of a file are on lines of the file. -/
theorem line_le_of_mem_calls
    (hparse : ∀ root, parse file.language file.content = some root → root.WellFormed file.content)
    {c : Chunk} (hc : c ∈ (ofFile parse file limits).chunks) {e : CallEdge} (he : e ∈ c.calls) :
    e.line ≤ (Text.lines file.content).length := by
  have hwindows : c ∈ windows file limits → e.line ≤ (Text.lines file.content).length := by
    intro hc
    obtain ⟨content, first, last, rfl⟩ := eq_make_of_mem_windows hc
    cases he
  rw [ofFile] at hc
  split at hc
  · cases hc
  · split at hc
    · exact hwindows hc
    · rename_i rules hrules
      split at hc
      · exact hwindows hc
      · rename_i root hroot
        exact line_le_of_mem_ofTree (Rules.bodyInside_ofLanguage hrules) (hparse root hroot) hc e he

/-- The chunks of a file are listed in the order in which they stand in it. -/
theorem pairwise_standsBefore_ofFile
    (hparse : ∀ root, parse file.language file.content = some root → root.WellFormed file.content) :
    (ofFile parse file limits).chunks.Pairwise StandsBefore := by
  have hwindows : (windows file limits).Pairwise StandsBefore :=
    (pairwise_windows file limits).imp fun hlt => .inl hlt
  rw [ofFile]
  split
  · exact .nil
  · rename_i hblank
    split
    · exact hwindows
    · rename_i rules hrules
      split
      · exact hwindows
      · rename_i root hroot
        obtain ⟨hnested, htiles⟩ := nested_drafts limits
          (Text.lines_ne_nil (by simpa using hblank)) (Rules.bodyInside_ofLanguage hrules)
          (hparse root hroot)
        exact (Draft.pairwise_listAll (fun d hd seen => (hnested d hd).1.pairwise_list none seen)
          (List.pairwise_map.mp htiles.pairwise) []).1

/-! ## Ids -/

/-- Windows with the same text of their ids begin on the same line, whatever is in their path. -/
theorem startLine_eq_of_hashed_eq {c e : Chunk} (hc : c ∈ windows file limits)
    (he : e ∈ windows file limits) (h : c.hashed = e.hashed) : c.startLine = e.startLine := by
  have hkind : ∀ k ∈ windows file limits, k.path = file.path ∧ k.kind = .window := by
    intro k hk
    obtain ⟨content, first, last, rfl⟩ := eq_make_of_mem_windows hk
    exact ⟨rfl, rfl⟩
  rw [hashed, hashed, (hkind c hc).1, (hkind e he).1, (hkind c hc).2, (hkind e he).2,
    (of_mem_windows_plain hc).2.2.1, (of_mem_windows_plain he).2.2.1] at h
  have htexts := congrArg String.toList h
  rw [toList_idText, toList_idText, List.append_cancel_left_eq, List.cons.injEq,
    List.append_cancel_left_eq, List.cons.injEq] at htexts
  -- the digest is what stands after the last zero byte
  have hreversed := congrArg List.reverse htexts.2.2
  simp only [List.reverse_append, List.reverse_cons, List.append_assoc, List.singleton_append]
    at hreversed
  obtain ⟨-, hfull⟩ := eq_of_append_cons_eq (by simpa using Digest.zero_not_mem _)
    (by simpa using Digest.zero_not_mem _) hreversed
  exact startLine_eq_of_windows hc he (String.toList_inj.mp (List.reverse_inj.mp hfull))

/-- The chunks of a file have different ids, if digests tell its windows of lines apart where it is
cut into such. -/
theorem nodup_ids_of_digests
    (hdigests : (ofFile parse file limits).chunks = windows file limits →
      TellApart (windows file limits)) : ((ofFile parse file limits).chunks.map Chunk.id).Nodup := by
  rcases chunks_ofFile_cases parse file limits with h | h | ⟨rules, root, h⟩
  · rw [h]
    exact List.nodup_nil
  · rw [h]
    refine nodup_ids_windows fun c hc e he hid => ?_
    rw [(of_mem_windows_plain hc).1, (of_mem_windows_plain he).1] at hid
    exact startLine_eq_of_hashed_eq hc he (hdigests h c hc e he hid)
  · rw [h]
    exact nodup_ids_ofTree rules file limits root

end Chunk

end SourceIndex
