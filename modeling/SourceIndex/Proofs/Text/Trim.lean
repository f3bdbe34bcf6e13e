import Mathlib
import SourceIndex.Proofs.Text.Lines

/-! # Trimmed texts

Trimming takes characters off at either end until there is one that stays. So what stands at an end
and is taken off does not matter (`Text.trimChars_append_blank`, `Text.trimChars_blank_append`), and
of a text that begins with characters that stay only the end is trimmed (`Text.trimChars_append`).

The lines of joined lines are these lines up to a carriage return at their ends, and trimming takes
that off (`Text.exists_lines_unlines_cons`).
-/

set_option autoImplicit false

namespace SourceIndex

namespace Text

/-! ## Trimming -/

theorem trimRightChars_append_blank {p : Char → Bool} {gap : List Char} (h : ∀ c ∈ gap, p c = true)
    (cs : List Char) : trimRightChars p (cs ++ gap) = trimRightChars p cs := by
  have hgap : ∀ c ∈ gap.reverse, p c = true := fun c hc => h c (List.mem_reverse.mp hc)
  rw [trimRightChars, trimRightChars, List.reverse_append, List.dropWhile_append_of_pos hgap]

theorem trimChars_append_blank {p : Char → Bool} {gap : List Char} (h : ∀ c ∈ gap, p c = true)
    (cs : List Char) : trimChars p (cs ++ gap) = trimChars p cs := by
  have hgap : gap.dropWhile p = [] := List.dropWhile_eq_nil_iff.mpr h
  rw [trimChars, trimChars, trimLeftChars, trimLeftChars, List.dropWhile_append]
  split
  · rename_i hempty
    rw [hgap, List.isEmpty_iff.mp hempty]
  · exact trimRightChars_append_blank h _

theorem trimChars_blank_append {p : Char → Bool} {gap : List Char} (h : ∀ c ∈ gap, p c = true)
    (cs : List Char) : trimChars p (gap ++ cs) = trimChars p cs := by
  rw [trimChars, trimChars, trimLeftChars, trimLeftChars, List.dropWhile_append_of_pos h]

/-- What stands first and has no blanks stays, and blanks are trimmed at the end only. -/
theorem trimChars_append {p : Char → Bool} {as : List Char} (hne : as ≠ [])
    (h : ∀ c ∈ as, p c = false) (cs : List Char) :
    trimChars p (as ++ cs) = as ++ trimRightChars p cs := by
  have hkeep : ∀ bs ds : List Char, bs ≠ [] → (∀ c ∈ bs, p c = false) →
      (bs ++ ds).dropWhile p = bs ++ ds := by
    intro bs ds hbs hall
    obtain ⟨b, bs, rfl⟩ := List.exists_cons_of_ne_nil hbs
    exact List.dropWhile_cons_of_neg (by simp [hall b List.mem_cons_self])
  have hreverse := hkeep as.reverse [] (by simpa using hne) fun c hc => h c (List.mem_reverse.mp hc)
  rw [List.append_nil] at hreverse
  rw [trimChars, trimLeftChars, hkeep as cs hne h, trimRightChars, trimRightChars,
    List.reverse_append, List.dropWhile_append]
  split
  · rename_i hempty
    rw [List.isEmpty_iff.mp hempty, hreverse, List.reverse_reverse]
    exact (List.append_nil as).symm
  · rw [List.reverse_append, List.reverse_reverse]

theorem trimChars_trimRightChars (p : Char → Bool) (cs : List Char) :
    trimChars p (trimRightChars p cs) = trimChars p cs := by
  -- the characters are those that are left and the blanks that were trimmed
  obtain ⟨gap, hgap, hcs⟩ : ∃ gap, (∀ c ∈ gap, p c = true) ∧ cs = trimRightChars p cs ++ gap := by
    refine ⟨(cs.reverse.takeWhile p).reverse, fun c hc => ?_, ?_⟩
    · exact List.mem_takeWhile_imp (List.mem_reverse.mp hc)
    · rw [trimRightChars, ← List.reverse_append, List.takeWhile_append_dropWhile, List.reverse_reverse]
  conv_rhs => rw [hcs, trimChars_append_blank hgap]

theorem trimChars_trimChars (p : Char → Bool) (cs : List Char) :
    trimChars p (trimChars p cs) = trimChars p cs := by
  calc trimChars p (trimChars p cs)
      = trimChars p (trimLeftChars p cs) := trimChars_trimRightChars p (trimLeftChars p cs)
    _ = trimChars p cs := by
      rw [trimChars, trimChars, trimLeftChars, trimLeftChars, List.dropWhile_idempotent]

theorem trimRightChars_sublist (p : Char → Bool) (cs : List Char) :
    (trimRightChars p cs).Sublist cs := by
  rw [trimRightChars, ← List.reverse_sublist, List.reverse_reverse]
  exact List.dropWhile_sublist p

theorem trimChars_sublist (p : Char → Bool) (cs : List Char) : (trimChars p cs).Sublist cs :=
  (trimRightChars_sublist p _).trans (List.dropWhile_sublist p)

theorem trimChars_eq_self {p : Char → Bool} {cs : List Char} (h : ∀ c ∈ cs, p c = false) :
    trimChars p cs = cs := by
  by_cases hne : cs = []
  · rw [hne]
    rfl
  · simpa [trimRightChars] using trimChars_append hne h []

/-! ## Leading repetitions -/

theorem dropLeads_of_none {lead cs : List Char} (h : dropLead? lead cs = none) :
    dropLeads lead cs = cs := by
  rw [dropLeads, h]

theorem dropLead?_append (lead cs : List Char) : dropLead? lead (lead ++ cs) = some cs := by
  induction lead with
  | nil => rfl
  | cons a lead ih => simpa [dropLead?] using ih

theorem dropLeads_append {lead : List Char} (hne : lead ≠ []) (cs : List Char) :
    dropLeads lead (lead ++ cs) = dropLeads lead cs := by
  have hpos := List.length_pos_iff.mpr hne
  have hshorter : cs.length < (lead ++ cs).length := by
    rw [List.length_append]
    omega
  rw [dropLeads, dropLead?_append]
  exact if_pos hshorter

theorem dropLead?_cons_eq_none {a : Char} {cs : List Char} (h : a ∉ cs) (lead : List Char) :
    dropLead? (a :: lead) cs = none := by
  cases cs with
  | nil => rfl
  | cons c cs =>
    have hne : a ≠ c := List.ne_of_not_mem_cons h
    rw [dropLead?, if_neg hne]

theorem dropLeads_of_ne {a c : Char} (h : a ≠ c) (lead cs : List Char) :
    dropLeads (a :: lead) (c :: cs) = c :: cs :=
  dropLeads_of_none (if_neg h)

theorem dropLeads_of_ne_second {a b c : Char} (h : b ≠ c) (lead cs : List Char) :
    dropLeads (a :: b :: lead) (a :: c :: cs) = a :: c :: cs :=
  dropLeads_of_none ((if_pos rfl).trans (if_neg h))

/-! ## Lines -/

theorem pieces_eq_singleton {line : List Char} (h : '\n' ∉ line) :
    pieces (· == '\n') line = [line] := by
  rw [pieces_eq_splitOnP]
  exact List.splitOnP_eq_singleton fun c hc => beq_false_of_ne fun heq => h (heq ▸ hc)

/-- A line end ends the first line. -/
theorem lineChars_append_newline {line : List Char} (h : '\n' ∉ line) (cs : List Char) :
    lineChars (line ++ '\n' :: cs) = dropReturn line :: lineChars cs := by
  have hline : pieces (· == '\n') line = [] ++ [line] := pieces_eq_singleton h
  obtain ⟨init, q, hinit⟩ : ∃ init q, pieces (· == '\n') cs = init ++ [q] :=
    ⟨_, _, (List.dropLast_append_getLast (pieces_ne_nil _ _)).symm⟩
  have hnewline : pieces (· == '\n') ('\n' :: cs) = [] :: (init ++ [q]) := by
    rw [pieces_cons_of_cut (by rfl), hinit]
  have hall : pieces (· == '\n') (line ++ '\n' :: cs) = (line :: init) ++ [q] := by
    rw [pieces_append hline hnewline, List.append_nil]
    rfl
  rw [lineChars_eq hall, lineChars_eq hinit]
  rfl

theorem trim_dropReturn (line : List Char) :
    trim (String.ofList (dropReturn line)) = trim (String.ofList line) := by
  rcases dropReturn_cases line with heq | heq
  · rw [heq]
  · have hblank : ∀ c ∈ ['\r'], isBlank c = true := by simp [isBlank]
    rw [trim, trim, String.toList_ofList, String.toList_ofList,
      ← trimChars_append_blank hblank (dropReturn line), heq]

/-- The lines of joined lines begin with the first of them, up to a carriage return at its end. -/
theorem exists_lines_unlines_cons {line : String} (h : IsLine line) {rest : List String}
    (hne : line ≠ "" ∨ rest ≠ []) :
    ∃ first, lines (unlines (line :: rest)) = first :: lines (unlines rest) ∧
      trim first = trim line := by
  cases rest with
  | nil =>
    have hempty : line.toList ≠ [] := by
      rw [← String.toList_empty, Ne, String.toList_inj]
      exact hne.resolve_right (by simp)
    have hpieces : pieces (· == '\n') line.toList = [] ++ [line.toList] := pieces_eq_singleton h
    refine ⟨line, ?_, rfl⟩
    have hone : unlines [line] = line := by simp [unlines]
    rw [hone, lines, lineChars_eq hpieces]
    simp [hempty, unlines, lines, lineChars, pieces]
  | cons next rest =>
    have hjoin : (unlines (line :: next :: rest)).toList =
        line.toList ++ '\n' :: (unlines (next :: rest)).toList := by
      rw [unlines, String.intercalate_cons_cons, String.toList_append, String.toList_append,
        List.append_assoc]
      rfl
    refine ⟨String.ofList (dropReturn line.toList), ?_, ?_⟩
    · rw [lines, hjoin, lineChars_append_newline h]
      rfl
    · rw [trim_dropReturn, String.ofList_toList]

end Text

end SourceIndex
