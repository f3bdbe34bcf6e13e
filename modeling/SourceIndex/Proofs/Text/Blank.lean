import Mathlib
import SourceIndex.Proofs.Text.Lines

/-! # Blank texts

A text is blank exactly if nothing is left of it when it is trimmed (`Text.trim_eq_empty_iff`). A text
that is not blank has a line that is not (`Text.exists_line_of_not_blank`), but no part that is not
is in a blank text (`Text.isBlankText_of_slice?`).
-/

set_option autoImplicit false

namespace SourceIndex

namespace Text

theorem trim_eq_empty_iff (text : String) : trim text = "" ↔ isBlankText text = true := by
  rw [← String.toList_inj, trim, String.toList_ofList, trimChars, trimRightChars,
    trimLeftChars, isBlankText]
  show ((text.toList.dropWhile isBlank).reverse.dropWhile isBlank).reverse = [] ↔ _
  rw [List.reverse_eq_nil_iff, List.dropWhile_eq_nil_iff, List.all_eq_true]
  constructor
  · intro hall c hc
    by_contra hnot
    -- the first character that is no blank would be left
    have hleft : text.toList.dropWhile isBlank ≠ [] := by
      rw [Ne, List.dropWhile_eq_nil_iff]
      exact fun h => hnot (h c hc)
    have hhead := List.head_dropWhile_not isBlank hleft
    rw [hall _ (List.mem_reverse.mpr (List.head_mem hleft))] at hhead
    cases hhead
  · intro hall c hc
    exact hall c ((List.dropWhile_sublist _).subset (List.mem_reverse.mp hc))

/-! ## Parts of texts -/

theorem mem_of_mem_extract {text : String} {start stop : String.Pos.Raw} {c : Char}
    (h : c ∈ (String.Pos.Raw.extract text start stop).toList) : c ∈ text.toList := by
  -- the characters up to `stop`, and then those from `start` on
  have hleading : ∀ (cs : List Char) (i : String.Pos.Raw),
      c ∈ String.Pos.Raw.extract.go₂ cs i stop → c ∈ cs := by
    intro cs
    induction cs with
    | nil => simp [String.Pos.Raw.extract.go₂]
    | cons d cs ih =>
      intro i hc
      rw [String.Pos.Raw.extract.go₂] at hc
      split at hc
      · simp at hc
      · rcases List.mem_cons.mp hc with rfl | hc
        · exact List.mem_cons_self
        · exact List.mem_cons_of_mem d (ih _ hc)
  have hpart : ∀ (cs : List Char) (i : String.Pos.Raw),
      c ∈ String.Pos.Raw.extract.go₁ cs i start stop → c ∈ cs := by
    intro cs
    induction cs with
    | nil => simp [String.Pos.Raw.extract.go₁]
    | cons d cs ih =>
      intro i hc
      rw [String.Pos.Raw.extract.go₁] at hc
      split at hc
      · exact hleading _ _ hc
      · exact List.mem_cons_of_mem d (ih _ hc)
  rw [String.Pos.Raw.extract] at h
  split at h
  · simp at h
  · rw [String.toList_ofList] at h
    exact hpart _ _ h

/-- Parts of a blank text are blank. -/
theorem isBlankText_of_slice? {text part : String} {start stop : Nat}
    (h : slice? text start stop = some part) (hblank : isBlankText text = true) :
    isBlankText part = true := by
  obtain ⟨-, hpart⟩ := Option.ite_none_right_eq_some.mp h
  obtain rfl := Option.some.inj hpart
  rw [isBlankText, List.all_eq_true] at hblank ⊢
  exact fun c hc => hblank c (mem_of_mem_extract hc)

/-! ## Blank lines -/

theorem isBlankText_append (a b : String) :
    isBlankText (a ++ b) = (isBlankText a && isBlankText b) := by
  simp [isBlankText]

/-- Joined lines are blank if each of them is. -/
theorem isBlankText_unlines (ls : List String) : isBlankText (unlines ls) = ls.all isBlankText := by
  induction ls with
  | nil => rfl
  | cons l ls ih =>
    cases ls with
    | nil => simp [unlines]
    | cons m ls =>
      have hjoin : unlines (l :: m :: ls) = l ++ "\n" ++ unlines (m :: ls) :=
        String.intercalate_cons_cons
      have hnewline : isBlankText "\n" = true := by decide
      rw [hjoin, isBlankText_append, isBlankText_append, hnewline, ih, Bool.and_true]
      rfl

theorem exists_piece_of_mem {cut : Char → Bool} {c : Char} (hc : cut c = false) {cs : List Char}
    (h : c ∈ cs) : ∃ piece ∈ pieces cut cs, c ∈ piece := by
  induction cs with
  | nil => simp at h
  | cons d cs ih =>
    obtain ⟨first, rest, hcs⟩ := List.exists_cons_of_ne_nil (pieces_ne_nil cut cs)
    cases hd : cut d with
    | true =>
      rw [pieces_cons_of_cut hd]
      rcases List.mem_cons.mp h with rfl | h
      · simp [hc] at hd
      · obtain ⟨piece, hpiece, hmem⟩ := ih h
        exact ⟨piece, List.mem_cons_of_mem _ hpiece, hmem⟩
    | false =>
      rw [pieces_cons_of_not_cut hd hcs]
      rcases List.mem_cons.mp h with rfl | h
      · exact ⟨c :: first, List.mem_cons_self, List.mem_cons_self⟩
      · obtain ⟨piece, hpiece, hmem⟩ := ih h
        rw [hcs] at hpiece
        rcases List.mem_cons.mp hpiece with rfl | hpiece
        · exact ⟨d :: piece, List.mem_cons_self, List.mem_cons_of_mem d hmem⟩
        · exact ⟨piece, List.mem_cons_of_mem _ hpiece, hmem⟩

/-- A character that belongs to no line end is in a line. -/
theorem exists_lineChars_of_mem {cs : List Char} {c : Char} (h : c ∈ cs) (hnewline : c ≠ '\n')
    (hreturn : c ≠ '\r') : ∃ line ∈ lineChars cs, c ∈ line := by
  obtain ⟨piece, hpiece, hmem⟩ : ∃ piece ∈ pieces (· == '\n') cs, c ∈ piece :=
    exists_piece_of_mem (by simpa using hnewline) h
  obtain ⟨init, q, hinit⟩ : ∃ init q, pieces (· == '\n') cs = init ++ [q] :=
    ⟨_, _, (List.dropLast_append_getLast (pieces_ne_nil _ _)).symm⟩
  rw [lineChars_eq hinit]
  rw [hinit] at hpiece
  rcases List.mem_append.mp hpiece with hpiece | hpiece
  · refine ⟨dropReturn piece, List.mem_append_left _ (List.mem_map_of_mem hpiece), ?_⟩
    rcases dropReturn_cases piece with heq | heq
    · rwa [heq]
    · -- the carriage return that was dropped is another character
      rw [← heq] at hmem
      simpa [hreturn] using hmem
  · obtain rfl := List.mem_singleton.mp hpiece
    have hne : piece.isEmpty = false := by
      cases piece with
      | nil => simp at hmem
      | cons a piece => rfl
    exact ⟨piece, by simp [hne], hmem⟩

/-- A text that is not blank has a line that is not. -/
theorem exists_line_of_not_blank {text : String} (h : isBlankText text = false) :
    ∃ line ∈ lines text, isBlankText line = false := by
  obtain ⟨c, hc, hblank⟩ : ∃ c ∈ text.toList, isBlank c = false := by
    simpa [isBlankText] using h
  have hnewline : c ≠ '\n' := by
    rintro rfl
    simp [show isBlank '\n' = true by decide] at hblank
  have hreturn : c ≠ '\r' := by
    rintro rfl
    simp [show isBlank '\r' = true by decide] at hblank
  obtain ⟨line, hline, hmem⟩ := exists_lineChars_of_mem hc hnewline hreturn
  refine ⟨String.ofList line, List.mem_map_of_mem hline, ?_⟩
  rw [isBlankText, String.toList_ofList, List.all_eq_false]
  exact ⟨c, hmem, by simp [hblank]⟩

end Text

end SourceIndex
