import Mathlib
import SourceIndex.Text.Basic

/-! # Pieces and lines of a text

Texts joined by a separator that is in none of them are the pieces of what they are joined to
(`Text.split_intercalate`), so joined lines can be taken apart again. The lines of a leading part of
joined lines are leading lines (`Text.lines_leading`): the last of them may be cut short, and one
that ends with a carriage return may have lost it to the line end.
-/

set_option autoImplicit false

namespace SourceIndex

namespace Text

/-! ## Pieces -/

theorem pieces_eq_splitOnP (cut : Char → Bool) (cs : List Char) :
    pieces cut cs = cs.splitOnP cut := by
  induction cs with
  | nil => rfl
  | cons c cs ih =>
    rw [List.splitOnP_cons_eq_if_modifyHead, ← ih]
    cases hcs : pieces cut cs with
    | nil => exact absurd (ih ▸ hcs) (List.splitOnP_ne_nil cut cs)
    | cons piece rest =>
      rw [pieces] at hcs
      rw [pieces, List.foldr_cons, hcs]
      rfl

theorem pieces_ne_nil (cut : Char → Bool) (cs : List Char) : pieces cut cs ≠ [] := by
  rw [pieces_eq_splitOnP]
  exact List.splitOnP_ne_nil cut cs

/-- A character that cuts begins a new piece. -/
theorem pieces_cons_of_cut {cut : Char → Bool} {c : Char} (h : cut c = true) (cs : List Char) :
    pieces cut (c :: cs) = [] :: pieces cut cs := by
  rw [pieces, List.foldr_cons, if_pos h]
  rfl

/-- Another one belongs to the piece that follows. -/
theorem pieces_cons_of_not_cut {cut : Char → Bool} {c : Char} (h : cut c = false) {cs : List Char}
    {piece : List Char} {rest : List (List Char)} (hcs : pieces cut cs = piece :: rest) :
    pieces cut (c :: cs) = (c :: piece) :: rest := by
  rw [pieces] at hcs
  rw [pieces, List.foldr_cons, h, hcs]
  rfl

/-- No piece has a character that cuts. -/
theorem cut_eq_false_of_mem_pieces {cut : Char → Bool} {cs piece : List Char}
    (h : piece ∈ pieces cut cs) : ∀ c ∈ piece, cut c = false := by
  induction cs generalizing piece with
  | nil =>
    obtain rfl := List.mem_singleton.mp h
    simp
  | cons c cs ih =>
    cases hcut : cut c with
    | true =>
      rw [pieces_cons_of_cut hcut] at h
      rcases List.mem_cons.mp h with rfl | h
      · simp
      · exact ih h
    | false =>
      obtain ⟨first, rest, hcs⟩ := List.exists_cons_of_ne_nil (pieces_ne_nil cut cs)
      rw [pieces_cons_of_not_cut hcut hcs] at h
      rcases List.mem_cons.mp h with rfl | h
      · intro d hd
        rcases List.mem_cons.mp hd with rfl | hd
        · exact hcut
        · exact ih (hcs ▸ List.mem_cons_self) d hd
      · exact ih (hcs ▸ List.mem_cons_of_mem first h)

/-- The pieces of a text are those of its two parts, where the last piece of the one and the first
piece of the other are one piece. -/
theorem pieces_append {cut : Char → Bool} {as bs : List Char} {init rest : List (List Char)}
    {q r : List Char} (ha : pieces cut as = init ++ [q]) (hb : pieces cut bs = r :: rest) :
    pieces cut (as ++ bs) = init ++ (q ++ r) :: rest := by
  induction as generalizing init q with
  | nil =>
    have hempty : init ++ [q] = [] ++ [[]] := ha.symm
    obtain ⟨rfl, hq⟩ := List.append_inj' hempty rfl
    obtain rfl := List.singleton_inj.mp hq
    exact hb
  | cons c as ih =>
    obtain ⟨p, ps, hps⟩ := List.exists_cons_of_ne_nil (pieces_ne_nil cut as)
    rw [List.cons_append]
    cases hcut : cut c with
    | true =>
      rw [pieces_cons_of_cut hcut] at ha ⊢
      cases init with
      | nil => simp [hps] at ha
      | cons first init =>
        obtain ⟨rfl, hrest⟩ := List.cons.inj ha
        rw [ih hrest, List.cons_append]
    | false =>
      rw [pieces_cons_of_not_cut hcut hps] at ha
      cases init with
      | nil =>
        -- the last piece of the first part begins with this character
        obtain ⟨rfl, rfl⟩ := List.cons.inj ha
        have hrest := @ih [] p hps
        rw [List.nil_append] at hrest
        exact pieces_cons_of_not_cut hcut hrest
      | cons first init =>
        obtain ⟨rfl, rfl⟩ := List.cons.inj ha
        exact pieces_cons_of_not_cut hcut (@ih (p :: init) q hps)

/-- Texts joined by a separator that none of them has are its pieces again. -/
theorem split_intercalate {sep : Char} {glue : String} (hglue : glue.toList = [sep])
    {names : List String} (hne : names ≠ []) (h : ∀ n ∈ names, sep ∉ n.toList) :
    split (· == sep) (glue.intercalate names) = names := by
  have hsplit : pieces (· == sep) (glue.intercalate names).toList = names.map String.toList := by
    rw [pieces_eq_splitOnP, ← List.splitOn_eq_splitOnP, String.toList_intercalate, hglue]
    apply List.splitOn_intercalate sep
    · intro l hl
      obtain ⟨n, hn, rfl⟩ := List.mem_map.mp hl
      exact h n hn
    · simpa using hne
  rw [split, hsplit, List.map_map]
  exact List.map_id'' (fun n => String.ofList_toList) names

/-! ## Lines -/

/-- A line of its own, without a line end. -/
def IsLine (line : String) : Prop := '\n' ∉ line.toList

instance (line : String) : Decidable (IsLine line) := inferInstanceAs (Decidable (_ ∉ _))

theorem split_unlines {out : List String} (hne : out ≠ []) (h : ∀ l ∈ out, IsLine l) :
    split (· == '\n') (unlines out) = out :=
  split_intercalate rfl hne h

theorem lineChars_eq {cs : List Char} {init : List (List Char)} {q : List Char}
    (h : pieces (· == '\n') cs = init ++ [q]) :
    lineChars cs = init.map dropReturn ++ if q.isEmpty then [] else [q] := by
  rw [lineChars, h]
  simp

theorem isLine_of_mem_lines {text line : String} (h : line ∈ lines text) : IsLine line := by
  obtain ⟨cs, hcs, rfl⟩ := List.mem_map.mp h
  obtain ⟨init, q, hpieces⟩ : ∃ init q, pieces (· == '\n') text.toList = init ++ [q] :=
    ⟨_, _, (List.dropLast_append_getLast (pieces_ne_nil _ _)).symm⟩
  have hnone : ∀ piece ∈ init ++ [q], '\n' ∉ piece := by
    intro piece hpiece hmem
    have := cut_eq_false_of_mem_pieces (hpieces ▸ hpiece) _ hmem
    simp at this
  rw [lineChars_eq hpieces] at hcs
  show '\n' ∉ (String.ofList cs).toList
  rw [String.toList_ofList]
  rcases List.mem_append.mp hcs with hcs | hcs
  · obtain ⟨piece, hpiece, rfl⟩ := List.mem_map.mp hcs
    have hnot := hnone piece (List.mem_append_left _ hpiece)
    unfold dropReturn
    split
    · exact fun hmem => hnot (List.mem_of_mem_dropLast hmem)
    · exact hnot
  · split at hcs
    · cases hcs
    · obtain rfl := List.mem_singleton.mp hcs
      exact hnone cs (by simp)

/-- A line without its carriage return is the line, or the carriage return is all it lacks. -/
theorem dropReturn_cases (cs : List Char) : dropReturn cs = cs ∨ dropReturn cs ++ ['\r'] = cs := by
  unfold dropReturn
  split
  · rename_i hlast
    obtain ⟨older, rfl⟩ := List.getLast?_eq_some_iff.mp hlast
    exact .inr (by simp)
  · exact .inl rfl

/-- The lines of a leading part `as` of a text are leading pieces of the text, up to a carriage
return at the end and up to the place where the text is cut. -/
theorem lineChars_leading {as : List Char} (bs : List Char) {i : Nat} {cs : List Char}
    (h : (lineChars as)[i]? = some cs) :
    ∃ piece, (pieces (· == '\n') (as ++ bs))[i]? = some piece ∧ (cs = piece ∨ cs ++ ['\r'] = piece ∨
      (bs ≠ [] ∧ i + 1 = (lineChars as).length ∧ cs <+: piece)) := by
  obtain ⟨init, q, hinit⟩ : ∃ init q, pieces (· == '\n') as = init ++ [q] :=
    ⟨_, _, (List.dropLast_append_getLast (pieces_ne_nil _ _)).symm⟩
  obtain ⟨r, rest, hrest⟩ := List.exists_cons_of_ne_nil (pieces_ne_nil (· == '\n') bs)
  have hlines := lineChars_eq hinit
  rw [pieces_append hinit hrest]
  rw [hlines] at h ⊢
  rcases Nat.lt_or_ge i init.length with hi | hi
  · -- a line that the leading part has whole
    rw [List.getElem?_append_left (by simpa using hi), List.getElem?_map,
      List.getElem?_eq_getElem hi] at h
    obtain rfl := Option.some.inj h
    refine ⟨init[i], ?_, ?_⟩
    · rw [List.getElem?_append_left hi, List.getElem?_eq_getElem hi]
    · exact (dropReturn_cases init[i]).imp_right .inl
  · -- the line at which the text is cut
    rw [List.getElem?_append_right (by simpa using hi), List.length_map] at h
    have hq : q.isEmpty = false := by
      cases hq : q.isEmpty with
      | true => simp [hq] at h
      | false => rfl
    rw [hq] at h ⊢
    obtain ⟨hindex, rfl⟩ : i = init.length ∧ q = cs := by
      cases hk : i - init.length with
      | zero => exact ⟨by omega, by simpa [hk] using h⟩
      | succ k => simp [hk] at h
    refine ⟨q ++ r, ?_, ?_⟩
    · rw [hindex, List.getElem?_append_right (le_refl _), Nat.sub_self]
      rfl
    · by_cases hbs : bs = []
      · subst hbs
        obtain ⟨rfl, -⟩ := List.cons.inj (show [] :: [] = r :: rest from hrest)
        exact .inl (List.append_nil q).symm
      · exact .inr (.inr ⟨hbs, by simp [hindex], List.prefix_append q r⟩)

/-- The lines of a leading part of joined lines are these lines, up to a carriage return at the end
and up to the place where the text is cut. -/
theorem lines_leading {out : List String} (hout : ∀ l ∈ out, IsLine l) {as bs : List Char}
    (h : (unlines out).toList = as ++ bs) {i : Nat} {t : String}
    (ht : (lines (String.ofList as))[i]? = some t) :
    ∃ line, out[i]? = some line ∧ (t = line ∨ t ++ "\r" = line ∨
      (bs ≠ [] ∧ i + 1 = (lines (String.ofList as)).length ∧ t.toList <+: line.toList)) := by
  rw [lines, String.toList_ofList, List.getElem?_map] at ht
  obtain ⟨cs, hcs, rfl⟩ := Option.map_eq_some_iff.mp ht
  have hne : out ≠ [] := by
    rintro rfl
    have hnil : as = [] := (List.append_eq_nil_iff.mp h.symm).1
    subst hnil
    simp [lineChars, pieces] at hcs
  obtain ⟨piece, hpiece, hcases⟩ := lineChars_leading bs hcs
  have hsplit := split_unlines hne hout
  rw [split, h] at hsplit
  refine ⟨String.ofList piece, ?_, ?_⟩
  · rw [← hsplit, List.getElem?_map, hpiece]
    rfl
  · rw [lines, String.toList_ofList, List.length_map, String.toList_ofList, String.toList_ofList]
    rcases hcases with rfl | rfl | hcut
    · exact .inl rfl
    · exact .inr (.inl (String.toList_inj.mp (by simp)))
    · exact .inr (.inr hcut)

end Text

end SourceIndex
