import Mathlib
import SourceIndex.Proofs.Path.Normal

/-! # Paths in other spellings

The pieces of a path that say something are told by its parts (`Path.filterMap_partOf_split`,
`Path.filter_pieces`), and so is what a path says below another one (`Path.parts_below?`).

The parts of a path are followed one by one to the place that it denotes (`Path.place?`). A plain path
denotes the place with its names, so that plain paths with different parts denote different places
(`Path.parts_eq_of_place?`).
-/

set_option autoImplicit false

namespace SourceIndex

namespace Path

/-! ## What the pieces say -/

/-- Whether a part leads somewhere else. -/
def moves : Part → Bool
  | .up | .name _ => true
  | .root | .here => false

theorem moves_of_partOf {piece : String} {a : Part} (h : partOf false piece = some a) :
    moves a = true := by
  rw [partOf] at h
  split at h
  · cases h
  · split at h
    · cases h
    · split at h <;> cases h <;> rfl

theorem partOf_isSome_iff (piece : String) :
    (partOf false piece).isSome = true ↔ isIdle piece = false := by
  rw [partOf, isIdle]
  split
  · simp_all
  · split
    · simp_all
    · split <;> simp_all

theorem partOf_eq_none_iff (piece : String) : partOf false piece = none ↔ isIdle piece = true := by
  rw [← Option.not_isSome_iff_eq_none, partOf_isSome_iff]
  simp

theorem partText_of_partOf {piece : String} {a : Part} (h : partOf false piece = some a) :
    partText a = piece := by
  rw [partOf] at h
  split at h
  · cases h
  · split at h
    · cases h
    · split at h
      · rename_i hup
        cases h
        exact hup.symm
      · cases h
        rfl

/-- The first piece of a relative path says the same as any other, unless it is a dot. -/
theorem partOf_true (piece : String) :
    partOf true piece = if piece = "." then some .here else partOf false piece := by
  by_cases hempty : piece = ""
  · subst hempty
    rfl
  · by_cases hdot : piece = "."
    · subst hdot
      rfl
    · simp [partOf, hempty, hdot]

theorem filter_moves_filterMap (pieces : List String) :
    (pieces.filterMap (partOf false)).filter moves = pieces.filterMap (partOf false) := by
  refine List.filter_eq_self.mpr fun a ha => ?_
  obtain ⟨piece, -, hpiece⟩ := List.mem_filterMap.mp ha
  exact moves_of_partOf hpiece

/-- The pieces that say something are spelled as what they say. -/
theorem filter_pieces (pieces : List String) :
    pieces.filter (fun p => !isIdle p) = (pieces.filterMap (partOf false)).map partText := by
  induction pieces with
  | nil => rfl
  | cons p pieces ih =>
      cases hp : partOf false p with
      | none =>
          have hidle := (partOf_eq_none_iff p).mp hp
          rw [List.filterMap_cons_none hp, List.filter_cons_of_neg (by simp [hidle]), ih]
      | some a =>
          have hidle := (partOf_isSome_iff p).mp (by rw [hp]; rfl)
          rw [List.filterMap_cons_some hp, List.filter_cons_of_pos (by simp [hidle]), ih,
            List.map_cons, partText_of_partOf hp]

theorem split_ne_nil (text : String) : Text.split (· == '/') text ≠ [] := by
  simp [Text.split, Text.pieces_ne_nil]

/-- A path is empty, or begins with a slash, or begins with a piece. -/
theorem split_cases (p : Path) :
    (p.text = "" ∧ p.isAbsolute = false) ∨
      (p.isAbsolute = true ∧ ∃ rest, Text.split (· == '/') p.text = "" :: rest) ∨
      (p.isAbsolute = false ∧
        ∃ first rest, Text.split (· == '/') p.text = first :: rest ∧ first ≠ "") := by
  obtain ⟨text⟩ := p
  cases hcs : text.toList with
  | nil =>
      obtain rfl := String.toList_eq_nil_iff.mp hcs
      exact .inl ⟨rfl, rfl⟩
  | cons c cs =>
      by_cases hc : c = '/'
      · subst hc
        have habs : isAbsolute ⟨text⟩ = true := (startsWith_slash_iff text).mpr (by rw [hcs]; rfl)
        refine .inr (.inl ⟨habs, (Text.pieces (· == '/') cs).map String.ofList, ?_⟩)
        rw [Text.split, hcs, Text.pieces_cons_of_cut rfl, List.map_cons]
      · have hnabs : isAbsolute ⟨text⟩ = false := by
          rw [Bool.eq_false_iff]
          intro habs
          have hhead := (startsWith_slash_iff text).mp habs
          rw [hcs] at hhead
          exact hc (Option.some.inj hhead)
        obtain ⟨piece, rest, hpieces⟩ := List.exists_cons_of_ne_nil (Text.pieces_ne_nil (· == '/') cs)
        refine .inr (.inr ⟨hnabs, String.ofList (c :: piece), rest.map String.ofList, ?_, by simp⟩)
        rw [Text.split, hcs, Text.pieces_cons_of_not_cut (by simpa using hc) hpieces, List.map_cons]

theorem parts_of_isAbsolute {p : Path} (h : p.isAbsolute = true) :
    p.parts = .root :: (Text.split (· == '/') p.text).filterMap (partOf false) := by
  rcases p.split_cases with ⟨-, hrel⟩ | ⟨-, rest, hsplit⟩ | ⟨hrel, -⟩
  · rw [h] at hrel
    cases hrel
  · rw [parts, hsplit, h]
    rfl
  · rw [h] at hrel
    cases hrel

/-- The parts of a path that begins with a piece. -/
theorem parts_of_split {p : Path} {first : String} {rest : List String}
    (hsplit : Text.split (· == '/') p.text = first :: rest) (hrel : p.isAbsolute = false) :
    p.parts = (partOf true first).toList ++ rest.filterMap (partOf false) := by
  rw [parts, hsplit, hrel]
  rfl

/-- Only absolute paths begin with the root. -/
theorem isAbsolute_iff (p : Path) : p.isAbsolute = true ↔ p.parts.head? = some .root := by
  constructor
  · intro h
    rw [parts_of_isAbsolute h]
    rfl
  · intro hhead
    by_contra hrel
    rw [Bool.not_eq_true] at hrel
    have hmoves : ∀ rest : List String, (rest.filterMap (partOf false)).head? ≠ some .root := by
      intro rest hroot
      obtain ⟨piece, -, hpiece⟩ := List.mem_filterMap.mp (List.mem_of_head? hroot)
      exact absurd (moves_of_partOf hpiece) (by decide)
    obtain ⟨first, rest, hsplit⟩ := List.exists_cons_of_ne_nil (split_ne_nil p.text)
    rw [parts_of_split hsplit hrel, partOf_true] at hhead
    split at hhead
    · cases hhead
    · refine hmoves (first :: rest) ?_
      rw [← hhead, List.filterMap_cons]
      cases partOf false first <;> rfl

/-- The pieces of a path say its parts, but for a root or a dot in front. -/
theorem filterMap_partOf_split (p : Path) :
    (Text.split (· == '/') p.text).filterMap (partOf false) = p.parts.filter moves := by
  by_cases habs : p.isAbsolute = true
  · rw [parts_of_isAbsolute habs, List.filter_cons_of_neg (by decide), filter_moves_filterMap]
  · rw [Bool.not_eq_true] at habs
    obtain ⟨first, rest, hsplit⟩ := List.exists_cons_of_ne_nil (split_ne_nil p.text)
    rw [parts_of_split hsplit habs, hsplit, List.filter_append, filter_moves_filterMap, partOf_true]
    by_cases hdot : first = "."
    · subst hdot
      rfl
    · rw [if_neg hdot, List.filterMap_cons]
      cases hfirst : partOf false first with
      | none => rfl
      | some a => simp [moves_of_partOf hfirst]

/-- A relative path without parts is empty. -/
theorem text_eq_empty_iff {p : Path} (h : p.isAbsolute = false) : p.text = "" ↔ p.parts = [] := by
  rcases p.split_cases with ⟨htext, -⟩ | ⟨habs, -⟩ | ⟨-, first, rest, hsplit, hne⟩
  · obtain ⟨text⟩ := p
    subst htext
    exact ⟨fun _ => rfl, fun _ => rfl⟩
  · rw [h] at habs
    cases habs
  · have htext : p.text ≠ "" := by
      intro htext
      rw [htext] at hsplit
      exact hne (List.cons.inj hsplit).1.symm
    have hparts : p.parts ≠ [] := by
      rw [parts_of_split hsplit h, partOf_true]
      split
      · simp
      · rename_i hdot
        obtain ⟨a, ha⟩ := Option.isSome_iff_exists.mp
          ((partOf_isSome_iff first).mpr (by simp [isIdle, hne, hdot]))
        simp [ha]
    exact ⟨fun htext' => absurd htext' htext, fun hparts' => absurd hparts' hparts⟩

/-! ## Below another path -/

theorem filterMap_dropPieces (count : Nat) (pieces : List String) :
    (dropPieces count pieces).filterMap (partOf false) =
      (pieces.filterMap (partOf false)).drop count := by
  induction pieces generalizing count with
  | nil => cases count <;> simp [dropPieces]
  | cons p pieces ih =>
      cases count with
      | zero => rfl
      | succ count =>
          rw [dropPieces]
          cases hp : partOf false p with
          | none =>
              rw [if_pos ((partOf_eq_none_iff p).mp hp), List.filterMap_cons_none hp, ih]
          | some a =>
              have hidle := (partOf_isSome_iff p).mp (by rw [hp]; rfl)
              rw [hidle, if_neg Bool.false_ne_true, List.filterMap_cons_some hp, ih,
                List.drop_succ_cons]

theorem filterMap_dropWhile_isIdle (pieces : List String) :
    (pieces.dropWhile isIdle).filterMap (partOf false) = pieces.filterMap (partOf false) := by
  induction pieces with
  | nil => rfl
  | cons p pieces ih =>
      by_cases hidle : isIdle p = true
      · rw [List.dropWhile_cons_of_pos hidle, ih,
          List.filterMap_cons_none ((partOf_eq_none_iff p).mpr hidle)]
      · rw [List.dropWhile_cons_of_neg hidle]

/-- Pieces of which the first says something, put together again. -/
theorem parts_of_pieces {pieces : List String} (hslash : ∀ n ∈ pieces, '/' ∉ n.toList)
    (hhead : ∀ n, pieces.head? = some n → isIdle n = false) :
    isAbsolute ⟨"/".intercalate pieces⟩ = false ∧
      parts ⟨"/".intercalate pieces⟩ = pieces.filterMap (partOf false) := by
  cases pieces with
  | nil => exact ⟨rfl, rfl⟩
  | cons first rest =>
      have hsplit : Text.split (· == '/') (⟨"/".intercalate (first :: rest)⟩ : Path).text =
          first :: rest := Text.split_intercalate rfl (by simp) hslash
      have hfirst : isIdle first = false := hhead first rfl
      have hne : first ≠ "" := by
        rintro rfl
        cases hfirst
      have hdot : first ≠ "." := by
        rintro rfl
        cases hfirst
      have hrel : isAbsolute ⟨"/".intercalate (first :: rest)⟩ = false := by
        rcases split_cases ⟨"/".intercalate (first :: rest)⟩ with
          ⟨-, hrel⟩ | ⟨-, rest', hsplit'⟩ | ⟨hrel, -⟩
        · exact hrel
        · rw [hsplit] at hsplit'
          exact absurd (List.cons.inj hsplit').1 hne
        · exact hrel
      refine ⟨hrel, ?_⟩
      rw [parts_of_split hsplit hrel, partOf_true, if_neg hdot, List.filterMap_cons]
      cases partOf false first <;> rfl

theorem mem_dropPieces {count : Nat} {pieces : List String} {n : String}
    (h : n ∈ dropPieces count pieces) : n ∈ pieces := by
  induction pieces generalizing count with
  | nil => cases count <;> simp [dropPieces] at h
  | cons p pieces ih =>
      cases count with
      | zero => exact h
      | succ count =>
          rw [dropPieces] at h
          split at h <;> exact List.mem_cons_of_mem p (ih h)

theorem not_slash_of_mem_split {text n : String} (h : n ∈ Text.split (· == '/') text) :
    '/' ∉ n.toList := by
  obtain ⟨piece, hpiece, rfl⟩ := List.mem_map.mp h
  intro hmem
  have hcut := Text.cut_eq_false_of_mem_pieces hpiece '/' (by simpa using hmem)
  cases hcut

/-- What a path says below another one: its parts after so many. -/
theorem parts_below? {p lead q : Path} (h : p.below? lead = some q) :
    q.isAbsolute = false ∧ q.parts = (p.parts.filter moves).drop (lead.parts.length - 1) := by
  obtain ⟨-, -, rfl⟩ := Option.map_eq_some_iff.mp h
  -- the pieces that are left, without those in front and at the end that say nothing
  generalize hleft : dropPieces (lead.parts.length - 1) (Text.split (· == '/') p.text) = left
  generalize hkept : (((left.dropWhile isIdle).reverse).dropWhile isIdle).reverse = kept
  have hlead : kept <+: left.dropWhile isIdle := by
    rw [← hkept, ← List.reverse_suffix, List.reverse_reverse]
    exact List.dropWhile_suffix _
  have hslash : ∀ n ∈ kept, '/' ∉ n.toList := by
    intro n hn
    have hmem := (List.dropWhile_suffix isIdle).subset (hlead.subset hn)
    rw [← hleft] at hmem
    exact not_slash_of_mem_split (mem_dropPieces hmem)
  have hhead : ∀ n, kept.head? = some n → isIdle n = false := by
    intro n hn
    obtain ⟨rest, hrest⟩ := hlead
    have hfirst : (left.dropWhile isIdle).head? = some n := by
      rw [← hrest, List.head?_append, hn]
      rfl
    have hnot := List.head?_dropWhile_not isIdle left
    rw [hfirst] at hnot
    simpa using hnot
  obtain ⟨hrel, hparts⟩ := parts_of_pieces hslash hhead
  dsimp only
  rw [hkept]
  refine ⟨hrel, hparts.trans ?_⟩
  rw [← hkept, List.filterMap_reverse, filterMap_dropWhile_isIdle, ← List.filterMap_reverse,
    List.reverse_reverse, filterMap_dropWhile_isIdle, ← hleft, filterMap_dropPieces,
    filterMap_partOf_split]

/-! ## Places -/

/-- Where parts lead to from `here`, one after the other; a root leads away, and so does a step up
from where everything starts. -/
def placeFrom (here : List String) : List Part → Option (List String)
  | [] => some here
  | .root :: _ => none
  | .here :: ps => placeFrom here ps
  | .up :: ps => if here = [] then none else placeFrom here.dropLast ps
  | .name s :: ps => placeFrom (here ++ [s]) ps

/-- The place that a path denotes, told by its parts alone; there is none for a path that leads out. -/
def place? (p : Path) : Option (List String) := placeFrom [] p.parts

theorem isPlain_iff (p : Path) : p.isPlain = true ↔ ∃ names : List String, p.parts = names.map .name := by
  rw [isPlain, List.all_eq_true]
  constructor
  · intro h
    generalize p.parts = parts at h
    induction parts with
    | nil => exact ⟨[], rfl⟩
    | cons a ps ih =>
        obtain ⟨names, rfl⟩ := ih fun b hb => h b (List.mem_cons_of_mem _ hb)
        have ha := h a List.mem_cons_self
        cases a with
        | name s => exact ⟨s :: names, rfl⟩
        | root | here | up => cases ha
  · rintro ⟨names, hnames⟩ a ha
    rw [hnames] at ha
    obtain ⟨s, -, rfl⟩ := List.mem_map.mp ha
    rfl

theorem isPlain_congr {p q : Path} (h : p.parts = q.parts) : p.isPlain = q.isPlain := by
  rw [isPlain, isPlain, h]

theorem IsNormal.isPlain {p : Path} (h : p.IsNormal) : p.isPlain = true := by
  obtain ⟨names, hnames, htext⟩ := h
  obtain ⟨text⟩ := p
  obtain rfl : text = "/".intercalate names := htext
  exact (isPlain_iff _).mpr ⟨names, parts_intercalate hnames⟩

theorem placeFrom_names (here names : List String) :
    placeFrom here (names.map .name) = some (here ++ names) := by
  induction names generalizing here with
  | nil => simp [placeFrom]
  | cons s names ih => rw [List.map_cons, placeFrom, ih, ← List.append_cons]

/-- A plain path denotes a place, told by its names. -/
theorem place?_of_isPlain {p : Path} (h : p.isPlain = true) :
    ∃ names : List String, p.parts = names.map .name ∧ p.place? = some names := by
  obtain ⟨names, hnames⟩ := (isPlain_iff p).mp h
  refine ⟨names, hnames, ?_⟩
  rw [place?, hnames, placeFrom_names, List.nil_append]

/-- Plain paths that denote one place have the same parts. -/
theorem parts_eq_of_place? {p q : Path} (hp : p.isPlain = true) (hq : q.isPlain = true)
    (h : p.place? = q.place?) : p.parts = q.parts := by
  obtain ⟨ns, hns, hplace⟩ := place?_of_isPlain hp
  obtain ⟨ms, hms, hplace'⟩ := place?_of_isPlain hq
  rw [hplace, hplace'] at h
  rw [hns, hms, Option.some.inj h]

end Path

end SourceIndex
