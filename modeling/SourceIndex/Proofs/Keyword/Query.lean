import Mathlib
import SourceIndex.Keyword.Query
import SourceIndex.Proofs.Text.Trim

/-! # Match texts

A match text consists of the terms of a query in quotes, with ` OR ` between them. It can be taken
apart again in two ways. Cut at every ` OR ` it falls into the quoted terms, since no term has a blank
(`Text.splitAt_intercalate`). Read with quotes as what they are, it is an alternation of phrases and
separators, so that nothing of the query stands outside of quotes (`Keyword.readParts_intercalate`).

The terms are the words of what is left of the query without the characters that no term has
(`Keyword.terms_eq_words`), so these may come and go without any effect.
-/

set_option autoImplicit false

namespace SourceIndex

namespace Text

/-! ## Cutting a text at a part -/

/-- The pieces of `cs` between the occurrences of `part`, which are looked for from the left. -/
def piecesAt (part cs : List Char) : List (List Char) :=
  match cutAt? part cs with
  | none => [cs]
  | some (before, rest) => if rest.length < cs.length then before :: piecesAt part rest else [cs]
termination_by cs.length

/-- The pieces of a text between the occurrences of a part. -/
def splitAt (part text : String) : List String :=
  (piecesAt part.toList text.toList).map String.ofList

variable {s : Char} {part : List Char}

/-- The part is found right after characters among which its first one is not. -/
theorem cutAt?_append {before : List Char} (h : s ∉ before) (rest : List Char) :
    cutAt? (s :: part) (before ++ (s :: part ++ rest)) = some (before, rest) := by
  induction before with
  | nil =>
      rw [List.nil_append, List.cons_append, cutAt?, ← List.cons_append, dropLead?_append]
  | cons c before ih =>
      have hc : s ≠ c := fun hsc => h (hsc ▸ List.mem_cons_self)
      have hbefore : s ∉ before := fun hmem => h (List.mem_cons_of_mem c hmem)
      rw [List.cons_append, cutAt?, dropLead?, if_neg hc, ih hbefore]
      rfl

theorem cutAt?_eq_none {cs : List Char} (h : s ∉ cs) : cutAt? (s :: part) cs = none := by
  induction cs with
  | nil => rfl
  | cons c cs ih =>
      rw [cutAt?, dropLead?_cons_eq_none h, ih fun hmem => h (List.mem_cons_of_mem c hmem)]
      rfl

/-- What is joined by a part whose first character it does not have comes apart at that part. -/
theorem piecesAt_intercalate {words : List (List Char)} (hne : words ≠ [])
    (h : ∀ w ∈ words, s ∉ w) :
    piecesAt (s :: part) ((s :: part).intercalate words) = words := by
  induction words with
  | nil => exact absurd rfl hne
  | cons w words ih =>
      have hw : s ∉ w := h w List.mem_cons_self
      cases words with
      | nil => rw [List.intercalate_singleton, piecesAt, cutAt?_eq_none hw]
      | cons v words =>
          have hrest := ih (List.cons_ne_nil v words) fun u hu => h u (List.mem_cons_of_mem w hu)
          rw [List.intercalate_cons_cons, List.append_assoc, piecesAt, cutAt?_append hw]
          dsimp only
          rw [if_pos, hrest]
          simp only [List.length_append, List.length_cons]
          omega

theorem splitAt_intercalate {glue : String} (hglue : glue.toList = s :: part) {words : List String}
    (hne : words ≠ []) (h : ∀ w ∈ words, s ∉ w.toList) :
    splitAt glue (glue.intercalate words) = words := by
  have hwords : ∀ w ∈ words.map String.toList, s ∉ w := by
    intro w hw
    obtain ⟨word, hword, rfl⟩ := List.mem_map.mp hw
    exact h word hword
  rw [splitAt, String.toList_intercalate, hglue, piecesAt_intercalate (by simpa using hne) hwords,
    List.map_map]
  exact List.map_id'' (fun w => String.ofList_toList) words

/-! ## Pieces of what is left of a text -/

/-- Characters that do not cut may be left out before or after a text is cut. -/
theorem pieces_filter {cut keep : Char → Bool} (h : ∀ c, cut c = true → keep c = true)
    (cs : List Char) : pieces cut (cs.filter keep) = (pieces cut cs).map (List.filter keep) := by
  induction cs with
  | nil => rfl
  | cons c cs ih =>
      cases hcut : cut c with
      | true =>
          rw [List.filter_cons_of_pos (h c hcut), pieces_cons_of_cut hcut, pieces_cons_of_cut hcut, ih]
          rfl
      | false =>
          obtain ⟨piece, rest, hpieces⟩ := List.exists_cons_of_ne_nil (pieces_ne_nil cut cs)
          rw [hpieces, List.map_cons] at ih
          rw [pieces_cons_of_not_cut hcut hpieces, List.map_cons]
          by_cases hkeep : keep c = true
          · rw [List.filter_cons_of_pos hkeep, List.filter_cons_of_pos hkeep,
              pieces_cons_of_not_cut hcut ih]
          · rw [List.filter_cons_of_neg hkeep, List.filter_cons_of_neg hkeep, ih]

/-- The pieces together are the characters that do not cut. -/
theorem flatten_pieces (cut : Char → Bool) (cs : List Char) :
    (pieces cut cs).flatten = cs.filter fun c => !cut c := by
  induction cs with
  | nil => rfl
  | cons c cs ih =>
      cases hcut : cut c with
      | true =>
          rw [pieces_cons_of_cut hcut, List.flatten_cons, List.nil_append, ih,
            List.filter_cons_of_neg (by simp [hcut])]
      | false =>
          obtain ⟨piece, rest, hpieces⟩ := List.exists_cons_of_ne_nil (pieces_ne_nil cut cs)
          rw [hpieces, List.flatten_cons] at ih
          rw [pieces_cons_of_not_cut hcut hpieces, List.filter_cons_of_pos (by simp [hcut]),
            List.flatten_cons, List.cons_append, ih]

end Text

namespace Keyword

/-! ## Characters of terms -/

/-- The numbers of the blanks. -/
def blankNumbers : List Nat :=
  [0x09, 0x0a, 0x0b, 0x0c, 0x0d, 0x20, 0x85, 0xa0, 0x1680, 0x2000, 0x2001, 0x2002, 0x2003, 0x2004,
    0x2005, 0x2006, 0x2007, 0x2008, 0x2009, 0x200a, 0x2028, 0x2029, 0x202f, 0x205f, 0x3000]

theorem not_isTermChar_of_mem_blankNumbers :
    ∀ n ∈ blankNumbers, isTermChar (Char.ofNat n) = false := by
  decide +kernel

/-- No blank is part of a term. -/
theorem not_isTermChar_of_isBlank {c : Char} (h : Text.isBlank c = true) : isTermChar c = false := by
  have hmem : c.toNat ∈ blankNumbers := by
    simp only [Text.isBlank, Bool.or_eq_true, Bool.and_eq_true, decide_eq_true_eq, beq_iff_eq] at h
    simp only [blankNumbers, List.mem_cons, List.not_mem_nil, or_false]
    omega
  have hterm := not_isTermChar_of_mem_blankNumbers c.toNat hmem
  rwa [Char.ofNat_toNat] at hterm

/-- Whether a character of a query counts: as part of a term, or as a blank between words. -/
def counts (c : Char) : Bool := isTermChar c || Text.isBlank c

/-! ## Terms -/

/-- The terms as lists of characters; words that have no character of a term may be left out before or
after the other characters are. -/
theorem toList_terms (query : String) :
    (terms query).map String.toList =
      ((Text.pieces Text.isBlank query.toList).map (List.filter isTermChar)).filter (!·.isEmpty) := by
  have hpieces : ∀ ps : List (List Char),
      ((((ps.filter (!·.isEmpty)).map String.ofList).map fun word =>
        String.ofList (word.toList.filter isTermChar)).filter (!·.isEmpty)).map String.toList =
          (ps.map (List.filter isTermChar)).filter (!·.isEmpty) := by
    intro ps
    induction ps with
    | nil => rfl
    | cons p ps ih =>
        by_cases hp : p = []
        · simpa [hp] using ih
        · by_cases hfilter : p.filter isTermChar = []
          · simp_all
          · simp_all
  exact hpieces _

/-- A term has a character, and only characters of terms. -/
theorem isTermChar_of_mem_terms {query term : String} (h : term ∈ terms query) :
    term ≠ "" ∧ ∀ c ∈ term.toList, isTermChar c = true := by
  have hmem : term.toList ∈ (terms query).map String.toList := List.mem_map_of_mem h
  rw [toList_terms] at hmem
  obtain ⟨hmem, hne⟩ := List.mem_filter.mp hmem
  obtain ⟨piece, -, hpiece⟩ := List.mem_map.mp hmem
  constructor
  · rintro rfl
    simp at hne
  · intro c hc
    rw [← hpiece] at hc
    exact (List.mem_filter.mp hc).2

/-- The terms are the words of the query without the characters that do not count. -/
theorem terms_eq_words (query : String) :
    terms query = Text.words (String.ofList (query.toList.filter counts)) := by
  have hpiece : ∀ p ∈ Text.pieces Text.isBlank query.toList,
      p.filter counts = p.filter isTermChar := by
    intro p hp
    refine List.filter_congr fun c hc => ?_
    rw [counts, Text.cut_eq_false_of_mem_pieces hp c hc, Bool.or_false]
  have hcounts : ∀ c, Text.isBlank c = true → counts c = true := by
    intro c hc
    rw [counts, hc, Bool.or_true]
  have hinj : Function.Injective String.toList := fun a b hab => String.toList_inj.mp hab
  apply List.map_injective_iff.mpr hinj
  rw [toList_terms, Text.words, String.toList_ofList, Text.pieces_filter hcounts,
    List.map_congr_left hpiece, List.map_map]
  exact (List.map_id'' (fun p => String.toList_ofList) _).symm

/-- The terms together are the characters of terms in the query. -/
theorem flatMap_terms (query : String) :
    (terms query).flatMap String.toList = query.toList.filter isTermChar := by
  have hblank : ∀ c, isTermChar c = true → Text.isBlank c = false := by
    intro c hc
    by_contra hblank
    rw [not_isTermChar_of_isBlank (by simpa using hblank)] at hc
    cases hc
  calc (terms query).flatMap String.toList
    _ = ((terms query).map String.toList).flatten := List.flatMap_def
    _ = (((Text.pieces Text.isBlank query.toList).map (List.filter isTermChar)).filter
          (!·.isEmpty)).flatten := by rw [toList_terms]
    _ = ((Text.pieces Text.isBlank query.toList).map (List.filter isTermChar)).flatten :=
        List.flatten_filter_not_isEmpty
    _ = (Text.pieces Text.isBlank query.toList).flatten.filter isTermChar :=
        List.filter_flatten.symm
    _ = (query.toList.filter fun c => !Text.isBlank c).filter isTermChar := by
        rw [Text.flatten_pieces]
    _ = query.toList.filter isTermChar := by
        rw [List.filter_filter]
        refine List.filter_congr fun c _ => ?_
        cases hc : isTermChar c with
        | true => simp [hblank c hc]
        | false => rfl

/-! ## Quotes -/

/-- A term in quotes. -/
def quote (term : String) : String := "\"" ++ term ++ "\""

/-- A text without quotes. -/
def unquote (text : String) : String := String.ofList (text.toList.filter (· != '"'))

theorem matchText_eq (query : String) :
    matchText query = " OR ".intercalate ((terms query).map quote) := rfl

theorem toList_quote (term : String) : (quote term).toList = '"' :: (term.toList ++ ['"']) := by
  simp [quote]

variable {term : String}

/-- No quote and no space is part of a term. -/
theorem not_mem_of_isTermChar (h : ∀ c ∈ term.toList, isTermChar c = true) :
    '"' ∉ term.toList ∧ ' ' ∉ term.toList := by
  constructor
  · intro hmem
    exact absurd (h _ hmem) (by decide)
  · intro hmem
    exact absurd (h _ hmem) (by decide)

theorem unquote_quote (h : '"' ∉ term.toList) : unquote (quote term) = term := by
  have hterm : term.toList.filter (· != '"') = term.toList := by
    refine List.filter_eq_self.mpr fun c hc => ?_
    have hne : c ≠ '"' := fun hquote => h (hquote ▸ hc)
    simpa using hne
  rw [unquote, toList_quote, List.filter_cons_of_neg (by decide), List.filter_append, hterm,
    List.filter_cons_of_neg (by decide), List.filter_nil, List.append_nil, String.ofList_toList]

/-! ## Reading a match text -/

/-- A part of a match text. -/
inductive MatchPart where
  /-- A text that stands in quotes. -/
  | phrase (text : String)
  /-- A text that stands outside of quotes, where it acts as syntax. -/
  | bare (text : String)
  deriving DecidableEq, Repr

/-- What stands outside of quotes as a part, unless there is nothing; the characters are reversed. -/
def MatchPart.bareOf (sofar : List Char) : List MatchPart :=
  if sofar = [] then [] else [.bare (String.ofList sofar.reverse)]

/-- The parts of a match text from a place on, inside of quotes or not, with the reversed characters of
the part that has begun. Inside of quotes two quotes stand for one; a quote that is never closed is
refused. -/
def readFrom : (inside : Bool) → (sofar : List Char) → List Char → Option (List MatchPart)
  | false, sofar, [] => some (MatchPart.bareOf sofar)
  | false, sofar, c :: cs =>
    if c = '"' then (readFrom true [] cs).map (MatchPart.bareOf sofar ++ ·)
    else readFrom false (c :: sofar) cs
  | true, _, [] => none
  | true, sofar, [c] => if c = '"' then some [.phrase (String.ofList sofar.reverse)] else none
  | true, sofar, c :: d :: cs =>
    if c = '"' then
      if d = '"' then readFrom true ('"' :: sofar) cs
      else (readFrom false [] (d :: cs)).map (.phrase (String.ofList sofar.reverse) :: ·)
    else readFrom true (c :: sofar) (d :: cs)

/-- The parts of a match text, if all its quotes are closed. -/
def readParts (text : String) : Option (List MatchPart) := readFrom false [] text.toList

/-- Characters outside of quotes are gathered. -/
theorem readFrom_bare {cs : List Char} (h : '"' ∉ cs) (sofar rest : List Char) :
    readFrom false sofar (cs ++ rest) = readFrom false (cs.reverse ++ sofar) rest := by
  induction cs generalizing sofar with
  | nil => rfl
  | cons c cs ih =>
      have hc : c ≠ '"' := fun hquote => h (hquote ▸ List.mem_cons_self)
      have hcs : '"' ∉ cs := fun hmem => h (List.mem_cons_of_mem c hmem)
      rw [List.cons_append, readFrom, if_neg hc, ih hcs, List.reverse_cons, List.append_assoc]
      rfl

/-- What has been gathered is a part of its own where a quote follows. -/
theorem readFrom_quote (sofar rest : List Char) :
    readFrom false sofar ('"' :: rest) =
      (readFrom false [] ('"' :: rest)).map (MatchPart.bareOf sofar ++ ·) := by
  rw [readFrom, if_pos rfl, readFrom, if_pos rfl, Option.map_map]
  rfl

/-- A phrase ends at a quote that no other one follows. -/
theorem readFrom_phrase {cs : List Char} (h : '"' ∉ cs) (sofar : List Char) {rest : List Char}
    (hrest : rest.head? ≠ some '"') :
    readFrom true sofar (cs ++ '"' :: rest) =
      (readFrom false [] rest).map (.phrase (String.ofList (sofar.reverse ++ cs)) :: ·) := by
  induction cs generalizing sofar with
  | nil =>
      rw [List.nil_append, List.append_nil]
      cases rest with
      | nil => rfl
      | cons d rest =>
          have hd : d ≠ '"' := by simpa using hrest
          conv_lhs => rw [readFrom, if_pos rfl, if_neg hd]
  | cons c cs ih =>
      have hc : c ≠ '"' := fun hquote => h (hquote ▸ List.mem_cons_self)
      have hcs : '"' ∉ cs := fun hmem => h (List.mem_cons_of_mem c hmem)
      obtain ⟨d, tail, htail⟩ : ∃ d tail, cs ++ '"' :: rest = d :: tail :=
        List.exists_cons_of_ne_nil (by simp)
      rw [List.cons_append, htail, readFrom, if_neg hc, ← htail, ih hcs, List.reverse_cons,
        List.append_assoc]
      rfl

/-- Quoted terms with a separator between them are read as phrases and separators. -/
theorem readParts_intercalate {ts : List String} (hne : ts ≠ [])
    (h : ∀ t ∈ ts, '"' ∉ t.toList) :
    readParts (" OR ".intercalate (ts.map quote)) =
      some ((ts.map MatchPart.phrase).intersperse (.bare " OR ")) := by
  rw [readParts, String.toList_intercalate, List.map_map]
  induction ts with
  | nil => exact absurd rfl hne
  | cons t ts ih =>
      have ht : '"' ∉ t.toList := h t List.mem_cons_self
      have hquote : (String.toList ∘ quote) t = '"' :: (t.toList ++ ['"']) := toList_quote t
      cases ts with
      | nil =>
          rw [List.map_singleton, List.intercalate_singleton, hquote, readFrom, if_pos rfl,
            readFrom_phrase ht [] (by simp), readFrom]
          simp [MatchPart.bareOf]
      | cons u ts =>
          have hrest := ih (List.cons_ne_nil u ts) fun v hv => h v (List.mem_cons_of_mem t hv)
          -- the rest begins with a quote again
          obtain ⟨tail, htail⟩ : ∃ tail,
              " OR ".toList.intercalate ((u :: ts).map (String.toList ∘ quote)) = '"' :: tail := by
            cases ts <;> simp [toList_quote]
          have hmany : " OR ".toList.intercalate ((t :: u :: ts).map (String.toList ∘ quote)) =
              '"' :: (t.toList ++ '"' :: (" OR ".toList ++ '"' :: tail)) := by
            rw [← htail, List.map_cons, List.map_cons, List.intercalate_cons_cons, hquote]
            simp
          rw [htail] at hrest
          rw [hmany, readFrom, if_pos rfl, readFrom_phrase ht [] (by simp),
            readFrom_bare (by decide), readFrom_quote, hrest]
          simp [MatchPart.bareOf]

/-- The match text of a query tells its terms: cut at the separators and without the quotes it is
their list, and outside of quotes it has nothing but separators. The terms are the words of the query
without the characters that no term has, so these may be put in or left out at will. -/
theorem matchText_reads_back (query : String) :
    (matchText query = "" ↔ terms query = []) ∧ (hasTerms query = true ↔ matchText query ≠ "") ∧
      (matchText query ≠ "" →
        (Text.splitAt " OR " (matchText query)).map unquote = terms query) ∧
      readParts (matchText query) =
        some (((terms query).map MatchPart.phrase).intersperse (.bare " OR ")) ∧
      terms query = Text.words (String.ofList (query.toList.filter counts)) ∧
      (terms query).flatMap String.toList = query.toList.filter isTermChar ∧
      ∀ other : String, other.toList.filter counts = query.toList.filter counts →
        matchText other = matchText query := by
  have hquotes : ∀ t ∈ terms query, '"' ∉ t.toList := fun t ht =>
    (not_mem_of_isTermChar (isTermChar_of_mem_terms ht).2).1
  have hempty : matchText query = "" ↔ terms query = [] := by
    constructor
    · intro h
      cases hterms : terms query with
      | nil => rfl
      | cons t ts =>
          rw [matchText_eq, hterms] at h
          have hlist := congrArg String.toList h
          cases ts <;> simp [String.toList_intercalate, List.intercalate, toList_quote] at hlist
    · intro h
      rw [matchText_eq, h]
      rfl
  refine ⟨hempty, ?_, fun hne => ?_, ?_, terms_eq_words query, flatMap_terms query,
    fun other hother => ?_⟩
  · rw [hasTerms, ne_eq, hempty]
    simp
  · -- no quoted term has a space
    have hspaces : ∀ w ∈ (terms query).map quote, ' ' ∉ w.toList := by
      intro w hw
      obtain ⟨t, ht, rfl⟩ := List.mem_map.mp hw
      have hspace := (not_mem_of_isTermChar (isTermChar_of_mem_terms ht).2).2
      simpa [toList_quote] using hspace
    have hwords : (terms query).map quote ≠ [] := by simpa using hempty.not.mp hne
    have hglue : " OR ".toList = ' ' :: ['O', 'R', ' '] := rfl
    rw [matchText_eq, Text.splitAt_intercalate hglue hwords hspaces, List.map_map]
    exact (List.map_congr_left fun t ht => unquote_quote (hquotes t ht)).trans (List.map_id _)
  · by_cases hterms : terms query = []
    · rw [hempty.mpr hterms, hterms]
      rfl
    · exact readParts_intercalate hterms hquotes
  · rw [matchText_eq, matchText_eq, terms_eq_words, terms_eq_words, hother]

/-- Words that are operators elsewhere are terms like any others. -/
example : matchText "NEAR(\"OR\" b*)" = "\"NEAROR\" OR \"b\"" := by decide +kernel

end Keyword

end SourceIndex
