import Mathlib
import SourceIndex.Chunk.Summary
import SourceIndex.Proofs.Text.Blank
import SourceIndex.Proofs.Text.Trim

/-! # The summary of a marked text

A documentation text is marked in one of several styles (`DocStyle`). Where a line has a mark of its
own, the summary is the line without blanks around it. Where it has none, as between triple quotes,
letters at its beginning are taken for those that may stand before the quotes of a string and get
lost (`Chunk.summary_text`, `Chunk.summary_quotedReturn`).
-/

set_option autoImplicit false

namespace SourceIndex

namespace Chunk

/-! ## Marks -/

/-- The letters that may stand before the opening quotes of a string. -/
def isStringLetter (c : Char) : Bool := c == 'r' || c == 'u' || c == 'b' || c == 'f'

/-- The characters that the marks of comments and strings are made of. -/
def isMark (c : Char) : Bool := c == '"' || c == '\'' || c == '/' || c == '*'

/-- Characters without the marks at their beginning. -/
def dropMarks (cs : List Char) : List Char :=
  ["\"\"\"", "\'\'\'", "/**", "///", "//", "/*", "*"].foldl
    (fun cs lead => Text.dropLeads lead.toList cs) cs

/-- Characters without the marks at their end. -/
def dropMarksAtEnd (cs : List Char) : List Char :=
  ["*/", "\"\"\"", "\'\'\'"].foldl
    (fun cs tail => (Text.dropLeads tail.toList.reverse cs.reverse).reverse) cs

/-- What is left of the characters of a line whose blanks and letters at the beginning are gone. -/
def unmarked (cs : List Char) : List Char :=
  Text.trimChars Text.isBlank
    (Text.trimChars (fun c => c == '"' || c == '\'') (dropMarksAtEnd (dropMarks cs)))

theorem toList_stripMarks (line : String) :
    (stripMarks line).toList =
      unmarked ((Text.trimChars Text.isBlank line.toList).dropWhile isStringLetter) := by
  simp only [stripMarks, Text.trim, Text.trimLeftWhere, Text.trimLeads, Text.trimTails,
    String.toList_ofList]
  rfl

/-- There is no mark among the characters. -/
def Plain (cs : List Char) : Prop := ∀ c ∈ cs, isMark c = false

namespace Plain

variable {cs ds : List Char}

theorem nil : Plain [] := fun c hc => by cases hc

theorem sublist (h : Plain cs) (hsub : ds.Sublist cs) : Plain ds :=
  fun c hc => h c (hsub.subset hc)

theorem not_mem (h : Plain cs) {a : Char} (ha : isMark a = true) : a ∉ cs := fun hmem => by
  rw [h a hmem] at ha
  cases ha

theorem dropLeads (h : Plain cs) {a : Char} (ha : isMark a = true) (lead : List Char) :
    Text.dropLeads (a :: lead) cs = cs :=
  Text.dropLeads_of_none (Text.dropLead?_cons_eq_none (h.not_mem ha) lead)

theorem reverse (h : Plain cs) : Plain cs.reverse := fun c hc => h c (List.mem_reverse.mp hc)

/-- Characters without marks lose none. -/
theorem dropMarks (h : Plain cs) : dropMarks cs = cs := by
  have hdrop : ∀ a lead, isMark a = true → Text.dropLeads (a :: lead) cs = cs :=
    fun a lead ha => h.dropLeads ha lead
  simp only [Chunk.dropMarks, List.foldl_cons, List.foldl_nil, String.reduceToList,
    hdrop '"' _ rfl, hdrop '\'' _ rfl, hdrop '/' _ rfl, hdrop '*' _ rfl]

theorem dropMarksAtEnd (h : Plain cs) : dropMarksAtEnd cs = cs := by
  have hdrop : ∀ a lead, isMark a = true → Text.dropLeads (a :: lead) cs.reverse = cs.reverse :=
    fun a lead ha => h.reverse.dropLeads ha lead
  simp only [Chunk.dropMarksAtEnd, List.foldl_cons, List.foldl_nil, String.reduceToList,
    List.reverse_cons, List.reverse_nil, List.nil_append, List.cons_append, hdrop '"' _ rfl,
    hdrop '\'' _ rfl, hdrop '/' _ rfl, List.reverse_reverse]

/-- Only blanks are taken off. -/
theorem unmarked (h : Plain cs) : unmarked cs = Text.trimChars Text.isBlank cs := by
  have hquote : ∀ c ∈ cs, (c == '"' || c == '\'') = false := by
    intro c hc
    have hmark := h c hc
    simp only [isMark, Bool.or_eq_false_iff] at hmark
    simp [hmark.1.1]
  rw [Chunk.unmarked, h.dropMarks, h.dropMarksAtEnd, Text.trimChars_eq_self hquote]

end Plain

/-- The marks that a line may begin with. -/
def markChars : List (List Char) :=
  [['*'], ['/', '/'], ['/', '/', '/'], ['"', '"', '"'], ['\'', '\'', '\'']]

/-- Marks have no blanks, and their first character is none of the letters. -/
theorem markChars_spec : ∀ mark ∈ markChars, mark ≠ [] ∧ (∀ c ∈ mark, Text.isBlank c = false) ∧
    ∀ cs, (mark ++ cs).dropWhile isStringLetter = mark ++ cs := by
  simp [markChars, Text.isBlank, isStringLetter]

/-- A mark before a line is dropped, and nothing of the line. -/
theorem dropMarks_append {mark : List Char} (hmark : mark ∈ markChars) {cs : List Char} (h : Plain cs) :
    dropMarks (mark ++ cs) = cs := by
  have hrest : ∀ a lead, isMark a = true → Text.dropLeads (a :: lead) cs = cs :=
    fun a lead ha => h.dropLeads ha lead
  have hmine : ∀ a lead, isMark a = true → Text.dropLeads (a :: lead) (a :: (lead ++ cs)) = cs :=
    fun a lead ha => (Text.dropLeads_append (List.cons_ne_nil a lead) cs).trans (hrest a lead ha)
  have hlonger : Text.dropLeads ['/', '/', '/'] ('/' :: '/' :: cs) = '/' :: '/' :: cs :=
    Text.dropLeads_of_none (Text.dropLead?_cons_eq_none (h.not_mem rfl) [])
  -- the leads before the mark's own do not match it, and those after it meet the line
  simp only [markChars, List.mem_cons, List.not_mem_nil, or_false] at hmark
  simp only [dropMarks, List.foldl_cons, List.foldl_nil, String.reduceToList]
  rcases hmark with rfl | rfl | rfl | rfl | rfl
  · simp (disch := decide) only [List.cons_append, List.nil_append, Text.dropLeads_of_ne]
    exact hmine '*' [] rfl
  · have hmine : Text.dropLeads ['/', '/'] ('/' :: '/' :: cs) = cs := hmine '/' ['/'] rfl
    simp (disch := decide) only [List.cons_append, List.nil_append, Text.dropLeads_of_ne,
      Text.dropLeads_of_ne_second, hlonger, hmine, hrest]
  · have hmine : Text.dropLeads ['/', '/', '/'] ('/' :: '/' :: '/' :: cs) = cs :=
      hmine '/' ['/', '/'] rfl
    simp (disch := decide) only [List.cons_append, List.nil_append, Text.dropLeads_of_ne,
      Text.dropLeads_of_ne_second, hmine, hrest]
  · have hmine : Text.dropLeads ['"', '"', '"'] ('"' :: '"' :: '"' :: cs) = cs :=
      hmine '"' ['"', '"'] rfl
    simp (disch := decide) only [List.cons_append, List.nil_append, hmine, hrest]
  · have hmine : Text.dropLeads ['\'', '\'', '\''] ('\'' :: '\'' :: '\'' :: cs) = cs :=
      hmine '\'' ['\'', '\''] rfl
    simp (disch := decide) only [List.cons_append, List.nil_append, Text.dropLeads_of_ne, hmine, hrest]

/-- What is left after a mark is the line without blanks. -/
theorem unmarked_append {mark : List Char} (hmark : mark ∈ markChars) {cs : List Char} (h : Plain cs) :
    unmarked (mark ++ cs) = Text.trimChars Text.isBlank cs := by
  have hcs := h.unmarked
  rw [unmarked, h.dropMarks] at hcs
  rw [unmarked, dropMarks_append hmark h, hcs]

/-! ## Styles -/

/-- How a documentation text is marked. -/
inductive DocStyle where
  /-- Between triple quotes, which have a line of their own at the beginning, perhaps with letters
  before them. -/
  | quoted (letters : List { c : Char // isStringLetter c = true }) (single : Bool)
  /-- A block comment with a star on each line. -/
  | starred
  /-- Line comments of two slashes or three. -/
  | slashed (three : Bool)
  /-- Nothing but the text. -/
  | bare

namespace DocStyle

/-- The line before the first one that has a text. -/
def opening : DocStyle → List String
  | quoted letters single =>
    [String.ofList (letters.map (·.1) ++ List.replicate 3 (if single then '\'' else '"'))]
  | starred => ["/**"]
  | slashed _ | bare => []

/-- The mark at the beginning of every line. -/
def mark : DocStyle → String
  | quoted _ _ | bare => ""
  | starred => "*"
  | slashed three => if three then "///" else "//"

/-- A text in which `line` is the first line that says something; before it come the opening line
and some lines that are empty but for the mark, after it whatever else there is. -/
def text (s : DocStyle) (indent : String) (empty : Nat) (line : String) (rest : List String) :
    String :=
  Text.unlines (s.opening ++ List.replicate empty (indent ++ s.mark) ++
    (indent ++ s.mark ++ line) :: rest)

end DocStyle

/-- What is left of a line if the letters of strings are taken off at its beginning. -/
def pastLetters (line : String) : String :=
  Text.trim (Text.trimLeftWhere isStringLetter (Text.trim line))

/-- Whether a line begins with one of these letters, blanks aside. -/
def beginsWithLetter (line : String) : Bool := (Text.trim line).toList.head?.any isStringLetter

theorem toList_pastLetters (line : String) : (pastLetters line).toList = Text.trimChars Text.isBlank
    ((Text.trimChars Text.isBlank line.toList).dropWhile isStringLetter) := by
  simp only [pastLetters, Text.trim, Text.trimLeftWhere, String.toList_ofList]
  rfl

theorem DocStyle.mark_mem (s : DocStyle) : s.mark = "" ∨ s.mark.toList ∈ markChars := by
  cases s with
  | quoted => exact .inl rfl
  | starred => exact .inr (by decide)
  | slashed three => exact .inr (by cases three <;> decide)
  | bare => exact .inl rfl

/-- What is left of a line in a style. -/
theorem stripMarks_line (s : DocStyle) {indent line : String} (hindent : Text.isBlankText indent = true)
    (hplain : Plain line.toList) :
    stripMarks (indent ++ s.mark ++ line) = if s.mark = "" then pastLetters line else Text.trim line := by
  have hindent : ∀ c ∈ indent.toList, Text.isBlank c = true := List.all_eq_true.mp hindent
  rw [← String.toList_inj, toList_stripMarks, String.toList_append, String.toList_append,
    List.append_assoc, Text.trimChars_blank_append hindent]
  rcases s.mark_mem with hmark | hmark
  · -- without a mark the letters are next
    have hleft := hplain.sublist (Text.trimChars_sublist Text.isBlank _)
    rw [if_pos hmark, hmark, toList_pastLetters, String.toList_empty, List.nil_append]
    exact (hleft.sublist (List.dropWhile_sublist _)).unmarked
  · -- a mark is neither a blank nor a letter
    obtain ⟨hne, hblank, hletter⟩ := markChars_spec _ hmark
    have hnonempty : s.mark ≠ "" := fun hempty => hne (by rw [hempty]; rfl)
    rw [Text.trimChars_append hne hblank, hletter,
      unmarked_append hmark (hplain.sublist (Text.trimRightChars_sublist _ _)),
      Text.trimChars_trimRightChars, if_neg hnonempty, Text.trim, String.toList_ofList]

theorem not_isBlank_of_isStringLetter {c : Char} (h : isStringLetter c = true) : Text.isBlank c = false := by
  simp only [isStringLetter, Bool.or_eq_true, beq_iff_eq] at h
  rcases h with ((rfl | rfl) | rfl) | rfl <;> rfl

/-- Nothing is left of an opening line. -/
theorem stripMarks_opening (s : DocStyle) : ∀ l ∈ s.opening, stripMarks l = "" := by
  intro l hl
  cases s with
  | quoted letters single =>
    obtain rfl := List.mem_singleton.mp hl
    obtain ⟨quotes, hquotes⟩ : ∃ quotes, quotes = List.replicate 3 (if single then '\'' else '"') :=
      ⟨_, rfl⟩
    have hmem : quotes ∈ markChars := by
      rw [hquotes]
      cases single <;> decide
    obtain ⟨-, hquote, hkeep⟩ := markChars_spec quotes hmem
    have hletters : ∀ c ∈ letters.map (·.1), isStringLetter c = true := by
      intro c hc
      obtain ⟨letter, -, rfl⟩ := List.mem_map.mp hc
      exact letter.2
    have hblank : ∀ c ∈ letters.map (·.1) ++ quotes, Text.isBlank c = false := by
      intro c hc
      rcases List.mem_append.mp hc with hc | hc
      · exact not_isBlank_of_isStringLetter (hletters c hc)
      · exact hquote c hc
    have hkept := hkeep []
    have hleft := unmarked_append hmem Plain.nil
    rw [List.append_nil] at hkept hleft
    rw [← String.toList_inj, toList_stripMarks, String.toList_ofList, ← hquotes,
      Text.trimChars_eq_self hblank, List.dropWhile_append_of_pos hletters, hkept, hleft]
    rfl
  | starred =>
    obtain rfl := List.mem_singleton.mp hl
    decide +kernel
  | slashed three => cases hl
  | bare => cases hl

/-! ## Texts -/

theorem stripMarks_congr {a b : String} (h : Text.trim a = Text.trim b) : stripMarks a = stripMarks b := by
  rw [stripMarks, h]
  rfl

/-- The summary of joined lines is what the first of them says, or else the summary of the others. -/
theorem summary?_unlines_cons {line : String} (h : Text.IsLine line) {rest : List String}
    (hne : line ≠ "" ∨ rest ≠ []) :
    summary? (Text.unlines (line :: rest)) =
      if stripMarks line = "" then summary? (Text.unlines rest) else some (stripMarks line) := by
  obtain ⟨first, hlines, htrim⟩ := Text.exists_lines_unlines_cons h hne
  rw [summary?, hlines, List.map_cons, stripMarks_congr htrim]
  by_cases hempty : stripMarks line = ""
  · rw [if_pos hempty, List.find?_cons_of_neg (by simp [hempty])]
    rfl
  · rw [if_neg hempty, List.find?_cons_of_pos (by simp [hempty])]

/-- Lines of which nothing is left do not change the summary. -/
theorem summary?_unlines_append {before rest : List String}
    (h : ∀ l ∈ before, Text.IsLine l ∧ stripMarks l = "") (hne : rest ≠ []) :
    summary? (Text.unlines (before ++ rest)) = summary? (Text.unlines rest) := by
  induction before with
  | nil => rfl
  | cons l before ih =>
    obtain ⟨⟨hline, hnothing⟩, hbefore⟩ := List.forall_mem_cons.mp h
    rw [List.cons_append, summary?_unlines_cons hline (.inr (by simp [hne])), if_pos hnothing, ih hbefore]

theorem DocStyle.isLine_mark (s : DocStyle) : Text.IsLine s.mark := by
  cases s with
  | quoted => exact List.not_mem_nil
  | starred => decide
  | slashed three => cases three <;> decide
  | bare => exact List.not_mem_nil

theorem DocStyle.isLine_opening (s : DocStyle) : ∀ l ∈ s.opening, Text.IsLine l := by
  intro l hl
  cases s with
  | quoted letters single =>
    obtain rfl := List.mem_singleton.mp hl
    rw [Text.IsLine, String.toList_ofList, List.mem_append]
    rintro (hmem | hmem)
    · obtain ⟨letter, -, hnewline⟩ := List.mem_map.mp hmem
      have hletter := letter.2
      rw [hnewline] at hletter
      cases hletter
    · have heq := List.eq_of_mem_replicate hmem
      cases single <;> cases heq
  | starred =>
    obtain rfl := List.mem_singleton.mp hl
    decide
  | slashed three => cases hl
  | bare => cases hl

theorem isLine_append {a b : String} (ha : Text.IsLine a) (hb : Text.IsLine b) : Text.IsLine (a ++ b) := by
  rw [Text.IsLine, String.toList_append, List.mem_append]
  exact not_or.mpr ⟨ha, hb⟩

/-- Without such a letter nothing but blanks is taken off. -/
theorem pastLetters_eq_trim {line : String} (h : beginsWithLetter line = false) :
    pastLetters line = Text.trim line := by
  have hkeep : (Text.trimChars Text.isBlank line.toList).dropWhile isStringLetter =
      Text.trimChars Text.isBlank line.toList := by
    rw [beginsWithLetter, Text.trim, String.toList_ofList] at h
    cases hcs : Text.trimChars Text.isBlank line.toList with
    | nil => rfl
    | cons c cs =>
      rw [hcs] at h
      exact List.dropWhile_cons_of_neg (by simpa using h)
  rw [← String.toList_inj, toList_pastLetters, hkeep, Text.trimChars_trimChars, Text.trim,
    String.toList_ofList]

/-- The summary of a text in a style is its first line without the blanks around it, as long as the
lines have a mark of their own or the line does not begin with one of the letters that may stand
before the quotes of a string. Otherwise these letters are lost, and if nothing else is in the line
it is passed over. -/
theorem summary_text (s : DocStyle) {indent line : String} (hindent : Text.isBlankText indent = true)
    (hindentLine : Text.IsLine indent) (hnotblank : Text.isBlankText line = false)
    (hline : Text.IsLine line) (hplain : Plain line.toList) (empty : Nat) (rest : List String) :
    summary? (s.text indent empty line rest) =
      if s.mark ≠ "" ∨ beginsWithLetter line = false then some (Text.trim line)
      else if pastLetters line = "" then summary? (Text.unlines rest) else some (pastLetters line) := by
  have htrim : Text.trim line ≠ "" := by
    rw [Ne, Text.trim_eq_empty_iff, hnotblank]
    exact Bool.false_ne_true
  have hnothing : ∀ l ∈ s.opening ++ List.replicate empty (indent ++ s.mark),
      Text.IsLine l ∧ stripMarks l = "" := by
    intro l hl
    rcases List.mem_append.mp hl with hl | hl
    · exact ⟨s.isLine_opening l hl, stripMarks_opening s l hl⟩
    · obtain rfl := List.eq_of_mem_replicate hl
      refine ⟨isLine_append hindentLine s.isLine_mark, ?_⟩
      have hmark := stripMarks_line s hindent (show Plain "".toList from Plain.nil)
      rw [String.append_empty] at hmark
      rw [hmark]
      split <;> rfl
  have hfirst : Text.IsLine (indent ++ s.mark ++ line) :=
    isLine_append (isLine_append hindentLine s.isLine_mark) hline
  have hne : indent ++ s.mark ++ line ≠ "" := by
    intro hempty
    have hnil := congrArg String.toList hempty
    rw [String.toList_append] at hnil
    rw [Text.isBlankText, (List.append_eq_nil_iff.mp hnil).2] at hnotblank
    cases hnotblank
  rw [DocStyle.text, summary?_unlines_append hnothing (List.cons_ne_nil _ _),
    summary?_unlines_cons hfirst (.inl hne), stripMarks_line s hindent hplain]
  by_cases hmark : s.mark = ""
  · rw [if_pos hmark]
    by_cases hletter : beginsWithLetter line = false
    · have hkept : s.mark ≠ "" ∨ beginsWithLetter line = false := .inr hletter
      rw [if_pos hkept, pastLetters_eq_trim hletter, if_neg htrim]
    · have hlost : ¬ (s.mark ≠ "" ∨ beginsWithLetter line = false) :=
        not_or.mpr ⟨not_not_intro hmark, hletter⟩
      rw [if_neg hlost]
  · have hkept : s.mark ≠ "" ∨ beginsWithLetter line = false := .inl hmark
    rw [if_neg hmark, if_neg htrim, if_pos hkept]

/-- A line that begins with such a letter, in a block comment. -/
theorem summary_starredReturn : beginsWithLetter " return x" = true ∧
    summary? "/**\n * return x\n */" = some "return x" := by
  have hplain : Plain " return x".toList := by simp [Plain, isMark]
  have hindent : Text.isBlankText " " = true := by decide
  refine ⟨by decide +kernel, ?_⟩
  exact summary_text .starred hindent (by decide) (by decide +kernel) (by decide +kernel) hplain 0 [" */"]

/-- The same line between triple quotes loses its first letter. -/
theorem summary_quotedReturn : summary? "\"\"\"\nreturn x\n\"\"\"" = some "eturn x" ∧
    Text.trim "return x" = "return x" := by
  decide +kernel

end Chunk

end SourceIndex
