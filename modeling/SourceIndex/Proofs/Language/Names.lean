import Mathlib
import SourceIndex.Language.Basic

/-! # Names of languages

People may name a language in any case, with blanks around the name and a version after it
(`Language.ofName?`). Where files and chunks are chosen by language, a name is put into lower case and
compared with the ids of the languages. The two ways do not contradict each other: a name that is
accepted consists of ASCII characters and blanks (`Language.ascii_of_ofName?`), so nothing but A to Z
changes in lower case, and if it becomes the id of some language then it stands for that one
(`Language.eq_of_lowercase`). But it need not become an id at all.
-/

set_option autoImplicit false

namespace SourceIndex

namespace Text

/-! ## Lower case -/

theorem toNat_toLower (c : Char) :
    c.toLower.toNat = if 65 ≤ c.toNat ∧ c.toNat ≤ 90 then c.toNat + 32 else c.toNat := by
  have hrange : (c.val ≥ 'A'.val ∧ c.val ≤ 'Z'.val) ↔ (65 ≤ c.toNat ∧ c.toNat ≤ 90) := by
    rw [ge_iff_le, UInt32.le_iff_toNat_le, UInt32.le_iff_toNat_le]
    rfl
  unfold Char.toLower
  by_cases h : 65 ≤ c.toNat ∧ c.toNat ≤ 90
  · rw [dif_pos (hrange.mpr h), if_pos h]
    show (c.val + 32).toNat = c.val.toNat + 32
    rw [UInt32.toNat_add]
    apply Nat.mod_eq_of_lt
    have hsmall : c.val.toNat ≤ 90 := h.2
    show c.val.toNat + 32 < 4294967296
    omega
  · rw [dif_neg (hrange.not.mpr h), if_neg h]

theorem toLower_toLower (c : Char) : c.toLower.toLower = c.toLower := by
  apply Char.ext
  apply UInt32.toNat_inj.mp
  show c.toLower.toLower.toNat = c.toLower.toNat
  rw [toNat_toLower c.toLower, toNat_toLower c]
  split_ifs <;> omega

theorem isBlank_toLower (c : Char) : isBlank c.toLower = isBlank c := by
  rw [Bool.eq_iff_iff]
  simp only [isBlank, toNat_toLower, Bool.or_eq_true, Bool.and_eq_true, decide_eq_true_eq, beq_iff_eq]
  split <;> omega

/-- The blanks that are not in the range of ASCII. -/
def wideBlanks : List Nat :=
  [0x85, 0xa0, 0x1680, 0x2000, 0x2001, 0x2002, 0x2003, 0x2004, 0x2005, 0x2006, 0x2007, 0x2008, 0x2009,
   0x200a, 0x2028, 0x2029, 0x202f, 0x205f, 0x3000]

theorem mem_wideBlanks {c : Char} (h : isBlank c = true) (hwide : 128 ≤ c.toNat) :
    c.toNat ∈ wideBlanks := by
  simp only [isBlank, Bool.or_eq_true, Bool.and_eq_true, decide_eq_true_eq, beq_iff_eq] at h
  simp only [wideBlanks, List.mem_cons, List.not_mem_nil, or_false]
  omega

/-- No blank has another lower case. -/
theorem lowercaseChar_of_mem_wideBlanks :
    ∀ n ∈ wideBlanks, lowercaseChar (Char.ofNat n) = [(Char.ofNat n).toLower] ∧ Char.ofNat n ≠ 'Σ' := by
  decide +kernel

/-- ASCII characters and blanks have the lower case that `Char.toLower` gives them. -/
theorem lowercaseChar_eq_toLower {c : Char} (h : c.toNat < 128 ∨ isBlank c = true) :
    lowercaseChar c = [c.toLower] ∧ c ≠ 'Σ' := by
  by_cases hascii : c.toNat < 128
  · constructor
    · simp only [lowercaseChar, if_pos hascii]
    · rintro rfl
      exact absurd hascii (by decide)
  · have hblank := h.resolve_left hascii
    have hmem := mem_wideBlanks hblank (Nat.le_of_not_lt hascii)
    have hwide := lowercaseChar_of_mem_wideBlanks c.toNat hmem
    rwa [Char.ofNat_toNat] at hwide

theorem flatten_lowercaseFrom {cs : List Char} (h : ∀ c ∈ cs, c.toNat < 128 ∨ isBlank c = true)
    (before : List Char) : (lowercaseFrom before cs).flatten = cs.map Char.toLower := by
  induction cs generalizing before with
  | nil => rfl
  | cons c cs ih =>
      obtain ⟨hlower, hsigma⟩ := lowercaseChar_eq_toLower (h c List.mem_cons_self)
      have hrest := ih (fun d hd => h d (List.mem_cons_of_mem c hd)) (c :: before)
      rw [lowercaseFrom, if_neg hsigma, hlower, List.flatten_cons, hrest]
      rfl

/-- In a text of ASCII characters and blanks only A to Z change in lower case. -/
theorem lowercase_eq_asciiLowercase {text : String}
    (h : ∀ c ∈ text.toList, c.toNat < 128 ∨ isBlank c = true) : lowercase text = asciiLowercase text := by
  rw [lowercase, flatten_lowercaseFrom h]
  rfl

/-! ## Trimming -/

theorem trimRightChars_map_toLower {p : Char → Bool} (h : ∀ c : Char, p c.toLower = p c)
    (cs : List Char) : trimRightChars p (cs.map Char.toLower) = (trimRightChars p cs).map Char.toLower := by
  have hp : p ∘ Char.toLower = p := funext h
  unfold trimRightChars
  rw [← List.map_reverse, List.dropWhile_map, hp, List.map_reverse]

/-- Blanks have no case, so it does not matter whether they are trimmed first. -/
theorem trim_asciiLowercase (text : String) : trim (asciiLowercase text) = asciiLowercase (trim text) := by
  have hblank : isBlank ∘ Char.toLower = isBlank := funext isBlank_toLower
  unfold trim asciiLowercase trimChars trimLeftChars
  simp only [String.toList_ofList]
  rw [List.dropWhile_map, hblank, trimRightChars_map_toLower isBlank_toLower]

theorem asciiLowercase_asciiLowercase (text : String) :
    asciiLowercase (asciiLowercase text) = asciiLowercase text := by
  unfold asciiLowercase
  rw [String.toList_ofList, List.map_map]
  exact congrArg String.ofList (List.map_congr_left fun c _ => toLower_toLower c)

theorem mem_dropWhile_or {p : Char → Bool} {cs : List Char} {c : Char} (h : c ∈ cs) :
    c ∈ cs.dropWhile p ∨ p c = true := by
  rw [← List.takeWhile_append_dropWhile (p := p) (l := cs)] at h
  rcases List.mem_append.mp h with h | h
  · exact .inr (List.mem_takeWhile_imp h)
  · exact .inl h

theorem mem_trimRightChars_or {p : Char → Bool} {cs : List Char} {c : Char} (h : c ∈ cs) :
    c ∈ trimRightChars p cs ∨ p c = true := by
  have hreverse : c ∈ cs.reverse := List.mem_reverse.mpr h
  exact (mem_dropWhile_or hreverse).imp_left List.mem_reverse.mpr

/-- What trimming takes away are characters that it is to take away. -/
theorem mem_trimChars_or {p : Char → Bool} {cs : List Char} {c : Char} (h : c ∈ cs) :
    c ∈ trimChars p cs ∨ p c = true := by
  rcases mem_dropWhile_or (p := p) h with h | h
  · exact mem_trimRightChars_or h
  · exact .inr h

end Text

namespace Language

/-! ## Accepted names -/

theorem exists_of_lookUp {table : List (List String × Language)} {word : String} {l : Language}
    (h : lookUp table word = some l) : ∃ row ∈ table, word ∈ row.1 := by
  obtain ⟨row, hrow, -⟩ := Option.map_eq_some_iff.mp h
  have hword := List.find?_some hrow
  exact ⟨row, List.mem_of_find?_eq_some hrow, by simpa using hword⟩

theorem ascii_nameTable : ∀ row ∈ nameTable, ∀ name ∈ row.1, ∀ c ∈ name.toList, c.toNat < 128 := by
  simp [nameTable]

variable {name : String} {l l' : Language}

/-- A name that is accepted has ASCII characters only, apart from the blanks around it. -/
theorem ascii_of_ofName? (h : ofName? name = some l) :
    ∀ c ∈ name.toList, c.toNat < 128 ∨ Text.isBlank c = true := by
  obtain ⟨row, hrow, hword⟩ := exists_of_lookUp h
  have htable := ascii_nameTable row hrow _ hword
  intro c hc
  refine (Text.mem_trimChars_or hc).imp_left fun hc => ?_
  have hlower : c.toLower ∈ (Text.asciiLowercase (Text.trim name)).toList := by
    unfold Text.asciiLowercase Text.trim
    rw [String.toList_ofList, String.toList_ofList]
    exact List.mem_map_of_mem hc
  -- the lower case of the character is in the table, or in the version
  have hascii : c.toLower.toNat < 128 := by
    rcases Text.mem_trimRightChars_or (p := fun c => c.isDigit || c == '.') hlower with hmem | hversion
    · refine htable _ ?_
      unfold Text.trimRightWhere
      rw [String.toList_ofList]
      exact hmem
    · rcases Bool.or_eq_true_iff.mp hversion with hdigit | hdot
      · have hle : c.toLower.val ≤ '9'.val := of_decide_eq_true (Bool.and_eq_true_iff.mp hdigit).2
        have hnine : c.toLower.toNat ≤ 57 := UInt32.le_iff_toNat_le.mp hle
        omega
      · rw [eq_of_beq hdot]
        decide
  rw [Text.toNat_toLower] at hascii
  split at hascii <;> omega

/-- A name stands for the same language in lower case. -/
theorem ofName?_asciiLowercase (name : String) : ofName? (Text.asciiLowercase name) = ofName? name := by
  unfold ofName?
  rw [Text.trim_asciiLowercase, Text.asciiLowercase_asciiLowercase]

/-- The id of a language is one of its names, unless the language has none. -/
theorem ofName?_id (l : Language) : ofName? l.id = some l ∨ ofName? l.id = none := by
  cases l <;> decide

/-- If a name that is accepted is the id of a language in lower case, then it stands for that
language. -/
theorem eq_of_lowercase (h : ofName? name = some l) (hid : Text.lowercase name = l'.id) : l' = l := by
  have hsome : ofName? l'.id = some l := by
    rw [← hid, Text.lowercase_eq_asciiLowercase (ascii_of_ofName? h), ofName?_asciiLowercase, h]
  rcases ofName?_id l' with hself | hnone
  · exact Option.some.inj (hself.symm.trans hsome)
  · rw [hnone] at hsome
    cases hsome

/-- An accepted name in lower case is the id of its language, or of none. -/
theorem lowercase_eq_id_iff (h : ofName? name = some l) :
    Text.lowercase name = l'.id ↔ l' = l ∧ Text.lowercase name = l.id := by
  constructor
  · intro hid
    obtain rfl := eq_of_lowercase h hid
    exact ⟨rfl, hid⟩
  · rintro ⟨rfl, hid⟩
    exact hid

end Language

end SourceIndex
