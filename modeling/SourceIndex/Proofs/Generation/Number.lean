import Mathlib
import SourceIndex.Proofs.Generation.Directory
import SourceIndex.Proofs.Text.Trim

/-! # Numbers in names and in the pointer

The number of a generation is read back from the name of its file (`IndexDirectory.idOfName?_nameOf`)
and from the pointer to it (`IndexDirectory.LiesAt.readCurrent_eq`), if it fits into 64 bits. So no
two generations have the same file name (`IndexDirectory.nameOf_inj`).
-/

set_option autoImplicit false

namespace SourceIndex

/-! ## Digits -/

/-- A text of digits spells the number that they stand for, if it fits. -/
theorem readNumber?_of_digits {text : String} (hne : text.toList ≠ [])
    (hdigits : ∀ c ∈ text.toList, c.isDigit = true) :
    readNumber? text =
      if Nat.ofDigitChars 10 text.toList 0 < UInt64.size then
        some (Nat.ofDigitChars 10 text.toList 0)
      else none := by
  have hall : text.toList.all Char.isDigit = true := List.all_eq_true.mpr hdigits
  have hsome : text.toList.isEmpty = false := by simpa using hne
  unfold readNumber?
  split
  · -- a sign is not a digit
    rename_i rest hplus
    have hdigit := hdigits '+' (by rw [hplus]; exact List.mem_cons_self)
    cases hdigit
  · simp only [hall, hsome, Nat.ofDigitChars_eq_foldl]
    rfl

theorem isDigit_of_mem_toString {n : Nat} {c : Char} (h : c ∈ (toString n).toList) :
    c.isDigit = true := by
  rw [Nat.toString_eq_repr, Nat.toList_repr] at h
  exact Nat.isDigit_of_mem_toDigits (by decide) (by decide) h

theorem toString_ne_nil (n : Nat) : (toString n).toList ≠ [] := by
  rw [Nat.toString_eq_repr, Nat.toList_repr]
  exact Nat.toDigits_ne_nil

theorem readNumber?_toString {n : Nat} (h : n < UInt64.size) : readNumber? (toString n) = some n := by
  rw [readNumber?_of_digits (toString_ne_nil n) fun c hc => isDigit_of_mem_toString hc,
    Nat.toString_eq_repr, Nat.toList_repr, Nat.ofDigitChars_ten_toDigits, if_pos h]

/-- A number is padded with zeros in front. -/
theorem toList_sixDigits (n : Nat) :
    (sixDigits n).toList =
      List.replicate (6 - (toString n).length) '0' ++ (toString n).toList := by
  have hzeros : ∀ k, ("".pushn '0' k).toList = List.replicate k '0' := by
    intro k
    rw [String.pushn_eq_repeat_push]
    induction k with
    | zero => rfl
    | succ k ih => rw [Nat.repeat, String.toList_push, ih, List.replicate_succ']
  rw [sixDigits, String.toList_append, hzeros]

theorem ofDigitChars_sixDigits (n : Nat) : Nat.ofDigitChars 10 (sixDigits n).toList 0 = n := by
  rw [toList_sixDigits, Nat.ofDigitChars_append, Nat.ofDigitChars_replicate_zero, Nat.mul_zero,
    Nat.toString_eq_repr, Nat.toList_repr, Nat.ofDigitChars_ten_toDigits]

theorem readNumber?_sixDigits {n : Nat} (h : n < UInt64.size) :
    readNumber? (sixDigits n) = some n := by
  have hne : (sixDigits n).toList ≠ [] := by
    rw [toList_sixDigits]
    exact List.append_ne_nil_of_right_ne_nil _ (toString_ne_nil n)
  have hdigits : ∀ c ∈ (sixDigits n).toList, c.isDigit = true := by
    intro c hc
    rw [toList_sixDigits] at hc
    rcases List.mem_append.mp hc with hzero | hdigit
    · rw [List.eq_of_mem_replicate hzero]
      rfl
    · exact isDigit_of_mem_toString hdigit
  rw [readNumber?_of_digits hne hdigits, ofDigitChars_sixDigits, if_pos h]

/-! ## Names -/

namespace IndexDirectory

/-- The number of a generation is read back from the name of its file. -/
theorem idOfName?_nameOf {id : Nat} (h : id < UInt64.size) : idOfName? (nameOf id) = some id := by
  have hname : (nameOf id).toList = "gen-".toList ++ ((sixDigits id).toList ++ ".db".toList) := by
    simp [nameOf, String.toList_append]
  have hend : ((sixDigits id).toList ++ ".db".toList).reverse =
      ".db".toList.reverse ++ (sixDigits id).toList.reverse := List.reverse_append
  simp only [idOfName?, hname, Text.dropLead?_append, hend, Option.bind_eq_bind, Option.bind_some,
    List.reverse_reverse, String.ofList_toList, readNumber?_sixDigits h]

theorem nameOf_inj {id id' : Nat} : nameOf id = nameOf id' ↔ id = id' := by
  refine ⟨fun hname => ?_, congrArg nameOf⟩
  have hdigits : sixDigits id = sixDigits id' := by
    simpa [nameOf, ← String.toList_inj] using hname
  have hnumbers := congrArg (fun text => Nat.ofDigitChars 10 text.toList 0) hdigits
  simpa only [ofDigitChars_sixDigits] using hnumbers

/-- A journal is not taken for a generation. -/
theorem idOfName?_journalName (id : Nat) : idOfName? (journalName id) = none := by
  have hname : (journalName id).toList =
      "gen-".toList ++ ((sixDigits id).toList ++ ".db-journal".toList) := by
    simp [journalName, nameOf, String.toList_append]
  have hend : ((sixDigits id).toList ++ ".db-journal".toList).reverse =
      ".db-journal".toList.reverse ++ (sixDigits id).toList.reverse := List.reverse_append
  simp only [idOfName?, hname, Text.dropLead?_append, hend, Option.bind_eq_bind, Option.bind_some]
  rfl

theorem idOfName?_currentName : idOfName? currentName = none := by decide

theorem idOfName?_draftName : idOfName? draftName = none := by decide

theorem idOfName?_lockName : idOfName? lockName = none := by decide

/-! ## The pointer -/

theorem trim_pointer (n : Nat) : Text.trim (toString n ++ "\n") = toString n := by
  have hdigit : ∀ c : Char, c.isDigit = true → Text.isBlank c = false := by
    intro c hc
    simp only [Char.isDigit, Bool.and_eq_true, decide_eq_true_eq, UInt32.le_iff_toNat_le] at hc
    have hlow : 48 ≤ c.toNat := hc.1
    have hhigh : c.toNat ≤ 57 := hc.2
    simp only [Text.isBlank]
    simp
    omega
  have hkept : ∀ cs : List Char, (∀ c ∈ cs, c.isDigit = true) →
      cs.dropWhile Text.isBlank = cs := by
    intro cs hcs
    cases cs with
    | nil => rfl
    | cons c cs => rw [List.dropWhile_cons_of_neg (by simp [hdigit c (hcs c (by simp))])]
  obtain ⟨c, cs, hcs⟩ := List.exists_cons_of_ne_nil (toString_ne_nil n)
  have hdigits : ∀ d ∈ (toString n).toList, d.isDigit = true :=
    fun d hd => isDigit_of_mem_toString hd
  have hleft : (toString n ++ "\n").toList.dropWhile Text.isBlank = (toString n ++ "\n").toList := by
    rw [String.toList_append, hcs, List.cons_append, List.dropWhile_cons_of_neg]
    rw [hcs] at hdigits
    simp [hdigit c (hdigits c (by simp))]
  have hright : (toString n ++ "\n").toList.reverse.dropWhile Text.isBlank =
      (toString n).toList.reverse := by
    have hnewline : (toString n ++ "\n").toList.reverse = '\n' :: (toString n).toList.reverse := by
      simp [String.toList_append]
    rw [hnewline, List.dropWhile_cons_of_pos (by decide)]
    exact hkept _ fun d hd => hdigits d (List.mem_reverse.mp hd)
  rw [Text.trim, Text.trimChars, Text.trimLeftChars, hleft, Text.trimRightChars, hright,
    List.reverse_reverse, String.ofList_toList]

-- from here on, names of files are not to be computed
attribute [local irreducible] nameOf journalName

variable {d : IndexDirectory} {t : FileTree} {home : List String}

/-- The pointer says which generation is in use. -/
theorem LiesAt.readCurrent_eq (h : d.LiesAt t home) {id : Nat} (hid : id < UInt64.size)
    (hitem : t.item? (home ++ [currentName]) = some (LiesAt.pointerTo id)) :
    d.readCurrent t = .ok (some id) := by
  have htext : String.fromUTF8? (toString id ++ "\n").toUTF8 = some (toString id ++ "\n") :=
    dif_pos (toString id ++ "\n").isValidUTF8
  rw [readCurrent, FileTree.readText, FileTree.readBytes, h.locate_entry isName_currentName, hitem]
  simp only [Option.isSome_some, if_true, hitem, LiesAt.pointerTo, Option.bind_some,
    FileItem.bytes?, htext, trim_pointer, readNumber?_toString hid]

theorem LiesAt.readCurrent_none (h : d.LiesAt t home)
    (hitem : t.item? (home ++ [currentName]) = none) : d.readCurrent t = .ok none := by
  rw [readCurrent, FileTree.readText, FileTree.readBytes, h.locate_entry isName_currentName, hitem]
  rfl

/-- What the pointer says depends on its file only. -/
theorem LiesAt.readCurrent_congr {d' : IndexDirectory} {t' : FileTree} (h : d.LiesAt t home)
    (h' : d'.LiesAt t' home)
    (hsame : t'.item? (home ++ [currentName]) = t.item? (home ++ [currentName])) :
    d'.readCurrent t' = d.readCurrent t := by
  rw [readCurrent, readCurrent, FileTree.readText, FileTree.readText, FileTree.readBytes,
    FileTree.readBytes, h.locate_entry isName_currentName, h'.locate_entry isName_currentName, hsame]
  cases hitem : t.item? (home ++ [currentName]) with
  | none => rfl
  | some item => simp only [Option.isSome_some, if_true, hitem, hsame]

/-- A directory in place of the pointer cannot be read. -/
theorem LiesAt.not_directory_of_readCurrent (h : d.LiesAt t home) {current : Option Nat}
    (hread : d.readCurrent t = .ok current) : t.hasDirectory (home ++ [currentName]) = false := by
  by_contra hdir
  have hitem := (FileTree.hasDirectory_iff _ _).mp (by simpa using hdir)
  rw [readCurrent, FileTree.readText, FileTree.readBytes, h.locate_entry isName_currentName, hitem]
    at hread
  simp only [Option.isSome_some, if_true, hitem, Option.bind_some, FileItem.bytes?] at hread
  cases hread

/-! ## The next number -/

/-- The last number of an ordered list is its largest. -/
theorem getLastD_eq_foldr_max {ns : List Nat} (h : ns.Pairwise (· ≤ ·)) :
    ns.getLastD 0 = ns.foldr max 0 := by
  have hlast : ∀ (rest : List Nat) (n : Nat), (n :: rest).Pairwise (· ≤ ·) →
      rest.getLastD n = max n (rest.foldr max 0) := by
    intro rest
    induction rest with
    | nil => simp
    | cons m rest ih =>
        intro n hpairwise
        obtain ⟨hn, hrest⟩ := List.pairwise_cons.mp hpairwise
        have hle := hn m (by simp)
        rw [List.getLastD_cons, ih m hrest, List.foldr_cons]
        omega
  cases ns with
  | nil => rfl
  | cons n rest =>
      rw [List.getLastD_cons, List.foldr_cons]
      exact hlast rest n h

/-- The numbers that names in the directory have, in order. -/
theorem LiesAt.ids_spec (h : d.LiesAt t home) : ∃ ids, d.ids t = .ok ids ∧
    ids.Perm ((t.namesIn home).filterMap idOfName?) ∧ ids.Pairwise (· ≤ ·) := by
  refine ⟨(((t.namesIn home).mergeSort Text.le).filterMap idOfName?).mergeSort
    fun a b => decide (a ≤ b), ?_, ?_, ?_⟩
  · rw [ids, names, h.located]
    simp only [if_pos h.directory]
  · exact (List.mergeSort_perm _ _).trans ((List.mergeSort_perm _ Text.le).filterMap idOfName?)
  · refine List.Pairwise.imp of_decide_eq_true (List.pairwise_mergeSort ?_ ?_ _)
    · intro a b c hab hbc
      exact decide_eq_true ((of_decide_eq_true hab).trans (of_decide_eq_true hbc))
    · intro a b
      simp only [Bool.or_eq_true, decide_eq_true_eq]
      exact Nat.le_total a b

/-- The next number comes after all those that names in the directory have, and after that of the
generation in use. -/
theorem LiesAt.nextId_eq (h : d.LiesAt t home) {current : Option Nat}
    (hcurrent : d.readCurrent t = .ok current) :
    d.nextId t =
      let id := max (((t.namesIn home).filterMap idOfName?).foldr max 0) (current.getD 0) + 1
      if id < UInt64.size then .ok id else .error (.overflow "generation id") := by
  obtain ⟨ids, hids, hperm, hpairwise⟩ := h.ids_spec
  have hlargest : ids.getLastD 0 = ((t.namesIn home).filterMap idOfName?).foldr max 0 := by
    rw [getLastD_eq_foldr_max hpairwise]
    exact hperm.foldr_eq 0
  rw [nextId, hids, hcurrent]
  dsimp only
  rw [hlargest]

/-- Where no file has a number there is nothing to clear away. -/
theorem LiesAt.sweep_eq_self (h : d.LiesAt t home) (hwf : t.WellFormed)
    (hnone : ∀ name, (t.item? (home ++ [name])).isSome = true → idOfName? name = none)
    (keep : Option Nat) : d.sweep t keep = t := by
  obtain ⟨ids, hids, hperm, -⟩ := h.ids_spec
  have hnames : (t.namesIn home).filterMap idOfName? = [] :=
    List.filterMap_eq_nil_iff.mpr fun name hname => hnone name (hwf.mem_namesIn.mp hname)
  rw [hnames] at hperm
  rw [sweep, hids, hperm.eq_nil]
  rfl

/-- There is none if the pointer cannot be read. -/
theorem LiesAt.nextId_error (h : d.LiesAt t home) {f : Fault} (hread : d.readCurrent t = .error f) :
    d.nextId t = .error f := by
  obtain ⟨ids, hids, -⟩ := h.ids_spec
  rw [nextId, hids, hread]

theorem le_foldr_max {ns : List Nat} {n : Nat} (h : n ∈ ns) : n ≤ ns.foldr max 0 := by
  induction ns with
  | nil => cases h
  | cons m ns ih =>
      rw [List.foldr_cons]
      rcases List.mem_cons.mp h with rfl | h
      · exact Nat.le_max_left _ _
      · exact (ih h).trans (Nat.le_max_right _ _)

theorem foldr_max_lt {ns : List Nat} {bound : Nat} (hpos : 0 < bound) (h : ∀ n ∈ ns, n < bound) :
    ns.foldr max 0 < bound := by
  induction ns with
  | nil => exact hpos
  | cons m ns ih =>
      rw [List.foldr_cons]
      exact max_lt (h m List.mem_cons_self) (ih fun n hn => h n (List.mem_cons_of_mem m hn))

/-- The next number is larger than that of the generation in use and all that files have. -/
theorem LiesAt.nextId_spec (h : d.LiesAt t home) (hwf : t.WellFormed) {id : Nat}
    (hid : d.nextId t = .ok id) :
    id < UInt64.size ∧ (∃ current, d.readCurrent t = .ok current ∧ ∀ k, current = some k → k < id) ∧
      ∀ name k, idOfName? name = some k → (t.item? (home ++ [name])).isSome = true → k < id := by
  cases hread : d.readCurrent t with
  | error f =>
      rw [h.nextId_error hread] at hid
      cases hid
  | ok current =>
      rw [h.nextId_eq hread] at hid
      dsimp only at hid
      split at hid
      · rename_i hfits
        obtain rfl := Except.ok.inj hid
        refine ⟨hfits, ⟨current, rfl, fun k hk => ?_⟩, fun name k hname hsome => ?_⟩
        · rw [hk]
          exact Nat.lt_succ_of_le (Nat.le_max_right _ _)
        · have hmem := List.mem_filterMap.mpr ⟨name, hwf.mem_namesIn.mpr hsome, hname⟩
          exact Nat.lt_succ_of_le ((le_foldr_max hmem).trans (Nat.le_max_left _ _))
      · cases hid

/-- All numbers in the directory leave room for larger ones. -/
structure HasRoom (d : IndexDirectory) (home : List String) (t : FileTree) : Prop where
  current : ∀ k, d.readCurrent t = .ok (some k) → k + 1 < UInt64.size
  files : ∀ name k, idOfName? name = some k → (t.item? (home ++ [name])).isSome = true →
    k + 1 < UInt64.size

/-- There is a next number if the pointer can be read. -/
theorem LiesAt.nextId_isOk (h : d.LiesAt t home) (hwf : t.WellFormed) (hroom : d.HasRoom home t)
    {current : Option Nat} (hread : d.readCurrent t = .ok current) :
    ∃ id, d.nextId t = .ok id := by
  have hfiles : ((t.namesIn home).filterMap idOfName?).foldr max 0 < UInt64.size - 1 := by
    refine foldr_max_lt (by decide) fun k hk => ?_
    obtain ⟨name, hname, hid⟩ := List.mem_filterMap.mp hk
    have hfits := hroom.files name k hid (hwf.mem_namesIn.mp hname)
    omega
  have hcurrent : current.getD 0 < UInt64.size - 1 := by
    cases current with
    | none => decide
    | some k =>
        have hfits := hroom.current k hread
        rw [Option.getD_some]
        omega
  rw [h.nextId_eq hread]
  dsimp only
  rw [if_pos (by omega)]
  exact ⟨_, rfl⟩

end IndexDirectory

end SourceIndex
