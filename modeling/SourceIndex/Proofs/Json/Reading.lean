import Mathlib
import SourceIndex.Json.Read
import SourceIndex.Proofs.Generation.Number

/-! # Reading what was written

A value that is written on one line is read back as it was (`Json.read?_compact`), if its numbers are
whole, not negative and of 64 bits at most, and if it nests no deeper than is read
(`Json.IsReadable`). Texts in it may have any characters.

What is read stops where the value ends, because a comma, a closing bracket or nothing stands behind
it (`Json.Closes`).
-/

set_option autoImplicit false

namespace SourceIndex

namespace Json

/-- What may stand behind a written value. -/
def Closes (rest : List Char) : Prop := ∀ c ∈ rest.head?, c = ',' ∨ c = ']' ∨ c = '}'

theorem Closes.nil : Closes [] := by simp [Closes]

theorem Closes.cons {c : Char} (h : c = ',' ∨ c = ']' ∨ c = '}') (rest : List Char) :
    Closes (c :: rest) := by
  intro d hd
  obtain rfl := Option.some.inj hd
  exact h

/-! ## Numbers -/

theorem spanDigits_append {digits rest : List Char} (hdigits : ∀ c ∈ digits, c.isDigit = true)
    (hrest : ∀ c ∈ rest.head?, c.isDigit = false) : spanDigits (digits ++ rest) = (digits, rest) := by
  have hnone : rest.takeWhile Char.isDigit = [] ∧ rest.dropWhile Char.isDigit = rest := by
    cases rest with
    | nil => exact ⟨rfl, rfl⟩
    | cons c rest =>
      have hc := hrest c rfl
      exact ⟨List.takeWhile_cons_of_neg (by simp [hc]), List.dropWhile_cons_of_neg (by simp [hc])⟩
  rw [spanDigits, List.takeWhile_append_of_pos hdigits, List.dropWhile_append_of_pos hdigits,
    hnone.1, hnone.2, List.append_nil]

theorem le_ofDigitChars (digits : List Char) (start : Nat) :
    start ≤ Nat.ofDigitChars 10 digits start := by
  rw [Nat.ofDigitChars_eq_ofDigitChars_zero]
  have := Nat.le_mul_of_pos_left start (Nat.pow_pos (n := digits.length) (show 0 < 10 by decide))
  omega

/-- Digits of a number that fits are all taken into the significand. -/
theorem significandOf_eq (digits : List Char) {start : Nat}
    (h : Nat.ofDigitChars 10 digits start < UInt64.size) :
    significandOf start digits = (Nat.ofDigitChars 10 digits start, []) := by
  induction digits generalizing start with
  | nil => rfl
  | cons c digits ih =>
    have hstart : 10 * start + (c.toNat - '0'.toNat) = start * 10 + digitValue c := by
      rw [Nat.mul_comm]
      rfl
    rw [Nat.ofDigitChars_cons, hstart] at h ⊢
    have hfits : fits start (digitValue c) = true :=
      decide_eq_true (Nat.lt_of_le_of_lt (le_ofDigitChars digits _) h)
    rw [significandOf, if_pos hfits, ih h]

/-- A number does not begin with a zero, unless it is zero. -/
theorem head?_toDigits_ne (n : Nat) (h : 0 < n) : (Nat.toDigits 10 n).head? ≠ some '0' := by
  induction n using Nat.strong_induction_on with
  | _ n ih =>
    rw [Nat.toDigits_eq_if (by decide)]
    split
    · have hdigit : ∀ d < 10, 0 < d → d.digitChar ≠ '0' := by decide
      simpa using hdigit n (by assumption) h
    · have hpos : 0 < n / 10 := by omega
      rw [List.head?_append_of_ne_nil _ Nat.toDigits_ne_nil]
      exact ih (n / 10) (by omega) hpos

/-- A written number begins with a digit, so with no mark and no blank. -/
theorem exists_head_toString (n : Nat) :
    ∃ d ds, (toString n).toList = d :: ds ∧ ∀ c : Char, c.isDigit = false → d ≠ c := by
  obtain ⟨d, ds, hds⟩ := List.exists_cons_of_ne_nil (toString_ne_nil n)
  have hdigit : d.isDigit = true := isDigit_of_mem_toString (hds ▸ List.mem_cons_self)
  refine ⟨d, ds, hds, ?_⟩
  rintro c hc rfl
  exact absurd hdigit (by simp [hc])

theorem readNumber?_toString {n : Nat} (h : n < UInt64.size) {rest : List Char} (hrest : Closes rest) :
    readNumber? ((toString n).toList ++ rest) = some (.int n, rest) := by
  have hdigits : ∀ c ∈ Nat.toDigits 10 n, c.isDigit = true := fun c hc =>
    Nat.isDigit_of_mem_toDigits (by decide) (by decide) hc
  have hspan : spanDigits (Nat.toDigits 10 n ++ rest) = (Nat.toDigits 10 n, rest) := by
    refine spanDigits_append hdigits fun c hc => ?_
    rcases hrest c hc with rfl | rfl | rfl <;> rfl
  have hsignificand : significandOf 0 (Nat.toDigits 10 n) = (n, []) := by
    rw [significandOf_eq _ (by rwa [Nat.ofDigitChars_ten_toDigits]), Nat.ofDigitChars_ten_toDigits]
  have hzeros : ((Nat.toDigits 10 n).isEmpty || ((Nat.toDigits 10 n).head? == some '0' &&
      decide ((Nat.toDigits 10 n).length > 1))) = false := by
    have hsome : (Nat.toDigits 10 n).isEmpty = false := by simp [Nat.toDigits_ne_nil]
    rcases Nat.eq_zero_or_pos n with rfl | hpos
    · rfl
    · have hhead := head?_toDigits_ne n hpos
      simp [hsome, hhead]
  have hplain : ∀ cs, (toString n).toList ++ rest ≠ '-' :: cs := by
    intro cs hcs
    obtain ⟨d, ds, hds, hne⟩ := exists_head_toString n
    rw [hds] at hcs
    exact hne '-' rfl (List.cons.inj hcs).1
  rw [readNumber?]
  · rw [Nat.toString_eq_repr, Nat.toList_repr]
    simp only [hspan, hzeros, hsignificand]
    -- neither a point nor an exponent stands behind the digits
    cases rest with
    | nil => rfl
    | cons c rest => rcases hrest c rfl with rfl | rfl | rfl <;> rfl
  · exact hplain

/-! ## Strings -/

theorem hexValue?_hexDigit : ∀ d < 16, Text.hexValue? (Text.hexDigit d) = some d := by decide

theorem readHex4?_hex {n : Nat} (h : n < 65536) (rest : List Char) :
    readHex4? ((Text.hex 4 n).toList ++ rest) = some (n, rest) := by
  have hdigits : (Text.hex 4 n).toList = [Text.hexDigit (n / 16 / 16 / 16 % 16),
      Text.hexDigit (n / 16 / 16 % 16), Text.hexDigit (n / 16 % 16), Text.hexDigit (n % 16)] := by
    simp [Text.hex]
  have hvalue : ((n / 16 / 16 / 16 % 16 * 16 + n / 16 / 16 % 16) * 16 + n / 16 % 16) * 16 + n % 16 =
      n := by omega
  simp [hdigits, readHex4?, hexValue?_hexDigit _ (Nat.mod_lt _ _), hvalue]

/-- A quoted character is read back. -/
theorem readString?_quoteChar (acc : List Char) (fuel : Nat) (c : Char) (rest : List Char) :
    readString? acc (fuel + 1) (quoteChar c ++ rest) = readString? (c :: acc) fuel rest := by
  have hescape : ∀ e : List Char, readEscape? (e ++ rest) = some (c, rest) →
      readString? acc (fuel + 1) ('\\' :: e ++ rest) = readString? (c :: acc) fuel rest := by
    intro e he
    rw [List.cons_append, readString?, if_neg (by decide), if_pos rfl, he]
    rfl
  unfold quoteChar
  split
  · rename_i h
    exact hescape ['"'] (by rw [h]; rfl)
  split
  · rename_i h
    exact hescape ['\\'] (by rw [h]; rfl)
  split
  · rename_i h
    exact hescape ['n'] (h ▸ rfl)
  split
  · rename_i h
    exact hescape ['r'] (h ▸ rfl)
  split
  · rename_i h
    exact hescape ['t'] (h ▸ rfl)
  split
  · rename_i h
    exact hescape ['b'] (h ▸ rfl)
  split
  · rename_i h
    exact hescape ['f'] (h ▸ rfl)
  split
  · rename_i h
    refine hescape ('u' :: (Text.hex 4 c.toNat).toList) ?_
    have hlow : ¬ (0xdc00 ≤ c.toNat) := by omega
    have hhigh : ¬ (0xd800 ≤ c.toNat) := by omega
    rw [List.cons_append, readEscape?, readHex4?_hex (by omega)]
    simp [hlow, hhigh]
  · rename_i hquote hslash _ _ _ _ _ hcontrol
    rw [List.singleton_append, readString?, if_neg hquote, if_neg hslash, if_neg hcontrol]

/-- The characters of a quoted text are read back up to the closing quote. -/
theorem readString?_quoted (cs acc : List Char) {fuel : Nat} (h : cs.length < fuel)
    (rest : List Char) : readString? acc fuel (cs.flatMap quoteChar ++ '"' :: rest) =
      some (String.ofList (acc.reverse ++ cs), rest) := by
  induction cs generalizing acc fuel with
  | nil =>
    obtain ⟨fuel, rfl⟩ : ∃ k, fuel = k + 1 := ⟨fuel - 1, by simp at h; omega⟩
    simp [readString?]
  | cons c cs ih =>
    obtain ⟨fuel, rfl⟩ : ∃ k, fuel = k + 1 := ⟨fuel - 1, by simp at h; omega⟩
    rw [List.flatMap_cons, List.append_assoc, readString?_quoteChar,
      ih (c :: acc) (by simp at h; omega)]
    simp

theorem length_le_flatMap_quoteChar (cs : List Char) : cs.length ≤ (cs.flatMap quoteChar).length := by
  have hpos : ∀ c, 1 ≤ (quoteChar c).length := by
    intro c
    unfold quoteChar
    repeat' split
    all_goals simp
  induction cs with
  | nil => exact le_refl _
  | cons c cs ih =>
    have := hpos c
    rw [List.flatMap_cons, List.length_append, List.length_cons]
    omega

/-- A quoted text is read back, from behind its opening quote. -/
theorem readString?_quote (s : String) (rest : List Char) :
    let cs := s.toList.flatMap quoteChar ++ '"' :: rest
    (quote s).toList ++ rest = '"' :: cs ∧ readString? [] (cs.length + 1) cs = some (s, rest) := by
  intro cs
  have hlength : s.toList.length < cs.length + 1 := by
    have := length_le_flatMap_quoteChar s.toList
    simp only [cs, List.length_append]
    omega
  refine ⟨by simp [quote, cs], ?_⟩
  rw [readString?_quoted s.toList [] hlength]
  simp

/-! ## Values -/

mutual

/-- A value that is read back as it was, within the given levels of nesting. -/
def IsReadable (room : Nat) : Json → Prop
  | .null | .bool _ | .str _ => True
  | .int n => 0 ≤ n ∧ n < UInt64.size
  | .real _ => False
  | .arr items => 0 < room ∧ AreReadable (room - 1) items
  | .obj fields => 0 < room ∧ HasReadable (room - 1) fields

/-- Items that are read back. -/
def AreReadable (room : Nat) : List Json → Prop
  | [] => True
  | v :: vs => v.IsReadable room ∧ AreReadable room vs

/-- Fields with values that are read back. -/
def HasReadable (room : Nat) : List (String × Json) → Prop
  | [] => True
  | (_, v) :: fs => v.IsReadable room ∧ HasReadable room fs

end

theorem areReadable_iff {room : Nat} {vs : List Json} :
    AreReadable room vs ↔ ∀ v ∈ vs, v.IsReadable room := by
  induction vs with
  | nil => simp [AreReadable]
  | cons v vs ih => simp [AreReadable, ih]

theorem hasReadable_iff {room : Nat} {fs : List (String × Json)} :
    HasReadable room fs ↔ ∀ f ∈ fs, f.2.IsReadable room := by
  induction fs with
  | nil => simp [HasReadable]
  | cons f fs ih => simp [HasReadable, ih]

theorem skipBlanks_cons {c : Char} (h : (c == ' ' || c == '\n' || c == '\t' || c == '\r') = false)
    (cs : List Char) : skipBlanks (c :: cs) = c :: cs := by
  rw [skipBlanks, List.dropWhile_cons_of_neg (by simp [h])]

/-- A written value begins with a mark that is no blank and closes no list. -/
theorem exists_head_compact {room : Nat} {v : Json} (h : v.IsReadable room) :
    ∃ c cs, v.compact.toList = c :: cs ∧ c ≠ ']' ∧
      (c == ' ' || c == '\n' || c == '\t' || c == '\r') = false := by
  cases v with
  | null => exact ⟨'n', _, rfl, by decide, by decide⟩
  | bool b => cases b <;> exact ⟨_, _, rfl, by decide, by decide⟩
  | int n =>
    obtain ⟨m, rfl⟩ := Int.eq_ofNat_of_zero_le h.1
    obtain ⟨d, ds, hds, hne⟩ := exists_head_toString m
    exact ⟨d, ds, hds, hne ']' rfl,
      by simp [hne ' ' rfl, hne '\n' rfl, hne '\t' rfl, hne '\r' rfl]⟩
  | real x => exact absurd h (by simp [IsReadable])
  | str s => exact ⟨'"', _, (readString?_quote s []).1 ▸ (List.append_nil _).symm, by decide, by decide⟩
  | arr items => exact ⟨'[', _, by simp [compact]; rfl, by decide, by decide⟩
  | obj fields => exact ⟨'{', _, by simp [compact]; rfl, by decide, by decide⟩

/-- A written value is read back, and nothing of what stands behind it. -/
def IsReadBack (room : Nat) (v : Json) : Prop :=
  ∀ (fuel : Nat) (rest : List Char), 2 * v.compact.toList.length ≤ fuel + 1 → Closes rest →
    readValue? room (fuel + 1) (v.compact.toList ++ rest) = some (v, rest)

variable {room n : Nat}

theorem isReadBack_int (h : n < UInt64.size) : IsReadBack room (.int n) := by
  intro fuel rest _ hrest
  have hnumber := readNumber?_toString h hrest
  have htext : (compact (.int n)).toList = (toString n).toList := rfl
  obtain ⟨d, ds, hds, hne⟩ := exists_head_toString n
  have hblank : (d == ' ' || d == '\n' || d == '\t' || d == '\r') = false := by
    simp [hne ' ' rfl, hne '\n' rfl, hne '\t' rfl, hne '\r' rfl]
  rw [htext]
  rw [hds, List.cons_append] at hnumber ⊢
  rw [readValue?, skipBlanks_cons hblank]
  split
  · rename_i heq
    cases heq
  · rename_i heq
    exact absurd (List.cons.inj heq).1 (hne _ rfl)
  · rename_i heq
    exact absurd (List.cons.inj heq).1 (hne _ rfl)
  · rename_i heq
    exact absurd (List.cons.inj heq).1 (hne _ rfl)
  · have hnull : Text.dropLead? "null".toList (d :: (ds ++ rest)) = none := if_neg (hne 'n' rfl).symm
    have htrue : Text.dropLead? "true".toList (d :: (ds ++ rest)) = none := if_neg (hne 't' rfl).symm
    have hfalse : Text.dropLead? "false".toList (d :: (ds ++ rest)) = none :=
      if_neg (hne 'f' rfl).symm
    rw [hnull, htrue, hfalse]
    exact hnumber

theorem isReadBack_str (room : Nat) (s : String) : IsReadBack room (.str s) := by
  intro fuel rest _ _
  obtain ⟨hquote, hread⟩ := readString?_quote s rest
  have htext : (compact (.str s)).toList = (quote s).toList := rfl
  rw [htext, hquote, readValue?, skipBlanks_cons (by decide)]
  simp only [hread, Option.map_some]

/-- Written items are read back up to the closing bracket. -/
theorem readItems?_compact {vs : List Json} (hne : vs ≠ []) (hvs : ∀ v ∈ vs, IsReadBack room v)
    (acc : List Json) (fuel : Nat) (hfuel : 2 * (compactItems vs).toList.length ≤ fuel + 1)
    (rest : List Char) :
    readItems? room acc (fuel + 2) ((compactItems vs).toList ++ ']' :: rest) =
      some (acc.reverse ++ vs, rest) := by
  induction vs generalizing acc fuel with
  | nil => exact absurd rfl hne
  | cons v vs ih =>
    have hv := hvs v List.mem_cons_self
    cases vs with
    | nil =>
      rw [compactItems] at hfuel ⊢
      rw [readItems?, hv _ _ hfuel (.cons (.inr (.inl rfl)) rest)]
      simp [skipBlanks_cons]
    | cons w ws =>
      have htext : (compactItems (v :: w :: ws)).toList =
          v.compact.toList ++ ',' :: (compactItems (w :: ws)).toList := by
        simp [compactItems]
      rw [htext, List.length_append, List.length_cons] at hfuel
      obtain ⟨fuel, rfl⟩ : ∃ k, fuel = k + 1 := ⟨fuel - 1, by omega⟩
      rw [htext, List.append_assoc, List.cons_append, readItems?,
        hv _ _ (by omega) (.cons (.inl rfl) _)]
      simp only [Option.bind_eq_bind, Option.bind_some, skipBlanks_cons (c := ',') (by decide)]
      rw [ih (List.cons_ne_nil w ws) (fun u hu => hvs u (List.mem_cons_of_mem v hu)) (v :: acc) _
        (by omega)]
      simp

/-- Written fields are read back up to the closing brace. -/
theorem readFields?_compact {fs : List (String × Json)} (hne : fs ≠ [])
    (hfs : ∀ f ∈ fs, IsReadBack room f.2) (acc : List (String × Json)) (fuel : Nat)
    (hfuel : 2 * (compactFields fs).toList.length ≤ fuel + 1) (rest : List Char) :
    readFields? room acc (fuel + 2) ((compactFields fs).toList ++ '}' :: rest) =
      some (acc.reverse ++ fs, rest) := by
  -- a field takes one unit of fuel, and its text is longer than that
  induction fs generalizing acc fuel with
  | nil => exact absurd rfl hne
  | cons f fs ih =>
    obtain ⟨k, v⟩ := f
    have hv : IsReadBack room v := hfs (k, v) List.mem_cons_self
    cases fs with
    | nil =>
      have htext : (compactFields [(k, v)]).toList ++ '}' :: rest =
          (quote k).toList ++ ':' :: (v.compact.toList ++ '}' :: rest) := by
        simp [compactFields]
      obtain ⟨hquote, hread⟩ := readString?_quote k (':' :: (v.compact.toList ++ '}' :: rest))
      have hlength : 2 * v.compact.toList.length ≤ fuel + 1 := by
        have : (compactFields [(k, v)]).toList.length =
            (quote k).toList.length + 1 + v.compact.toList.length := by
          simp [compactFields]
          omega
        omega
      rw [htext, hquote, readFields?, skipBlanks_cons (by decide)]
      simp only [hread, Option.bind_eq_bind, Option.bind_some, skipBlanks_cons (c := ':') (by decide)]
      rw [hv _ _ hlength (.cons (.inr (.inr rfl)) rest)]
      simp [skipBlanks_cons]
    | cons g gs =>
      have htext : (compactFields ((k, v) :: g :: gs)).toList ++ '}' :: rest =
          (quote k).toList ++ ':' :: (v.compact.toList ++
            ',' :: ((compactFields (g :: gs)).toList ++ '}' :: rest)) := by
        simp [compactFields]
      obtain ⟨hquote, hread⟩ := readString?_quote k (':' :: (v.compact.toList ++
        ',' :: ((compactFields (g :: gs)).toList ++ '}' :: rest)))
      have hlength : (compactFields ((k, v) :: g :: gs)).toList.length = (quote k).toList.length + 1 +
          v.compact.toList.length + 1 + (compactFields (g :: gs)).toList.length := by
        simp [compactFields]
        omega
      obtain ⟨fuel, rfl⟩ : ∃ k, fuel = k + 1 := ⟨fuel - 1, by omega⟩
      rw [htext, hquote, readFields?, skipBlanks_cons (by decide)]
      simp only [hread, Option.bind_eq_bind, Option.bind_some, skipBlanks_cons (c := ':') (by decide)]
      rw [hv _ _ (by omega) (.cons (.inl rfl) _)]
      simp only [Option.bind_some, skipBlanks_cons (c := ',') (by decide)]
      rw [ih (List.cons_ne_nil g gs) (fun u hu => hfs u (List.mem_cons_of_mem (k, v) hu))
        ((k, v) :: acc) _ (by omega)]
      simp

theorem isReadBack_arr {items : List Json} (hroom : 0 < room)
    (hitems : ∀ v ∈ items, v.IsReadable (room - 1) ∧ IsReadBack (room - 1) v) :
    IsReadBack room (.arr items) := by
  intro fuel rest hfuel _
  have htext : (compact (.arr items)).toList = '[' :: ((compactItems items).toList ++ [']']) := by
    simp [compact]
  rw [htext] at hfuel ⊢
  rw [List.cons_append, readValue?, skipBlanks_cons (by decide)]
  simp only [if_neg (Nat.ne_of_gt hroom), List.append_assoc, List.singleton_append]
  cases items with
  | nil => simp [compactItems, skipBlanks_cons]
  | cons v vs =>
    obtain ⟨fuel, rfl⟩ : ∃ k, fuel = k + 2 := ⟨fuel - 2, by simp at hfuel; omega⟩
    have hitems' := readItems?_compact (List.cons_ne_nil v vs) (fun w hw => (hitems w hw).2) []
      fuel (by simp at hfuel ⊢; omega) rest
    obtain ⟨c, cs, hcs, hclose, hblank⟩ :
        ∃ c cs, (compactItems (v :: vs)).toList = c :: cs ∧ c ≠ ']' ∧
          (c == ' ' || c == '\n' || c == '\t' || c == '\r') = false := by
      obtain ⟨c, cs, hcs, hmarks⟩ := exists_head_compact (hitems v List.mem_cons_self).1
      cases vs <;> exact ⟨c, _, by simp [compactItems, hcs]; rfl, hmarks⟩
    rw [hcs, List.cons_append] at hitems' ⊢
    rw [skipBlanks_cons hblank]
    split
    · rename_i heq
      exact absurd (List.cons.inj heq).1 hclose
    · simp [hitems']

theorem isReadBack_obj {fields : List (String × Json)} (hroom : 0 < room)
    (hfields : ∀ f ∈ fields, IsReadBack (room - 1) f.2) : IsReadBack room (.obj fields) := by
  intro fuel rest hfuel _
  have htext : (compact (.obj fields)).toList = '{' :: ((compactFields fields).toList ++ ['}']) := by
    simp [compact]
  rw [htext] at hfuel ⊢
  rw [List.cons_append, readValue?, skipBlanks_cons (by decide)]
  simp only [if_neg (Nat.ne_of_gt hroom), List.append_assoc, List.singleton_append]
  cases fields with
  | nil => simp [compactFields, skipBlanks_cons]
  | cons f fs =>
    obtain ⟨fuel, rfl⟩ : ∃ k, fuel = k + 2 := ⟨fuel - 2, by simp at hfuel; omega⟩
    have hfields' := readFields?_compact (List.cons_ne_nil f fs) hfields [] fuel
      (by simp at hfuel ⊢; omega) rest
    obtain ⟨cs, hcs⟩ : ∃ cs, (compactFields (f :: fs)).toList = '"' :: cs := by
      cases fs <;> exact ⟨_, by simp [compactFields, quote]; rfl⟩
    rw [hcs, List.cons_append] at hfields' ⊢
    rw [skipBlanks_cons (by decide)]
    simp [hfields']

/-- A readable value is read back. -/
theorem IsReadable.isReadBack : ∀ {room : Nat} (v : Json), v.IsReadable room → IsReadBack room v
  | _, .null, _ => fun _ _ _ _ => rfl
  | _, .bool true, _ => fun _ _ _ _ => rfl
  | _, .bool false, _ => fun _ _ _ _ => rfl
  | _, .int n, h => by
    obtain ⟨m, rfl⟩ := Int.eq_ofNat_of_zero_le h.1
    exact isReadBack_int (by have := h.2; omega)
  | _, .real _, h => absurd h (by simp [IsReadable])
  | room, .str s, _ => isReadBack_str room s
  | _, .arr _, h => isReadBack_arr h.1 fun v hv =>
    have hread := areReadable_iff.mp h.2 v hv
    ⟨hread, isReadBack v hread⟩
  | _, .obj _, h => isReadBack_obj h.1 fun f hf => isReadBack f.2 (hasReadable_iff.mp h.2 f hf)
termination_by _ v => sizeOf v
decreasing_by
  · have := List.sizeOf_lt_of_mem hv
    simp only [arr.sizeOf_spec]
    omega
  · have := List.sizeOf_lt_of_mem hf
    obtain ⟨k, w⟩ := f
    simp only [obj.sizeOf_spec, Prod.mk.sizeOf_spec] at this ⊢
    omega

/-- A value that is written on one line is read back as it was. -/
theorem read?_compact {v : Json} (h : v.IsReadable maxDepth) : read? v.compact = some v := by
  have hread := h.isReadBack v (2 * v.compact.toList.length + 1) [] (by omega) .nil
  rw [List.append_nil] at hread
  simp only [read?, hread]
  rfl

end Json

end SourceIndex
