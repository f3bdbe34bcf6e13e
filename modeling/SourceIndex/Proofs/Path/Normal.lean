import Mathlib
import SourceIndex.Path
import SourceIndex.Proofs.Text.Lines

/-! # Normal paths

A path is *normal* if it is spelled as names joined by single slashes. The parts of a normal
path are exactly its names, so two normal paths with the same parts are the same text
(`Path.IsNormal.eq_of_parts`).

The order of paths is the lexicographic order of their parts, hence a linear order up to
spelling (`Path.order_eq_eq_iff`, `Path.order_lt_trans`).
-/

set_option autoImplicit false

namespace SourceIndex

/-! ## Cutting a text into pieces -/

/-- A text is cut at a slash in it. -/
theorem Text.split_append_slash (a b : String) :
    Text.split (· == '/') (a ++ "/" ++ b)
      = Text.split (· == '/') a ++ Text.split (· == '/') b := by
  have htext : (a ++ "/" ++ b).toList = a.toList ++ '/' :: b.toList := by simp
  rw [Text.split, htext, Text.pieces_eq_splitOnP, List.splitOnP_append_cons _ _ (by rfl),
    ← Text.pieces_eq_splitOnP, ← Text.pieces_eq_splitOnP, List.map_append]
  rfl

namespace Path

/-! ## Names -/

/-- Whether a text can be the name of an item: it says something, leads neither here nor up,
and has no slash in it. -/
def IsName (n : String) : Prop := n ≠ "" ∧ n ≠ "." ∧ n ≠ ".." ∧ '/' ∉ n.toList

instance (n : String) : Decidable (IsName n) := inferInstanceAs (Decidable (_ ∧ _))

/-- A path spelled as names joined by single slashes. -/
def IsNormal (p : Path) : Prop :=
  ∃ names : List String, (∀ n ∈ names, IsName n) ∧ p.text = "/".intercalate names

theorem partOf_of_isName {n : String} (h : IsName n) (first : Bool) :
    partOf first n = some (.name n) := by
  obtain ⟨h₁, h₂, h₃, -⟩ := h
  simp [partOf, h₁, h₂, h₃]

theorem filterMap_partOf {names : List String} (h : ∀ n ∈ names, IsName n) (first : Bool) :
    names.filterMap (partOf first) = names.map .name := by
  induction names with
  | nil => rfl
  | cons n names ih =>
      rw [List.filterMap_cons, partOf_of_isName (h n (by simp)),
        ih fun m hm => h m (by simp [hm])]
      rfl

theorem startsWith_slash_iff (text : String) :
    Text.startsWith text "/" = true ↔ text.toList.head? = some '/' := by
  unfold Text.startsWith Text.leads
  cases htext : text.toList with
  | nil => simp [Text.dropLead?]
  | cons c cs =>
      by_cases hc : '/' = c
      · simp [Text.dropLead?, hc.symm]
      · simp [Text.dropLead?, hc, Ne.symm hc]

theorem not_isAbsolute_of_names {names : List String} (h : ∀ n ∈ names, IsName n) :
    isAbsolute ⟨"/".intercalate names⟩ = false := by
  rw [Bool.eq_false_iff]
  intro habs
  have hhead := (startsWith_slash_iff _).mp habs
  rw [String.toList_intercalate] at hhead
  match names, h with
  | [], _ => simp at hhead
  | n :: rest, h =>
      obtain ⟨hne, -, -, hslash⟩ := h n (by simp)
      have hlead : n.toList.head? = some '/' := by
        cases htext : n.toList with
        | nil => exact absurd (String.toList_eq_nil_iff.mp htext) hne
        | cons c cs => cases rest <;> simpa [htext] using hhead
      exact hslash (List.mem_of_mem_head? hlead)

/-- The parts of a path spelled by names are the names. -/
theorem parts_intercalate {names : List String} (h : ∀ n ∈ names, IsName n) :
    parts ⟨"/".intercalate names⟩ = names.map .name := by
  have habs := not_isAbsolute_of_names h
  match names, h with
  | [], _ => rfl
  | n :: rest, h =>
      have hsplit : Text.split (· == '/') ("/".intercalate (n :: rest)) = n :: rest :=
        Text.split_intercalate rfl (by simp)
        fun m hm => (h m hm).2.2.2
      rw [parts, habs]
      simp only [hsplit]
      rw [partOf_of_isName (h n (by simp)), filterMap_partOf fun m hm => h m (by simp [hm])]
      rfl

/-- Normal paths with the same parts are spelled alike. -/
theorem IsNormal.eq_of_parts {p q : Path} (hp : p.IsNormal) (hq : q.IsNormal)
    (h : p.parts = q.parts) : p = q := by
  obtain ⟨ns, hns, hpt⟩ := hp
  obtain ⟨ms, hms, hqt⟩ := hq
  obtain ⟨p⟩ := p
  obtain ⟨q⟩ := q
  simp only at hpt hqt
  subst hpt hqt
  rw [parts_intercalate hns, parts_intercalate hms] at h
  have hnames : ns = ms := List.map_injective_iff.mpr (fun a b hab => by simpa using hab) h
  rw [hnames]

/-! ## Lying under a path -/

theorem partsAfter?_isSome_iff (lead ps : List Part) :
    (partsAfter? lead ps).isSome = true ↔ lead <+: ps := by
  induction lead generalizing ps with
  | nil => simp [partsAfter?]
  | cons a lead ih =>
      cases ps with
      | nil => simp [partsAfter?]
      | cons b ps =>
          by_cases hab : a = b
          · simp [partsAfter?, hab, ih, List.cons_prefix_cons]
          · simp [partsAfter?, hab, List.cons_prefix_cons]

theorem isUnder_iff (p lead : Path) : p.isUnder lead = true ↔ lead.parts <+: p.parts :=
  partsAfter?_isSome_iff lead.parts p.parts

theorem isUnder_self (p : Path) : p.isUnder p = true := (isUnder_iff p p).mpr (List.prefix_refl _)

/-! ## The order of paths -/

/-- The text that decides between parts of one kind. -/
def nameText : Part → String
  | .name s => s
  | _ => ""

theorem comparePart_eq (a b : Part) :
    comparePart a b = (compare (partRank a) (partRank b)).then (compare (nameText a) (nameText b)) := by
  cases a <;> cases b <;> rfl

theorem compareParts_eq (as bs : List Part) :
    compareParts as bs = List.compareLex comparePart as bs := by
  induction as generalizing bs with
  | nil => cases bs <;> rfl
  | cons a as ih =>
      cases bs with
      | nil => rfl
      | cons b bs =>
          rw [List.compareLex_cons_cons, ← ih]
          rfl

instance : Std.TransCmp comparePart :=
  have hcmp : comparePart = compareLex (compareOn partRank) (compareOn nameText) := by
    funext a b
    exact comparePart_eq a b
  hcmp ▸ inferInstance

instance : Std.LawfulEqCmp comparePart where
  eq_of_compare {a b} h := by
    rw [comparePart_eq, Ordering.then_eq_eq] at h
    obtain ⟨hrank, htext⟩ := h
    have hrank := Std.LawfulEqCmp.eq_of_compare hrank
    have htext := Std.LawfulEqCmp.eq_of_compare htext
    cases a <;> cases b <;> simp_all [partRank, nameText]

instance : Std.TransCmp compareParts :=
  have hcmp : compareParts = List.compareLex comparePart := by
    funext as bs
    exact compareParts_eq as bs
  hcmp ▸ inferInstance

instance : Std.LawfulEqCmp compareParts :=
  have hcmp : compareParts = List.compareLex comparePart := by
    funext as bs
    exact compareParts_eq as bs
  hcmp ▸ inferInstance

/-- Two paths are level in the order exactly if they have the same parts. -/
theorem order_eq_eq_iff (p q : Path) : order p q = .eq ↔ p.parts = q.parts :=
  ⟨fun h => Std.LawfulEqCmp.eq_of_compare h, fun h => by
    rw [order, h]
    exact Std.ReflCmp.compare_self⟩

theorem same_iff_order (p q : Path) : p.same q = true ↔ order p q = .eq := by
  rw [order_eq_eq_iff]
  simp [same]

theorem order_swap (p q : Path) : order q p = (order p q).swap := by
  show compareParts q.parts p.parts = (compareParts p.parts q.parts).swap
  exact Std.OrientedCmp.eq_swap

theorem order_lt_trans {p q r : Path} (h₁ : order p q = .lt) (h₂ : order q r = .lt) :
    order p r = .lt := by
  show compareParts p.parts r.parts = .lt
  exact Std.TransCmp.lt_trans h₁ h₂

theorem order_congr_left {p q : Path} (h : p.parts = q.parts) (r : Path) :
    order p r = order q r := by
  rw [order, order, h]

theorem le_iff (p q : Path) : le p q = true ↔ order p q ≠ .gt := by
  rw [le]
  cases order p q <;> simp

theorem le_trans (p q r : Path) (h₁ : le p q = true) (h₂ : le q r = true) : le p r = true := by
  show (compareParts p.parts r.parts).isLE = true
  exact Std.TransCmp.isLE_trans h₁ h₂

theorem le_total (p q : Path) : (le p q || le q p) = true := by
  rw [le, le, order_swap p q]
  cases order p q <;> rfl

end Path

end SourceIndex
