import Mathlib
import SourceIndex.Proofs.Text.Blank
import SourceIndex.Syntax.Rules

/-! # Where definitions are found

A definition has a name, and the name is a part of the text that is not blank, so nothing is found in
a blank text. The kinds of nodes at which definitions are found are no comments and no attributes.
Both hold in every language (`Rules.findsNames_ofLanguage`).
-/

set_option autoImplicit false

namespace SourceIndex

/-! ## Names -/

namespace Node

variable {source : String} {n : Node}

theorem not_blank_of_trimmedText (h : n.trimmedText source ≠ "") :
    Text.isBlankText source = false := by
  cases hblank : Text.isBlankText source with
  | false => rfl
  | true =>
    refine absurd ((Text.trim_eq_empty_iff _).mpr ?_) h
    rw [text]
    cases hslice : Text.slice? source n.start.byte n.stop.byte with
    | none => rfl
    | some part => exact Text.isBlankText_of_slice? hslice hblank

theorem not_blank_of_fieldText? {field name : String} (h : n.fieldText? field source = some name) :
    Text.isBlankText source = false := by
  rw [fieldText?] at h
  split at h
  · cases h
  · simp only [Option.ite_none_left_eq_some] at h
    exact not_blank_of_trimmedText h.1

end Node

theorem not_blank_of_lastName? {source name : String} {n : Node} (h : lastName? source n = some name) :
    Text.isBlankText source = false := by
  rw [lastName?] at h
  split at h
  · simp only [Option.ite_none_left_eq_some] at h
    exact Node.not_blank_of_trimmedText h.1
  · split at h
    · cases h
    · rename_i m hm
      have hlt := sizeOf_lt_of_qualifiedChild? hm
      exact not_blank_of_lastName? h
termination_by sizeOf n

theorem not_blank_of_lastNameIn? {source field name : String} {n : Node}
    (h : lastNameIn? source n field = some name) : Text.isBlankText source = false := by
  obtain ⟨m, -, h⟩ := Option.bind_eq_some_iff.mp h
  exact not_blank_of_lastName? h

theorem CFamily.not_blank_of_declaratorName? {source name : String} {n : Node}
    (h : declaratorName? source n = some name) : Text.isBlankText source = false := by
  rw [declaratorName?] at h
  split at h
  · rename_i last hlast
    exact not_blank_of_lastName? hlast
  · split at h
    · cases h
    · rename_i m hm
      have hlt := Node.sizeOf_lt_of_childOrFirst? hm
      exact not_blank_of_declaratorName? h
termination_by sizeOf n

/-! ## Rules -/

/-- The rules find definitions only where the text has a name, and never at a node that belongs to the
node after it. -/
def Rules.FindsNames (rules : Rules) : Prop :=
  ∀ source n d, rules.definition? source n = some d →
    Text.isBlankText source = false ∧ rules.isTrivia n = false

theorem Node.isComment_eq_false {n : Node} {kinds : List String} (h : n.kind ∈ kinds)
    (hkinds : ∀ kind ∈ kinds, Text.contains kind "comment" = false) : n.isComment = false :=
  hkinds n.kind h

theorem not_blank_of_map {α : Type} {source : String} {n : Node} {field : String} {f : String → α}
    {a : α} (h : (n.fieldText? field source).map f = some a) : Text.isBlankText source = false := by
  obtain ⟨name, hname, -⟩ := Option.map_eq_some_iff.mp h
  exact Node.not_blank_of_fieldText? hname

theorem Python.not_blank (source : String) (n : Node) (d : Definition n)
    (h : definition? source n = some d) : Text.isBlankText source = false := by
  rw [definition?] at h
  split at h
  · exact not_blank_of_map h
  · split at h
    · exact not_blank_of_map h
    · split at h
      · split at h
        · cases h
        · rename_i m hm
          obtain ⟨inner, hinner, -⟩ := Option.map_eq_some_iff.mp h
          have hchild := Node.sizeOf_lt_of_child? hm
          exact Python.not_blank source m inner hinner
      · cases h
termination_by sizeOf n

theorem Python.kind_mem {source : String} {n : Node} {d : Definition n}
    (h : definition? source n = some d) :
    n.kind ∈ ["function_definition", "class_definition", "decorated_definition"] := by
  rw [definition?] at h
  split_ifs at h <;> simp_all

theorem Rust.not_blank (source : String) (n : Node) (d : Definition n)
    (h : definition? source n = some d) : Text.isBlankText source = false := by
  rw [definition?] at h
  split at h
  · obtain ⟨name, hname, -⟩ := Option.map_eq_some_iff.mp h
    exact not_blank_of_lastNameIn? hname
  · obtain ⟨role, -, h⟩ := Option.bind_eq_some_iff.mp h
    obtain ⟨name, hname, -⟩ := Option.bind_eq_some_iff.mp h
    exact Node.not_blank_of_fieldText? hname

/-- The kinds of items. -/
def Rust.itemKinds : List String :=
  ["impl_item", "function_item", "function_signature_item", "struct_item", "enum_item", "union_item",
    "trait_item", "mod_item"]

theorem Rust.kind_mem {source : String} {n : Node} {d : Definition n}
    (h : definition? source n = some d) : n.kind ∈ itemKinds := by
  rw [definition?] at h
  split at h
  · simp_all [itemKinds]
  · obtain ⟨role, hrole, -⟩ := Option.bind_eq_some_iff.mp h
    rw [roleOf?] at hrole
    split at hrole <;> simp_all [itemKinds]

theorem Java.kind_mem {kind : String} {role : Role} (h : roleOfKind? kind = some role) :
    kind ∈ ["class_declaration", "interface_declaration", "enum_declaration", "record_declaration",
      "annotation_type_declaration", "method_declaration", "constructor_declaration"] := by
  unfold roleOfKind? at h
  split at h <;> simp_all

theorem Java.not_blank {source : String} {n : Node} {d : Definition n}
    (h : definition? source n = some d) :
    Text.isBlankText source = false ∧ ∃ role, roleOfKind? n.kind = some role := by
  obtain ⟨role, hrole, h⟩ := Option.bind_eq_some_iff.mp h
  obtain ⟨name, hname, -⟩ := Option.bind_eq_some_iff.mp h
  exact ⟨Node.not_blank_of_fieldText? hname, role, hrole⟩

theorem Go.not_blank {source : String} {n : Node} {d : Definition n}
    (h : definition? source n = some d) : Text.isBlankText source = false := by
  rw [definition?] at h
  split at h
  · exact not_blank_of_map h
  · split at h
    · exact not_blank_of_map h
    · split at h
      · split at h
        · exact not_blank_of_map h
        · cases h
      · cases h

theorem Go.kind_mem {source : String} {n : Node} {d : Definition n}
    (h : definition? source n = some d) :
    n.kind ∈ ["function_declaration", "method_declaration", "type_declaration"] := by
  rw [definition?] at h
  split_ifs at h <;> simp_all

theorem JavaScript.not_blank_of_variableFunction? {source : String} {n : Node} {d : Definition n}
    (h : variableFunction? source n = some d) : Text.isBlankText source = false := by
  rw [variableFunction?] at h
  split at h
  · split at h
    · cases h
    · split at h
      · obtain ⟨name, hname, -⟩ := Option.map_eq_some_iff.mp h
        exact not_blank_of_lastNameIn? hname
      · cases h
  · cases h

theorem JavaScript.not_blank (source : String) (n : Node) (d : Definition n)
    (h : definition? source n = some d) : Text.isBlankText source = false := by
  rw [definition?] at h
  split at h
  · exact not_blank_of_variableFunction? h
  · split at h
    · split at h
      · cases h
      · rename_i m hm
        obtain ⟨inner, hinner, -⟩ := Option.map_eq_some_iff.mp h
        have hchild := Node.sizeOf_lt_of_child? hm
        exact JavaScript.not_blank source m inner hinner
    · obtain ⟨role, -, h⟩ := Option.bind_eq_some_iff.mp h
      obtain ⟨name, hname, -⟩ := Option.bind_eq_some_iff.mp h
      exact not_blank_of_lastNameIn? hname
termination_by sizeOf n

theorem JavaScript.kind_mem {source : String} {n : Node} {d : Definition n}
    (h : definition? source n = some d) :
    n.kind ∈ ["lexical_declaration", "variable_declaration", "export_statement",
      "function_declaration", "generator_function_declaration", "class_declaration",
      "abstract_class_declaration", "interface_declaration", "enum_declaration",
      "method_definition", "method_signature", "abstract_method_signature"] := by
  rw [definition?] at h
  split at h
  · rename_i hkind
    rcases hkind with hkind | hkind <;> simp [hkind]
  · split at h
    · simp_all
    · obtain ⟨role, hrole, -⟩ := Option.bind_eq_some_iff.mp h
      unfold roleOfKind? at hrole
      split at hrole <;> simp_all

theorem CFamily.not_blank (source : String) (n : Node) (d : Definition n)
    (h : definition? source n = some d) : Text.isBlankText source = false := by
  rw [definition?] at h
  split at h
  · obtain ⟨declarator, -, h⟩ := Option.bind_eq_some_iff.mp h
    obtain ⟨inner, -, h⟩ := Option.bind_eq_some_iff.mp h
    obtain ⟨name, hname, -⟩ := Option.bind_eq_some_iff.mp h
    exact not_blank_of_declaratorName? hname
  · split at h
    · obtain ⟨-, -, h⟩ := Option.bind_eq_some_iff.mp h
      obtain ⟨name, hname, -⟩ := Option.bind_eq_some_iff.mp h
      exact not_blank_of_lastNameIn? hname
    · split at h
      · exact not_blank_of_map h
      · split at h
        · obtain ⟨⟨m, hm⟩, -, h⟩ := List.exists_of_findSome?_eq_some h
          obtain ⟨inner, hinner, -⟩ := Option.map_eq_some_iff.mp h
          have hchild := Node.sizeOf_lt_of_mem_named hm
          exact CFamily.not_blank source m inner hinner
        · cases h
termination_by sizeOf n

theorem CFamily.kind_mem {source : String} {n : Node} {d : Definition n}
    (h : definition? source n = some d) :
    n.kind ∈ ["function_definition", "class_specifier", "struct_specifier", "union_specifier",
      "enum_specifier", "namespace_definition", "template_declaration"] := by
  rw [definition?] at h
  split_ifs at h with hfunction hrecord hnamespace htemplate
  · simp [hfunction]
  · simp only [recordKinds, List.contains_eq_mem, decide_eq_true_eq] at hrecord
    simp only [List.mem_cons] at hrecord ⊢
    tauto
  · simp [hnamespace]
  · simp [htemplate]

/-- In every language, definitions have names and are found at no comment and no attribute. -/
theorem Rules.findsNames_ofLanguage {l : Language} {rules : Rules}
    (h : Rules.ofLanguage? l = some rules) : rules.FindsNames := by
  have hjavaScript : JavaScript.rules.FindsNames := fun source n d hd =>
    ⟨JavaScript.not_blank source n d hd, Node.isComment_eq_false (JavaScript.kind_mem hd) (by decide)⟩
  have hcFamily : CFamily.rules.FindsNames := fun source n d hd =>
    ⟨CFamily.not_blank source n d hd, Node.isComment_eq_false (CFamily.kind_mem hd) (by decide)⟩
  cases l <;> simp only [Rules.ofLanguage?, Option.some.injEq, reduceCtorEq] at h <;> subst h
  case python =>
    exact fun source n d hd =>
      ⟨Python.not_blank source n d hd, Node.isComment_eq_false (Python.kind_mem hd) (by decide)⟩
  case rust =>
    intro source n d hd
    have hkind := Rust.kind_mem hd
    have hattribute : ∀ kind ∈ Rust.itemKinds, (kind == "attribute_item") = false := by decide
    refine ⟨Rust.not_blank source n d hd, Bool.or_eq_false_iff.mpr ⟨?_, hattribute n.kind hkind⟩⟩
    exact Node.isComment_eq_false hkind (by decide)
  case javaScript => exact hjavaScript
  case typeScript => exact hjavaScript
  case tsx => exact hjavaScript
  case go =>
    exact fun source n d hd =>
      ⟨Go.not_blank hd, Node.isComment_eq_false (Go.kind_mem hd) (by decide)⟩
  case java =>
    intro source n d hd
    obtain ⟨hblank, role, hrole⟩ := Java.not_blank hd
    exact ⟨hblank, Node.isComment_eq_false (Java.kind_mem hrole) (by decide)⟩
  case c => exact hcFamily
  case cpp => exact hcFamily

end SourceIndex
