import Mathlib
import SourceIndex.Proofs.Syntax.Rows
import SourceIndex.Syntax.Rules

/-! # Bodies of definitions

In every language, the body of a definition is a node below the outermost node of the definition,
also where the definition is found under decorators, an export or a template
(`Rules.bodyInside_ofLanguage`).
-/

set_option autoImplicit false

namespace SourceIndex

namespace Node

theorem mem_of_child? {n m : Node} {field : String} (h : n.child? field = some m) :
    m ∈ n.children := List.mem_of_find?_eq_some h

theorem mem_of_mem_named {n m : Node} (h : m ∈ n.namedChildren) : m ∈ n.children :=
  (List.mem_filter.mp h).1

theorem named_of_mem_named {n m : Node} (h : m ∈ n.namedChildren) : m.named = true :=
  (List.mem_filter.mp h).2

end Node

/-- The body of a definition is a node below its outermost one. -/
def Definition.BodyInside {outer : Node} (d : Definition outer) : Prop :=
  ∀ body, d.body = some body → body ∈ outer.nodes

namespace Definition

theorem bodyInside_ofNode (role : Role) (name : String) (n : Node) :
    (ofNode role name n).BodyInside := by
  intro body hbody
  exact Node.child_mem_nodes (Node.mem_of_child? hbody)

theorem bodyInside_of_named {n : Node} {role : Role} {name? : Option String} {d : Definition n}
    (h : (name?.map fun name => ofNode role name n) = some d) : d.BodyInside := by
  obtain ⟨name, -, rfl⟩ := Option.map_eq_some_iff.mp h
  exact bodyInside_ofNode role name n

/-- A definition that is found at a node also has its body inside a parent of that node. -/
theorem BodyInside.widen {n m : Node} {d : Definition m} (hd : d.BodyInside)
    (h : sizeOf m < sizeOf n) (hm : m ∈ n.children) : (d.widen n h).BodyInside := by
  intro body hbody
  exact Node.mem_nodes_of_child hm (hd body hbody)

end Definition

/-- The rules find definitions with their bodies inside. -/
def Rules.BodyInside (rules : Rules) : Prop :=
  ∀ source n d, rules.definition? source n = some d → d.BodyInside

open Definition

theorem Python.bodyInside (source : String) (n : Node) (d : Definition n)
    (h : definition? source n = some d) : d.BodyInside := by
  rw [definition?] at h
  split at h
  · exact bodyInside_of_named h
  · split at h
    · exact bodyInside_of_named h
    · split at h
      · split at h
        · cases h
        · rename_i m hm
          obtain ⟨inner, hinner, rfl⟩ := Option.map_eq_some_iff.mp h
          have hchild := Node.mem_of_child? hm
          exact (Python.bodyInside source m inner hinner).widen _ hchild
      · cases h
termination_by sizeOf n
decreasing_by exact Node.sizeOf_lt_of_mem hchild

theorem Rust.bodyInside (source : String) (n : Node) (d : Definition n)
    (h : definition? source n = some d) : d.BodyInside := by
  rw [definition?] at h
  split at h
  · exact bodyInside_of_named h
  · obtain ⟨role, -, h⟩ := Option.bind_eq_some_iff.mp h
    obtain ⟨name, -, h⟩ := Option.bind_eq_some_iff.mp h
    obtain rfl := Option.some.inj h
    exact bodyInside_ofNode role name n

theorem Java.bodyInside (source : String) (n : Node) (d : Definition n)
    (h : definition? source n = some d) : d.BodyInside := by
  obtain ⟨role, -, h⟩ := Option.bind_eq_some_iff.mp h
  obtain ⟨name, -, h⟩ := Option.bind_eq_some_iff.mp h
  obtain rfl := Option.some.inj h
  exact bodyInside_ofNode role name n

/-- The body of a single type is the type itself, a child of the specification. -/
theorem Go.bodyInside (source : String) (n : Node) (d : Definition n)
    (h : definition? source n = some d) : d.BodyInside := by
  rw [definition?] at h
  split at h
  · exact bodyInside_of_named h
  · split at h
    · obtain ⟨name, -, rfl⟩ := Option.map_eq_some_iff.mp h
      exact bodyInside_ofNode .method name n
    · split at h
      · split at h
        · rename_i spec hspec
          obtain ⟨name, -, rfl⟩ := Option.map_eq_some_iff.mp h
          have hmem : spec ∈ typeSpecs n := hspec ▸ List.mem_singleton_self spec
          have hchild : spec ∈ n.children := Node.mem_of_mem_named (List.mem_filter.mp hmem).1
          intro body hbody
          exact Node.mem_nodes_of_child hchild (Node.child_mem_nodes (Node.mem_of_child? hbody))
        · cases h
      · cases h

/-- The body is found in the value of the only variable of the declaration. -/
theorem JavaScript.bodyInside_variableFunction (source : String) (n : Node) (d : Definition n)
    (h : variableFunction? source n = some d) : d.BodyInside := by
  rw [variableFunction?] at h
  split at h
  · rename_i declarator hdeclarator
    split at h
    · cases h
    · rename_i value hvalue
      split at h
      · obtain ⟨name, -, rfl⟩ := Option.map_eq_some_iff.mp h
        have hmem : declarator ∈ declarators n := hdeclarator ▸ List.mem_singleton_self declarator
        have hchild : declarator ∈ n.children := Node.mem_of_mem_named (List.mem_filter.mp hmem).1
        intro body hbody
        exact Node.mem_nodes_of_child hchild (Node.mem_nodes_of_child (Node.mem_of_child? hvalue)
          (bodyInside_ofNode .function name value body hbody))
      · cases h
  · cases h

theorem JavaScript.bodyInside (source : String) (n : Node) (d : Definition n)
    (h : definition? source n = some d) : d.BodyInside := by
  rw [definition?] at h
  split at h
  · exact bodyInside_variableFunction source n d h
  · split at h
    · split at h
      · cases h
      · rename_i m hm
        obtain ⟨inner, hinner, rfl⟩ := Option.map_eq_some_iff.mp h
        have hchild := Node.mem_of_child? hm
        exact (JavaScript.bodyInside source m inner hinner).widen _ hchild
    · obtain ⟨role, -, h⟩ := Option.bind_eq_some_iff.mp h
      obtain ⟨name, -, h⟩ := Option.bind_eq_some_iff.mp h
      obtain rfl := Option.some.inj h
      exact bodyInside_ofNode role name n
termination_by sizeOf n
decreasing_by exact Node.sizeOf_lt_of_mem hchild

theorem CFamily.bodyInside (source : String) (n : Node) (d : Definition n)
    (h : definition? source n = some d) : d.BodyInside := by
  rw [definition?] at h
  split at h
  · obtain ⟨declarator, -, h⟩ := Option.bind_eq_some_iff.mp h
    obtain ⟨inner, -, h⟩ := Option.bind_eq_some_iff.mp h
    obtain ⟨name, -, h⟩ := Option.bind_eq_some_iff.mp h
    obtain rfl := Option.some.inj h
    exact bodyInside_ofNode _ name n
  · split at h
    · obtain ⟨-, -, h⟩ := Option.bind_eq_some_iff.mp h
      obtain ⟨name, -, h⟩ := Option.bind_eq_some_iff.mp h
      obtain rfl := Option.some.inj h
      exact bodyInside_ofNode _ name n
    · split at h
      · exact bodyInside_of_named h
      · split at h
        · obtain ⟨⟨m, hm⟩, -, h⟩ := List.exists_of_findSome?_eq_some h
          obtain ⟨inner, hinner, rfl⟩ := Option.map_eq_some_iff.mp h
          have hchild := Node.mem_of_mem_named hm
          intro body hbody
          exact Node.mem_nodes_of_child hchild
            (CFamily.bodyInside source m inner hinner body hbody)
        · cases h
termination_by sizeOf n
decreasing_by exact Node.sizeOf_lt_of_mem hchild

/-- In every language, the bodies of definitions are inside. -/
theorem Rules.bodyInside_ofLanguage {l : Language} {rules : Rules}
    (h : Rules.ofLanguage? l = some rules) : rules.BodyInside := by
  cases l <;> simp only [Rules.ofLanguage?, Option.some.injEq, reduceCtorEq] at h <;> subst h
  case python => exact Python.bodyInside
  case rust => exact Rust.bodyInside
  case javaScript => exact JavaScript.bodyInside
  case typeScript => exact JavaScript.bodyInside
  case tsx => exact JavaScript.bodyInside
  case go => exact Go.bodyInside
  case java => exact Java.bodyInside
  case c => exact CFamily.bodyInside
  case cpp => exact CFamily.bodyInside

end SourceIndex
