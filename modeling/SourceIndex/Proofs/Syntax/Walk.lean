import Mathlib
import SourceIndex.Proofs.Syntax.Body

/-! # Walks through a tree

A walk that stops at some nodes, and the whole walks below those nodes, together are the whole walk
(`Node.perm_walk`). If nodes are told apart by their ids, a walk that stops at named children of one
node stops at each of them and at no other node (`Node.Sound.stops_perm`).
-/

set_option autoImplicit false

namespace SourceIndex

namespace Node

/-- A tree whose nodes have different ids, and in which no named node lies right below one without a
name. -/
structure Sound (root : Node) : Prop where
  distinct : (root.nodes.map fun n => n.id).Nodup
  bare : ∀ n ∈ root.nodes, n.named = false → n.namedChildren = []

instance (root : Node) : Decidable root.Sound :=
  decidable_of_iff ((root.nodes.map fun n => n.id).Nodup ∧
      ∀ n ∈ root.nodes, n.named = false → n.namedChildren = [])
    ⟨fun h => ⟨h.1, h.2⟩, fun h => ⟨h.distinct, h.bare⟩⟩

/-! ## Nodes of subtrees -/

theorem nodesIn_eq (ns : List Node) : nodesIn ns = ns.flatMap nodes := by
  induction ns with
  | nil => rfl
  | cons n ns ih => rw [nodesIn, ih, List.flatMap_cons]

/-- The nodes of a subtree stand in the same order in the tree. -/
theorem nodes_sublist {n m : Node} (h : m ∈ n.nodes) : m.nodes.Sublist n.nodes := by
  rcases eq_or_mem_of_mem_nodes h with rfl | ⟨c, hc, hm⟩
  · exact List.Sublist.refl _
  · have hsiblings : c.nodes.Sublist (nodesIn n.children) := by
      rw [nodesIn_eq, ← List.flatMap_singleton nodes c]
      exact (List.singleton_sublist.mpr hc).flatMap nodes
    rw [nodes_eq n]
    exact ((nodes_sublist hm).trans hsiblings).cons n
termination_by sizeOf n
decreasing_by exact sizeOf_lt_of_mem hc

theorem sizeOf_le_of_mem_nodes {n m : Node} (h : m ∈ n.nodes) : sizeOf m ≤ sizeOf n := by
  rcases eq_or_mem_of_mem_nodes h with rfl | ⟨c, hc, hm⟩
  · exact le_refl _
  · exact (sizeOf_le_of_mem_nodes hm).trans (sizeOf_lt_of_mem hc).le
termination_by sizeOf n
decreasing_by exact sizeOf_lt_of_mem hc

theorem Sound.of_mem {n m : Node} (h : n.Sound) (hm : m ∈ n.nodes) : m.Sound where
  distinct := h.distinct.sublist ((nodes_sublist hm).map _)
  bare k hk := h.bare k (mem_nodes_trans hm hk)

theorem Sound.eq_of_id_eq {n a b : Node} (h : n.Sound) (ha : a ∈ n.nodes) (hb : b ∈ n.nodes)
    (hid : a.id = b.id) : a = b :=
  List.inj_on_of_nodup_map h.distinct ha hb hid

/-! ## Walks -/

variable {stop : Node → Bool}

theorem walk_of_stop {n : Node} (h : stop n = true) : n.walk stop = [n] := by
  rw [walk, if_pos h]

theorem walk_of_go {n : Node} (h : stop n = false) :
    n.walk stop = n :: n.namedChildren.flatMap (walk stop) := by
  rw [walk, if_neg (by simp [h])]
  simp [List.flatMap_subtype]

theorem self_mem_walk (stop : Node → Bool) (n : Node) : n ∈ n.walk stop := by
  cases h : stop n with
  | true =>
    rw [walk_of_stop h]
    exact List.mem_singleton_self n
  | false =>
    rw [walk_of_go h]
    exact List.mem_cons_self

/-- A walk meets nodes of the tree in their order. -/
theorem walk_sublist (stop : Node → Bool) (n : Node) : (n.walk stop).Sublist n.nodes := by
  rw [nodes_eq]
  cases h : stop n with
  | true =>
    rw [walk_of_stop h]
    exact (List.nil_sublist _).cons_cons n
  | false =>
    rw [walk_of_go h, nodesIn_eq]
    refine List.Sublist.cons_cons n ?_
    calc n.namedChildren.flatMap (walk stop)
      List.Sublist _ (n.namedChildren.flatMap nodes) :=
        List.Sublist.flatMap_right _ fun m hm => walk_sublist stop m
      List.Sublist _ (n.children.flatMap nodes) := List.filter_sublist.flatMap nodes
termination_by sizeOf n
decreasing_by exact sizeOf_lt_of_mem_named hm

/-- What a walk meets and does not stop at, and what the whole walks below its stops meet, is what the
whole walk meets. -/
theorem perm_walk (stop : Node → Bool) (n : Node) :
    (((n.walk stop).filter fun m => !stop m) ++
      ((n.walk stop).filter stop).flatMap (walk fun _ => false)).Perm (n.walk fun _ => false) := by
  cases h : stop n with
  | true => simp [walk_of_stop h, h]
  | false =>
    have hwhole : (n.walk fun _ => false) = n :: n.namedChildren.flatMap (walk fun _ => false) :=
      walk_of_go rfl
    rw [walk_of_go h, hwhole, List.filter_cons_of_pos (by simp [h]),
      List.filter_cons_of_neg (by simp [h]), List.cons_append, List.filter_flatMap,
      List.filter_flatMap, List.flatMap_assoc]
    apply List.Perm.cons
    refine (List.flatMap_append_perm _ _ _).trans (List.Perm.flatMap_left _ fun m hm => ?_)
    exact perm_walk stop m
termination_by sizeOf n
decreasing_by exact sizeOf_lt_of_mem_named hm

/-- A walk goes on below the nodes it does not stop at. -/
theorem child_mem_walk {n b k : Node} (hb : b ∈ n.walk stop) (hgo : stop b = false)
    (hk : k ∈ b.namedChildren) : k ∈ n.walk stop := by
  cases h : stop n with
  | true =>
    rw [walk_of_stop h] at hb
    rw [List.mem_singleton.mp hb] at hgo
    simp [h] at hgo
  | false =>
    rw [walk_of_go h] at hb ⊢
    rcases List.mem_cons.mp hb with rfl | hb
    · exact List.mem_cons_of_mem _ (List.mem_flatMap.mpr ⟨k, hk, self_mem_walk stop k⟩)
    · obtain ⟨m, hm, hb⟩ := List.mem_flatMap.mp hb
      exact List.mem_cons_of_mem _ (List.mem_flatMap.mpr ⟨m, hm, child_mem_walk hb hgo hk⟩)
termination_by sizeOf n
decreasing_by exact sizeOf_lt_of_mem_named hm

/-- A node is met if the walk stops nowhere around it. -/
theorem mem_walk_of_go {n b : Node} (hb : b ∈ n.walk fun _ => false)
    (hgo : ∀ m ∈ n.nodes, sizeOf b ≤ sizeOf m → stop m = false) : b ∈ n.walk stop := by
  have hnode := (walk_sublist _ n).subset hb
  have hn := hgo n n.mem_nodes_self (sizeOf_le_of_mem_nodes hnode)
  rw [walk_of_go hn]
  rw [walk_of_go rfl] at hb
  rcases List.mem_cons.mp hb with rfl | hb
  · exact List.mem_cons_self
  · obtain ⟨m, hm, hb⟩ := List.mem_flatMap.mp hb
    have hmem := child_mem_nodes (mem_of_mem_named hm)
    refine List.mem_cons_of_mem _ (List.mem_flatMap.mpr ⟨m, hm, mem_walk_of_go hb fun k hk => ?_⟩)
    exact hgo k (mem_nodes_trans hmem hk)
termination_by sizeOf n
decreasing_by exact sizeOf_lt_of_mem_named hm

/-- Below a node without a name no node has one, if no named node lies right below one without. -/
theorem named_eq_false {n b : Node} (hbare : ∀ m ∈ n.nodes, m.named = false → m.namedChildren = [])
    (hn : n.named = false) (hb : b ∈ n.nodes) : b.named = false := by
  rcases eq_or_mem_of_mem_nodes hb with rfl | ⟨m, hm, hbm⟩
  · exact hn
  · -- a child with a name would be a named child of `n`
    have hm' : m.named = false := by
      by_contra hnamed
      have hmem : m ∈ n.namedChildren := List.mem_filter.mpr ⟨hm, by simpa using hnamed⟩
      rw [hbare n n.mem_nodes_self hn] at hmem
      cases hmem
    exact named_eq_false (fun k hk => hbare k (mem_nodes_of_child hm hk)) hm' hbm
termination_by sizeOf n
decreasing_by exact sizeOf_lt_of_mem hm

/-- The whole walk meets every node that has named children. -/
theorem Sound.mem_walk {n b : Node} (h : n.Sound) (hb : b ∈ n.nodes) (hne : b.namedChildren ≠ []) :
    b ∈ n.walk fun _ => false := by
  rw [walk_of_go rfl]
  rcases eq_or_mem_of_mem_nodes hb with rfl | ⟨m, hm, hbm⟩
  · exact List.mem_cons_self
  · have hsub := h.of_mem (child_mem_nodes hm)
    cases hnamed : m.named with
    | true =>
      have hm' : m ∈ n.namedChildren := List.mem_filter.mpr ⟨hm, hnamed⟩
      exact List.mem_cons_of_mem _ (List.mem_flatMap.mpr ⟨m, hm', hsub.mem_walk hbm hne⟩)
    | false => exact absurd (hsub.bare b hbm (named_eq_false hsub.bare hnamed hbm)) hne
termination_by sizeOf n
decreasing_by exact sizeOf_lt_of_mem hm

/-! ## Stops at some children of a node -/

theorem sublist_flatMap_nodes (ns : List Node) : ns.Sublist (ns.flatMap nodes) := by
  calc ns
    _ = ns.flatMap fun n => [n] := (List.flatMap_singleton' ns).symm
    List.Sublist _ (ns.flatMap nodes) :=
      List.Sublist.flatMap_right ns fun n _ => List.singleton_sublist.mpr n.mem_nodes_self

theorem namedChildren_sublist (n : Node) : n.namedChildren.Sublist n.nodes := by
  rw [nodes_eq, nodesIn_eq]
  exact (List.filter_sublist.trans (sublist_flatMap_nodes n.children)).cons n

/-- A walk that stops at some of the named children of one node meets exactly these among its stops. -/
theorem Sound.stops_perm {n b : Node} (h : n.Sound) (hb : b ∈ n.nodes) {ks : List Node}
    (hks : ks.Sublist b.namedChildren) :
    ((n.walk fun m => (ks.map fun k => k.id).contains m.id).filter
      fun m => (ks.map fun k => k.id).contains m.id).Perm ks := by
  have hmem : ∀ k ∈ ks, k ∈ n.nodes ∧ sizeOf k < sizeOf b := fun k hk =>
    have hchild := hks.subset hk
    ⟨mem_nodes_trans hb (child_mem_nodes (mem_of_mem_named hchild)), sizeOf_lt_of_mem_named hchild⟩
  -- ids tell the nodes apart, so only the nodes `ks` themselves have their ids
  have hstop : ∀ m ∈ n.nodes, (ks.map fun k => k.id).contains m.id = true ↔ m ∈ ks := by
    intro m hm
    rw [List.contains_iff_mem, List.mem_map]
    constructor
    · rintro ⟨k, hk, hid⟩
      rwa [← h.eq_of_id_eq (hmem k hk).1 hm hid]
    · exact fun hk => ⟨m, hk, rfl⟩
  have hnodup : n.nodes.Nodup := List.Nodup.of_map _ h.distinct
  have hnodup' : ks.Nodup := hnodup.sublist
    (hks.trans ((namedChildren_sublist b).trans (nodes_sublist hb)))
  rw [List.perm_ext_iff_of_nodup ((hnodup.sublist (walk_sublist _ n)).filter _) hnodup']
  intro k
  rw [List.mem_filter]
  constructor
  · rintro ⟨hk, hid⟩
    exact (hstop k ((walk_sublist _ n).subset hk)).mp hid
  · intro hk
    have hne : b.namedChildren ≠ [] := List.ne_nil_of_mem (hks.subset hk)
    -- the walk stops at nothing as large as `b`, so it meets `b` and goes on below it
    have hgo : ∀ m ∈ n.nodes, sizeOf b ≤ sizeOf m →
        (ks.map fun k => k.id).contains m.id = false := by
      intro m hm hle
      by_contra hcontains
      have hmk := (hstop m hm).mp (by simpa using hcontains)
      have := (hmem m hmk).2
      omega
    have hmeets := mem_walk_of_go (h.mem_walk hb hne) hgo
    refine ⟨child_mem_walk hmeets (hgo b hb (le_refl _)) (hks.subset hk), ?_⟩
    exact (hstop k (hmem k hk).1).mpr hk

end Node

end SourceIndex
