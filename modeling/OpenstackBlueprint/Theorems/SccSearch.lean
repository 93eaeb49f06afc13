import OpenstackBlueprint.Kit.Components
import OpenstackBlueprint.Gates.ReadinessDeadlock

/-!
# The component search of the deadlock gate

`sccs_of` visits the keys of the graph and then the successors, so it comes to
every node, and what it emits are the strong components (`Kit.Components`). A
component that `cycles_of` keeps has two nodes that reach each other or a node
with an edge to itself.
-/

namespace OpenstackBlueprint.Theorems.SccSearch

open Kit Gates

section Search

variable {graph : Dict Node (List Node)}

/-- A node of the graph: a key, or a successor of one. -/
def IsNode (graph : Dict Node (List Node)) (n : Node) : Prop :=
  n ∈ graph.keys ∨ ∃ a, n ∈ successors graph a

/-- There is a path from `a` to `b`. -/
def Leads (graph : Dict Node (List Node)) (a b : Node) : Prop :=
  Relation.ReflTransGen (fun x y => y ∈ successors graph x) a b

/-- The graph has a directed cycle; an edge from a node to itself is one. -/
def HasCycle (graph : Dict Node (List Node)) : Prop :=
  ∃ n, Relation.TransGen (fun x y => y ∈ successors graph x) n n

theorem mem_sccRoots {n : Node} : n ∈ sccRoots graph ↔ IsNode graph n := by
  constructor
  · intro h
    unfold sccRoots at h
    rw [List.mem_append, mem_sortNodes, mem_sortNodes, List.mem_dedup] at h
    refine h.imp_right fun h => ?_
    obtain ⟨succ, hsucc, hn⟩ := List.mem_flatMap.mp h
    obtain ⟨e, he, rfl⟩ := List.mem_map.mp hsucc
    refine ⟨e.1, ?_⟩
    unfold successors
    rw [Dict.get?_of_mem_entries (show (e.1, e.2) ∈ graph.entries from he)]
    exact hn
  · rintro (h | ⟨a, ha⟩)
    · exact List.mem_append_left _ (mem_sortNodes.mpr h)
    · exact (mem_sccRoots_of_successors ha).2

theorem isNode_of_leads {a b : Node} (ha : IsNode graph a) (hab : Leads graph a b) :
    IsNode graph b := by
  rcases Relation.ReflTransGen.cases_tail hab with rfl | ⟨c, _, hcb⟩
  · exact ha
  · exact .inr ⟨c, hcb⟩

/-- The search runs to its end within the bound. -/
theorem sccs_eq_sccsOf (graph : Dict Node (List Node)) :
    Tarjan.sccs (fun n => sortNodes (successors graph n)) (sccRoots graph) (sccFuel graph) =
      some (sccsOf graph) :=
  (Option.some_get _).symm

/-- Paths over the sorted successors are paths of the graph. -/
theorem reaches_iff_leads {a b : Node} :
    Tarjan.Reaches (fun n => sortNodes (successors graph n)) a b ↔ Leads graph a b := by
  unfold Tarjan.Reaches Leads
  simp only [mem_sortNodes]

/-- Nodes of one emitted list reach each other, and a node reached back and
forth is in the same list. -/
theorem mem_scc_iff {c : List Node} (hc : c ∈ sccsOf graph) {a b : Node} (ha : a ∈ c) :
    b ∈ c ↔ Leads graph a b ∧ Leads graph b a := by
  obtain ⟨_, _, _, hmutual⟩ := Tarjan.sccs_components (sccs_eq_sccsOf graph)
  rw [hmutual c hc a ha b, ← reaches_iff_leads, ← reaches_iff_leads]
  rfl

/-- The emitted lists hold the nodes of the graph. -/
theorem mem_sccsOf_iff {n : Node} : (∃ c ∈ sccsOf graph, n ∈ c) ↔ IsNode graph n := by
  obtain ⟨_, _, hcover, _⟩ := Tarjan.sccs_components (sccs_eq_sccsOf graph)
  rw [hcover]
  constructor
  · rintro ⟨r, hr, hrn⟩
    exact isNode_of_leads (mem_sccRoots.mp hr) (reaches_iff_leads.mp hrn)
  · exact fun h => ⟨n, mem_sccRoots.mpr h, .refl⟩

/-- A node of a kept component leads back to itself. -/
theorem transGen_of_mem_cyclesOf {c : List Node} (hc : c ∈ cyclesOf graph) {a : Node}
    (ha : a ∈ c) : Relation.TransGen (fun x y => y ∈ successors graph x) a a := by
  obtain ⟨hscc, hkept⟩ := List.mem_filter.mp hc
  obtain ⟨_, hnodup, _, _⟩ := Tarjan.sccs_components (sccs_eq_sccsOf graph)
  have hnodupc : c.Nodup := (List.nodup_flatten.mp hnodup).1 c hscc
  rw [Bool.or_eq_true, decide_eq_true_eq] at hkept
  rcases hkept with hlong | hloop
  · -- a second node, which leads to the first and back
    obtain ⟨b, hb, hne⟩ : ∃ b ∈ c, a ≠ b := by
      by_contra hall
      push Not at hall
      have hsub : c ⊆ [a] := fun b hb => List.mem_singleton.mpr (hall b hb).symm
      have hle := (hnodupc.subperm hsub).length_le
      rw [List.length_singleton] at hle
      omega
    obtain ⟨hab, hba⟩ := (mem_scc_iff hscc ha).mp hb
    rcases Relation.ReflTransGen.cases_head hab with heq | ⟨d, had, hdb⟩
    · exact absurd heq hne
    · exact .head' had (hdb.trans hba)
  · -- a node with an edge to itself
    obtain ⟨n, hn, hloop⟩ := (Option.any_eq_true _ _).mp hloop
    obtain ⟨han, hna⟩ := (mem_scc_iff hscc ha).mp (List.mem_of_mem_head? hn)
    have hself : Relation.TransGen (fun x y => y ∈ successors graph x) n n :=
      .single (of_decide_eq_true hloop)
    exact .trans_right han (hself.trans_left hna)

/-- A kept component has a cycle. -/
theorem hasCycle_of_cyclesOf (h : cyclesOf graph ≠ []) : HasCycle graph := by
  obtain ⟨c, hc⟩ := List.exists_mem_of_ne_nil _ h
  obtain ⟨hne, _⟩ := Tarjan.sccs_components (sccs_eq_sccsOf graph)
  obtain ⟨a, ha⟩ := List.exists_mem_of_ne_nil c (hne c (List.mem_filter.mp hc).1)
  exact ⟨a, transGen_of_mem_cyclesOf hc ha⟩

theorem cyclesOf_ne_nil_iff : cyclesOf graph ≠ [] ↔ HasCycle graph := by
  refine ⟨hasCycle_of_cyclesOf, ?_⟩
  rintro ⟨n, hn⟩ hnil
  exact acyclic_of_cyclesOf hnil n hn

end Search

/-- `sccs_of` ends, and it partitions the nodes of the graph into the classes of
nodes that reach each other; `cycles_of` finds something exactly when there is a
cycle. -/
theorem sccs_of_correct (graph : Dict Node (List Node)) :
    Tarjan.sccs (fun n => sortNodes (successors graph n)) (sccRoots graph) (sccFuel graph) =
        some (sccsOf graph) ∧
      (∀ c ∈ sccsOf graph, c ≠ []) ∧ (sccsOf graph).flatten.Nodup ∧
      (∀ n, n ∈ (sccsOf graph).flatten ↔ IsNode graph n) ∧
      (∀ a b, IsNode graph a → IsNode graph b →
        ((∃ c ∈ sccsOf graph, a ∈ c ∧ b ∈ c) ↔ Leads graph a b ∧ Leads graph b a)) ∧
      (cyclesOf graph ≠ [] ↔ HasCycle graph) := by
  obtain ⟨hne, hnodup, _, _⟩ := Tarjan.sccs_components (sccs_eq_sccsOf graph)
  refine ⟨sccs_eq_sccsOf graph, hne, hnodup, fun n => ?_, fun a b ha _ => ⟨?_, fun hab => ?_⟩,
    cyclesOf_ne_nil_iff⟩
  · rw [List.mem_flatten]
    exact mem_sccsOf_iff
  · rintro ⟨c, hc, hac, hbc⟩
    exact (mem_scc_iff hc hac).mp hbc
  · obtain ⟨c, hc, hac⟩ := mem_sccsOf_iff.mpr ha
    exact ⟨c, hc, hac, (mem_scc_iff hc hac).mpr hab⟩

end OpenstackBlueprint.Theorems.SccSearch
