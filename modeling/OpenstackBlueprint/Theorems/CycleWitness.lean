import OpenstackBlueprint.Theorems.DeadlockGate
import OpenstackBlueprint.Theorems.SccSearch

/-!
# The cycle the deadlock gate reports

`witness` looks for a cycle inside a component, breadth first from its least
member. A closed walk through that member never leaves the component, since its
nodes reach each other, so the search inside the component misses none
(`chain_inside`), and what it returns is shortest in the whole graph
(`Kit.Bfs.search_shortest`). A component that `cycles_of` keeps has a closed walk
through each of its members, so the queue does not run empty. `main` looks up the
reason of each step, and every edge of the graph has one.
-/

namespace OpenstackBlueprint.Theorems.CycleWitness

open Kit Gates SccSearch

/-- An edge of the graph. -/
def Waits (graph : Dict Node (List Node)) (a b : Node) : Prop := b ∈ successors graph a

/-- The steps `witness` follows. -/
def Inside (graph : Dict Node (List Node)) (scc : List Node) : Node → Node → Prop :=
  Bfs.Step (fun n => sortNodes (successors graph n)) scc

section Component

variable {graph : Dict Node (List Node)} {scc : List Node}

theorem waits_of_inside {a b : Node} (h : Inside graph scc a b) : Waits graph a b :=
  mem_sortNodes.mp h.1

theorem leads_of_chain {n : Nat} {a b : Node} (h : Chain (Waits graph) n a b) :
    Leads graph a b := by
  induction h with
  | nil a => exact .refl
  | cons hab _ ih => exact .head hab ih

/-- A walk from a member to a node that leads back stays inside. -/
theorem chain_inside (hscc : scc ∈ sccsOf graph) {n : Nat} {a b : Node} (ha : a ∈ scc)
    (h : Chain (Waits graph) n a b) (hback : Leads graph b a) : Chain (Inside graph scc) n a b := by
  induction n generalizing b with
  | zero =>
    cases h
    exact .nil a
  | succ n ih =>
    have hb : b ∈ scc := (mem_scc_iff hscc ha).mpr ⟨leads_of_chain h, hback⟩
    obtain ⟨c, hac, hcb⟩ := h.unsnoc
    exact (ih hac (.head hcb hback)).snoc ⟨mem_sortNodes.mpr hcb, hb⟩

/-- `sorted(scc)[0]` is the least member. -/
theorem exists_least (hne : scc ≠ []) :
    ∃ start, (sortNodes scc).head? = some start ∧ start ∈ scc ∧
      ∀ n ∈ scc, start.key ≤ n.key := by
  obtain ⟨n, hn⟩ := List.exists_mem_of_ne_nil scc hne
  cases hsorted : sortNodes scc with
  | nil =>
    have hmem := mem_sortNodes.mpr hn
    rw [hsorted] at hmem
    exact absurd hmem List.not_mem_nil
  | cons start rest =>
    have hpairs : (sortNodes scc).Pairwise fun a b => a.key ≤ b.key :=
      List.pairwise_insertionSort _ _
    rw [hsorted, List.pairwise_cons] at hpairs
    refine ⟨start, rfl, mem_sortNodes.mp (hsorted ▸ List.mem_cons_self), fun m hm => ?_⟩
    have hmem := mem_sortNodes.mpr hm
    rw [hsorted] at hmem
    rcases List.mem_cons.mp hmem with rfl | hmem
    · exact le_rfl
    · exact hpairs.1 m hmem

end Component

/-- A path whose steps have reasons is reported. -/
theorem exists_waitReasons {why : Dict (Node × Node) String} {path : List Node}
    (h : path.IsChain fun a b => ∃ reason, why.get? (a, b) = some reason) :
    ∃ reasons, waitReasons why path = some reasons := by
  induction path with
  | nil => exact ⟨[], rfl⟩
  | cons a rest ih =>
    cases rest with
    | nil => exact ⟨[], rfl⟩
    | cons b rest =>
      obtain ⟨⟨reason, hreason⟩, hrest⟩ := List.isChain_cons_cons.mp h
      obtain ⟨reasons, hreasons⟩ := ih hrest
      refine ⟨reason :: reasons, ?_⟩
      unfold waitReasons at hreasons ⊢
      rw [List.tail_cons] at hreasons ⊢
      rw [List.zip_cons_cons, List.mapM_cons, hreason, hreasons]
      rfl

/-- `witness` returns a closed walk through the least member of the component,
inside it and along edges of the graph, and no closed walk through that member is
shorter. On a graph from `build_graph` the report finds the reason of every step. -/
theorem witness_shortest_cycle {graph : Dict Node (List Node)} {scc : List Node}
    (hscc : scc ∈ cyclesOf graph) :
    ∃ start path, start ∈ scc ∧ (∀ n ∈ scc, start.key ≤ n.key) ∧
      (∀ fuel, scc.length + 1 < fuel → witness fuel graph scc = some path) ∧
      ClosedWalk (Waits graph) start path ∧ (∀ n ∈ path, n ∈ scc) ∧
      (∀ a other, ClosedWalk (Waits graph) a other → start ∈ other →
        path.length ≤ other.length) ∧
      ∀ charts comps relaxedEdges workloads owners,
        graph = (buildGraph charts comps relaxedEdges workloads owners).graph →
        ∃ reasons, waitReasons (buildGraph charts comps relaxedEdges workloads owners).why path =
          some reasons := by
  have hmem : scc ∈ sccsOf graph := (List.mem_filter.mp hscc).1
  obtain ⟨hne, _⟩ := Tarjan.sccs_components (sccs_eq_sccsOf graph)
  obtain ⟨start, hhead, hstart, hleast⟩ := exists_least (hne scc hmem)
  -- a closed walk through the member is one inside
  have hinside : ∀ {n}, Chain (Waits graph) n start start →
      Chain (Inside graph scc) n start start := fun h => chain_inside hmem hstart h .refl
  obtain ⟨n, hn⟩ := exists_chain_of_transGen (transGen_of_mem_cyclesOf hscc hstart)
  have hfuel : (Bfs.init start).queue.length + (scc.length - (Bfs.init start).prev.keys.length) <
      scc.length + 2 := by
    show 1 + (scc.length - 0) < scc.length + 2
    omega
  obtain ⟨path, hsearch, hwalk, hshort⟩ :=
    Bfs.search_shortest (Bfs.inv_init (Inside graph scc) start) hfuel (hinside hn)
  have hwaits : ClosedWalk (Waits graph) start path := hwalk.imp fun _ _ => waits_of_inside
  refine ⟨start, path, hstart, hleast, fun fuel hlt => ?_, hwaits,
    hwalk.forall_mem hstart fun _ _ h => h.2, fun a other hother hthrough => ?_, ?_⟩
  · unfold witness
    rw [hhead]
    exact Bfs.search_mono hlt hsearch
  · obtain ⟨m, hlen, hm⟩ := hother.chain_through hthrough
    rw [hlen]
    exact hshort m (hinside hm)
  · rintro charts comps relaxedEdges workloads owners rfl
    exact exists_waitReasons (hwaits.along.imp fun _ _ h => exists_why h)

/-- The graph of the relaxed install with its edge tightened. -/
def tightened : WaitGraph :=
  let i := DeadlockGate.relaxedInstall
  buildGraph i.charts i.comps [] (workloadsByName i.charts) i.owners

/-- neutron's agent waits for nova's API, and nova is created once neutron is Ready. -/
def tightenedCycle : List Node :=
  [.creation "nova", .workload "nova" "Deployment/nova-api-osapi",
    .workload "neutron" "DaemonSet/neutron-dhcp-agent", .composition "neutron"]

/-- The cycle as it is reported, from neutron's Composition once around. -/
def tightenedPath : List Node := tightenedCycle.reverse ++ [.composition "neutron"]

/-- The tightened edge is reported with its reasons, by the shortest cycle. -/
theorem tightened_reported :
    tightenedCycle ∈ cyclesOf tightened.graph ∧
      witness 6 tightened.graph tightenedCycle = some tightenedPath ∧
      (∃ reasons, waitReasons tightened.why tightenedPath = some reasons) ∧
      ∀ a other, ClosedWalk (Waits tightened.graph) a other → .composition "neutron" ∈ other →
        5 ≤ other.length := by
  have hcycle : tightenedCycle ∈ cyclesOf tightened.graph := by decide
  have heval : witness 6 tightened.graph tightenedCycle = some tightenedPath := by rfl
  obtain ⟨start, path, _, _, hpath, hwalk, _, hshort, hreasons⟩ := witness_shortest_cycle hcycle
  obtain rfl : tightenedPath = path :=
    Option.some.inj (heval.symm.trans (hpath 6 (Nat.lt_succ_self 5)))
  obtain rfl : .composition "neutron" = start := Option.some.inj hwalk.first
  exact ⟨hcycle, heval, hreasons _ _ _ _ _ rfl, hshort⟩

end OpenstackBlueprint.Theorems.CycleWitness
