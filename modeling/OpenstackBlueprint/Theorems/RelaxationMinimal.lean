import OpenstackBlueprint.Theorems.SccSearch
import OpenstackBlueprint.Theorems.DeadlockGate

/-!
# Tightening one relaxation at a time is enough

Tightening an edge replaces the wait of one creation for another by a wait for
the Composition to be Ready. Where the dependency renders a workload, the old
wait is still there as a detour: the Composition waits for the workload, and the
workload for its own creation (`waits_tighter`). So a cycle stays a cycle
however many edges are tightened, and a relax-set from which no single edge can
be taken has no smaller part that would do.
-/

namespace OpenstackBlueprint.Theorems.RelaxationMinimal

open Kit Gates SccSearch

section Tighten

variable {charts : Dict String ChartData} {comps : Dict String (List String)}
  {workloads : Dict String (Dict String Workload)} {owners : Dict String Owner}
  {fewer more : List (String × String)}

/-- `b` is a successor of `a` in the graph for a relax-set. -/
def WaitsOn (charts : Dict String ChartData) (comps : Dict String (List String))
    (workloads : Dict String (Dict String Workload)) (owners : Dict String Owner)
    (relaxed : List (String × String)) (a b : Node) : Prop :=
  b ∈ successors (buildGraph charts comps relaxed workloads owners).graph a

/-- An edge is one of a workload, which no relaxation changes, or one of a
declared dependency. -/
theorem waitsOn_iff {relaxed : List (String × String)} {a b : Node} :
    WaitsOn charts comps workloads owners relaxed a b ↔
      ∃ c data, charts.get? c = some data ∧
        ((∃ w ∈ data.workloads, ∃ e ∈ workloadEdges workloads owners c data w,
            e.src = a ∧ e.dst = b) ∨
          ∃ d ∈ declaredDeps comps c,
            (creationEdge relaxed c d).src = a ∧ (creationEdge relaxed c d).dst = b) := by
  unfold WaitsOn
  rw [mem_successors_buildGraph]
  unfold graphEdges
  constructor
  · rintro ⟨e, he, hsrc, hdst⟩
    obtain ⟨⟨c, data⟩, hc, he⟩ := List.mem_flatMap.mp he
    refine ⟨c, data, mem_sortedItems.mp hc, ?_⟩
    rcases List.mem_append.mp he with he | he
    · obtain ⟨w, hw, he⟩ := List.mem_flatMap.mp he
      exact .inl ⟨w, hw, e, he, hsrc, hdst⟩
    · obtain ⟨d, hd, rfl⟩ := List.mem_map.mp he
      exact .inr ⟨d, hd, hsrc, hdst⟩
  · rintro ⟨c, data, hc, ⟨w, hw, e, he, hsrc, hdst⟩ | ⟨d, hd, hsrc, hdst⟩⟩
    · refine ⟨e, List.mem_flatMap.mpr ⟨(c, data), mem_sortedItems.mpr hc, ?_⟩, hsrc, hdst⟩
      exact List.mem_append_left _ (List.mem_flatMap.mpr ⟨w, hw, he⟩)
    · refine ⟨_, List.mem_flatMap.mpr ⟨(c, data), mem_sortedItems.mpr hc, ?_⟩, hsrc, hdst⟩
      exact List.mem_append_right _ (List.mem_map.mpr ⟨d, hd, rfl⟩)

/-- Every edge of a workload starts at the workload or at its Composition. -/
theorem workloadEdges_src {c : String} {data : ChartData} {w : Workload} {e : Edge}
    (he : e ∈ workloadEdges workloads owners c data w) :
    e.src = .composition c ∨ e.src = wlNode c w := by
  unfold workloadEdges at he
  simp only [List.mem_append, List.mem_flatMap] at he
  rcases he with ((he | ⟨svc, _, he⟩) | ⟨labels, _, he⟩) | ⟨job, _, he⟩
  · unfold childEdges at he
    rcases List.mem_cons.mp he with rfl | he
    · exact .inl rfl
    · rw [List.mem_singleton.mp he]
      exact .inr rfl
  · unfold serviceEdges at he
    split at he
    · exact absurd he List.not_mem_nil
    · obtain ⟨b, _, rfl⟩ := List.mem_map.mp he
      exact .inr rfl
  · obtain ⟨m, _, rfl⟩ := List.mem_map.mp he
    exact .inr rfl
  · unfold jobEdges at he
    split at he
    · exact absurd he List.not_mem_nil
    · rw [List.mem_singleton.mp he]
      exact .inr rfl

/-- What a creation waits for is written down for a component that is rendered. -/
theorem mem_charts_of_creation {relaxed : List (String × String)} {d : String} {b : Node}
    (h : WaitsOn charts comps workloads owners relaxed (.creation d) b) :
    ∃ data, charts.get? d = some data := by
  obtain ⟨c, data, hc, ⟨w, _, e, he, hsrc, _⟩ | ⟨d', _, hsrc, _⟩⟩ := waitsOn_iff.mp h
  · rcases workloadEdges_src he with hsrc' | hsrc'
    · rw [hsrc] at hsrc'
      cases hsrc'
    · rw [hsrc] at hsrc'
      cases hsrc'
  · have : (creationEdge relaxed c d').src = .creation c := by
      unfold creationEdge
      split <;> rfl
    rw [this] at hsrc
    cases hsrc
    exact ⟨data, hc⟩

/-- A Composition with a workload waits, through it, for its own creation. -/
theorem composition_waits_creation {relaxed : List (String × String)} {d : String}
    {data : ChartData} (hd : charts.get? d = some data) (hsome : data.workloads ≠ []) :
    Relation.TransGen (WaitsOn charts comps workloads owners relaxed)
      (.composition d) (.creation d) := by
  obtain ⟨w, hw⟩ := List.exists_mem_of_ne_nil _ hsome
  have hchild : ∀ e ∈ childEdges d data w, e ∈ workloadEdges workloads owners d data w := by
    intro e he
    unfold workloadEdges
    simp only [List.mem_append]
    exact .inl (.inl (.inl he))
  have hdown : WaitsOn charts comps workloads owners relaxed (.composition d) (wlNode d w) :=
    waitsOn_iff.mpr ⟨d, data, hd, .inl ⟨w, hw, _, hchild _ List.mem_cons_self, rfl, rfl⟩⟩
  have hback : WaitsOn charts comps workloads owners relaxed (wlNode d w) (.creation d) :=
    waitsOn_iff.mpr ⟨d, data, hd, .inl ⟨w, hw, _,
      hchild _ (List.mem_cons_of_mem _ List.mem_cons_self), rfl, rfl⟩⟩
  exact .tail (.single hdown) hback

/-- An edge to a node that waits for something is a path after tightening. -/
theorem waits_tighter (hworkloads : ∀ c data, charts.get? c = some data → data.workloads ≠ [])
    (hsub : ∀ e ∈ fewer, e ∈ more) {a b : Node}
    (hab : WaitsOn charts comps workloads owners more a b)
    (hb : ∃ n, WaitsOn charts comps workloads owners more b n) :
    Relation.TransGen (WaitsOn charts comps workloads owners fewer) a b := by
  obtain ⟨c, data, hc, hwork | ⟨d, hd, rfl, rfl⟩⟩ := waitsOn_iff.mp hab
  · exact .single (waitsOn_iff.mpr ⟨c, data, hc, .inl hwork⟩)
  · have hedge : WaitsOn charts comps workloads owners fewer
        (creationEdge fewer c d).src (creationEdge fewer c d).dst :=
      waitsOn_iff.mpr ⟨c, data, hc, .inr ⟨d, hd, rfl, rfl⟩⟩
    unfold creationEdge at hedge hb ⊢
    by_cases hmore : (c, d) ∈ more
    · rw [if_pos hmore] at hb ⊢
      by_cases hfewer : (c, d) ∈ fewer
      · rw [if_pos hfewer] at hedge
        exact .single hedge
      · -- the tightened edge: the detour goes through a workload of the dependency
        rw [if_neg hfewer] at hedge
        obtain ⟨n, hn⟩ := hb
        obtain ⟨data', hd'⟩ := mem_charts_of_creation hn
        exact .head hedge (composition_waits_creation hd' (hworkloads d data' hd'))
    · rw [if_neg hmore]
      rw [if_neg fun h => hmore (hsub _ h)] at hedge
      exact .single hedge

/-- Paths to a node that waits for something stay paths. -/
theorem transGen_tighter
    (hworkloads : ∀ c data, charts.get? c = some data → data.workloads ≠ [])
    (hsub : ∀ e ∈ fewer, e ∈ more) {a b : Node}
    (hab : Relation.TransGen (WaitsOn charts comps workloads owners more) a b)
    (hb : ∃ n, WaitsOn charts comps workloads owners more b n) :
    Relation.TransGen (WaitsOn charts comps workloads owners fewer) a b := by
  induction hab with
  | single hab => exact waits_tighter hworkloads hsub hab hb
  | tail _ hbc ih => exact (ih ⟨_, hbc⟩).trans (waits_tighter hworkloads hsub hbc hb)

/-- With fewer relaxations a cycle does not go away. -/
theorem cyclesOf_tighter
    (hworkloads : ∀ c data, charts.get? c = some data → data.workloads ≠ [])
    (hsub : ∀ e ∈ fewer, e ∈ more)
    (h : cyclesOf (buildGraph charts comps more workloads owners).graph ≠ []) :
    cyclesOf (buildGraph charts comps fewer workloads owners).graph ≠ [] := by
  obtain ⟨n, hn⟩ := cyclesOf_ne_nil_iff.mp h
  refine cyclesOf_ne_nil_iff.mpr ⟨n, transGen_tighter hworkloads hsub hn ?_⟩
  obtain ⟨m, hm, _⟩ := Relation.TransGen.head'_iff.mp hn
  exact ⟨m, hm⟩

end Tighten

/-- Where every component renders a workload and the gate reports no stale
relaxation, every proper part of the relax-set leaves a cycle. -/
theorem no_smaller_relaxation (charts : Dict String ChartData)
    (comps : Dict String (List String)) (relaxed : List (String × String))
    (workloads : Dict String (Dict String Workload)) (owners : Dict String Owner)
    (hworkloads : ∀ c data, charts.get? c = some data → data.workloads ≠ [])
    (hstale : staleRelaxations charts comps relaxed workloads owners = []) :
    ∀ part : List (String × String), (∀ e ∈ part, e ∈ relaxed) → (∃ e ∈ relaxed, e ∉ part) →
      cyclesOf (buildGraph charts comps part workloads owners).graph ≠ [] := by
  rintro part hpart ⟨edge, hedge, hmissing⟩
  have hkept : cyclesOf (buildGraph charts comps (relaxed.filter fun e => e ≠ edge) workloads
      owners).graph ≠ [] := by
    have hnot := List.filter_eq_nil_iff.mp hstale edge
      (by unfold sortEdges; rwa [List.mem_insertionSort])
    simpa using hnot
  -- the part lies inside the relax-set without the missing edge
  refine cyclesOf_tighter hworkloads (fun e he => ?_) hkept
  rw [List.mem_filter, decide_eq_true_eq]
  refine ⟨hpart e he, ?_⟩
  rintro rfl
  exact hmissing he

open DeadlockGate in
/-- Without the one relaxation nova and neutron wait for each other. -/
theorem nova_needs_relaxation :
    cyclesOf (buildGraph relaxedInstall.charts relaxedInstall.comps []
      (workloadsByName relaxedInstall.charts) relaxedInstall.owners).graph ≠ [] := by
  refine no_smaller_relaxation relaxedInstall.charts relaxedInstall.comps relaxedInstall.relaxed
    (workloadsByName relaxedInstall.charts) relaxedInstall.owners ?_ (by rfl) []
    (by simp) ⟨("nova", "neutron"), List.mem_cons_self, List.not_mem_nil⟩
  intro c data h
  rcases List.mem_cons.mp (Dict.mem_entries_of_get? h) with heq | h
  · cases heq
    exact List.cons_ne_nil _ _
  · cases List.mem_singleton.mp h
    exact List.cons_ne_nil _ _

end OpenstackBlueprint.Theorems.RelaxationMinimal
