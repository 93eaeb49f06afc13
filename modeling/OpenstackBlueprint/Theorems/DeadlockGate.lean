import OpenstackBlueprint.Gates.ReadinessDeadlock
import OpenstackBlueprint.Kit.Waits

/-!
# What an accepted wait graph says about the install

The install makes facts true one after another: a component is created, a
workload of it is ready, the component is Ready. What a fact waits for is
written down in `waits`, and what becomes true is the least fixpoint
(`Kit.Waits.comes`).

The gate accepts when its graph has no cycle. Every wait of the install is a
path of that graph, except three kinds of waits that `build_graph` loses
(`Lost`): a component without workloads is Ready no earlier than it is created,
but the graph orders the two only through a workload; and a workload that shares
its name with a later one of its chart is not found by label sets and job names.
So an accepted install completes exactly when no lost wait closes a cycle.
-/

namespace OpenstackBlueprint.Theorems.DeadlockGate

open Kit Kit.Waits Gates

/-! ## The install -/

/-- What the gate is run on: the charts of a closed and acyclic list of
components, with every Service wait resolved, and a set of relaxed edges. -/
structure Install where
  charts : Dict String ChartData
  comps : Dict String (List String)
  relaxed : List (String × String)
  owners : Dict String Owner
  measured : ∀ c, c ∈ charts.keys ↔ c ∈ comps.keys
  resolved : resolve charts = .ok (owners, Dict.empty)
  closed : ∀ c, ∀ d ∈ declaredDeps comps c, d ∈ comps.keys
  acyclic : Acyclic fun c d => d ∈ declaredDeps comps c

/-- The graph the gate searches. -/
def Install.graph (i : Install) : Dict Node (List Node) :=
  (buildGraph i.charts i.comps i.relaxed (workloadsByName i.charts) i.owners).graph

/-- What becomes true during an install. A job is ready when it is complete. -/
inductive Fact
  | created (c : String)
  | workload (c : String) (w : Workload)
  | ready (c : String)

/-- The workloads behind a Service. -/
def backingFacts (i : Install) (svc : String) : List Fact :=
  match i.owners.get? svc with
  | none => []
  | some o => o.backing.map (Fact.workload o.component)

/-- The rendered workloads with the given labels. -/
def podFacts (i : Install) (labels : Dict String String) : List Fact :=
  i.charts.entries.flatMap fun e =>
    (e.2.workloads.filter (hasLabels labels)).map (Fact.workload e.1)

/-- The jobs of a chart with the given name. -/
def jobFacts (i : Install) (c job : String) : List Fact :=
  ((workloadsOf i.charts c).filter fun x => x.kind = .job ∧ x.name = job).map (Fact.workload c)

/-- Relaxed edges are compared by their two names. -/
local instance lawfulBEqEdge : LawfulBEq (String × String) := Prod.instLawfulBEq

/-- The install rules: what a fact waits for, each wait with its alternatives.
Only the wait for a Service has more than one. -/
def waits (i : Install) : Fact → List (List Fact)
  | .created c => (declaredDeps i.comps c).map fun d =>
      [if (c, d) ∈ i.relaxed then .created d else .ready d]
  | .workload c w =>
      [[.created c]] ++ w.services.map (backingFacts i) ++
        (w.pods.flatMap (podFacts i)).map (fun f => [f]) ++
        (w.jobs.flatMap (jobFacts i c)).map (fun f => [f])
  | .ready c => [.created c] :: (workloadsOf i.charts c).map fun w => [.workload c w]

/-- The facts about the components and their workloads. -/
def facts (i : Install) : List Fact :=
  i.comps.keys.flatMap fun c =>
    .created c :: .ready c :: (workloadsOf i.charts c).map (Fact.workload c)

/-- Every component is created and Ready in the end. -/
def AllReady (i : Install) : Prop :=
  ∀ c ∈ i.comps.keys, Fact.created c ∈ comes (waits i) ∧ Fact.ready c ∈ comes (waits i)

/-- The last workload of that name in its chart is another one. -/
def Shadowed (i : Install) (c : String) (x : Workload) : Prop :=
  (workloadsOf i.charts c).reverse.find? (fun y => y.name = x.name) ≠ some x

/-- The waits of the install that the graph does not have. -/
inductive Lost (i : Install) : Fact → Fact → Prop
  /-- Ready before created, for a component that renders no workload. -/
  | noWorkload {c : String} : c ∈ i.comps.keys → workloadsOf i.charts c = [] →
      Lost i (.ready c) (.created c)
  /-- A label set that matches a shadowed workload. -/
  | shadowedPod {c c' : String} {w x : Workload} {labels : Dict String String} :
      c ∈ i.comps.keys → w ∈ workloadsOf i.charts c → labels ∈ w.pods →
      x ∈ workloadsOf i.charts c' → hasLabels labels x = true → Shadowed i c' x →
      Lost i (.workload c w) (.workload c' x)
  /-- The name of a shadowed job. -/
  | shadowedJob {c : String} {w x : Workload} :
      c ∈ i.comps.keys → w ∈ workloadsOf i.charts c → x.name ∈ w.jobs →
      x ∈ workloadsOf i.charts c → x.kind = .job → Shadowed i c x →
      Lost i (.workload c w) (.workload c x)

/-- No lost wait closes a cycle of the waits a choice leaves. -/
def LostOnNoCycle (i : Install) (pick : Fact → List Fact → Fact) : Prop :=
  ∀ a b, Lost i a b → ¬ Relation.ReflTransGen (Chosen (waits i) (facts i) pick) b a

/-! ## The facts are closed under waiting -/

section Facts

variable {i : Install} {c : String} {w : Workload}

theorem mem_workloadsOf {charts : Dict String ChartData} :
    w ∈ workloadsOf charts c ↔ ∃ data, charts.get? c = some data ∧ w ∈ data.workloads := by
  unfold workloadsOf
  cases charts.get? c with
  | none => simp
  | some data => simp

theorem mem_comps_of_workload (hw : w ∈ workloadsOf i.charts c) : c ∈ i.comps.keys := by
  obtain ⟨data, hdata, _⟩ := mem_workloadsOf.mp hw
  exact (i.measured c).mp (List.mem_map.mpr ⟨_, Dict.mem_entries_of_get? hdata, rfl⟩)

@[simp] theorem created_mem_facts : Fact.created c ∈ facts i ↔ c ∈ i.comps.keys := by
  unfold facts
  simp

@[simp] theorem ready_mem_facts : Fact.ready c ∈ facts i ↔ c ∈ i.comps.keys := by
  unfold facts
  simp

@[simp] theorem workload_mem_facts :
    Fact.workload c w ∈ facts i ↔ w ∈ workloadsOf i.charts c := by
  unfold facts
  constructor
  · simp
  · intro hw
    simpa using ⟨mem_comps_of_workload hw, hw⟩

theorem mem_backingFacts {svc : String} {f : Fact} :
    f ∈ backingFacts i svc ↔
      ∃ o b, i.owners.get? svc = some o ∧ b ∈ o.backing ∧ f = .workload o.component b := by
  unfold backingFacts
  cases i.owners.get? svc with
  | none => simp
  | some o => simp [eq_comm]

theorem mem_podFacts {labels : Dict String String} {f : Fact} :
    f ∈ podFacts i labels ↔
      ∃ c x, x ∈ workloadsOf i.charts c ∧ hasLabels labels x = true ∧ f = .workload c x := by
  unfold podFacts
  rw [List.mem_flatMap]
  constructor
  · rintro ⟨e, he, hf⟩
    obtain ⟨x, hx, rfl⟩ := List.mem_map.mp hf
    obtain ⟨hx, hlabels⟩ := List.mem_filter.mp hx
    exact ⟨e.1, x, mem_workloadsOf.mpr ⟨e.2, Dict.get?_of_mem_entries he, hx⟩, hlabels, rfl⟩
  · rintro ⟨c, x, hx, hlabels, rfl⟩
    obtain ⟨data, hdata, hx⟩ := mem_workloadsOf.mp hx
    refine ⟨(c, data), Dict.mem_entries_of_get? hdata, ?_⟩
    exact List.mem_map.mpr ⟨x, List.mem_filter.mpr ⟨hx, hlabels⟩, rfl⟩

theorem mem_jobFacts {job : String} {f : Fact} :
    f ∈ jobFacts i c job ↔
      ∃ x, x ∈ workloadsOf i.charts c ∧ x.kind = .job ∧ x.name = job ∧ f = .workload c x := by
  unfold jobFacts
  rw [List.mem_map]
  constructor
  · rintro ⟨x, hx, rfl⟩
    obtain ⟨hx, hjob⟩ := List.mem_filter.mp hx
    obtain ⟨hkind, hname⟩ := of_decide_eq_true hjob
    exact ⟨x, hx, hkind, hname, rfl⟩
  · rintro ⟨x, hx, hkind, hname, rfl⟩
    exact ⟨x, List.mem_filter.mpr ⟨hx, decide_eq_true ⟨hkind, hname⟩⟩, rfl⟩

/-- What a wait of a workload can be. -/
theorem mem_waits_workload {alts : List Fact} (h : alts ∈ waits i (.workload c w)) :
    alts = [.created c] ∨ (∃ svc ∈ w.services, alts = backingFacts i svc) ∨
      (∃ labels ∈ w.pods, ∃ f ∈ podFacts i labels, alts = [f]) ∨
      ∃ job ∈ w.jobs, ∃ f ∈ jobFacts i c job, alts = [f] := by
  unfold waits at h
  simp only [List.mem_append, List.mem_map, List.mem_flatMap, List.mem_singleton] at h
  rcases h with ((rfl | ⟨svc, hsvc, rfl⟩) | ⟨f, ⟨labels, hlabels, hf⟩, rfl⟩) |
    ⟨f, ⟨job, hjob, hf⟩, rfl⟩
  · exact .inl rfl
  · exact .inr (.inl ⟨svc, hsvc, rfl⟩)
  · exact .inr (.inr (.inl ⟨labels, hlabels, f, hf, rfl⟩))
  · exact .inr (.inr (.inr ⟨job, hjob, f, hf, rfl⟩))

/-- Facts about the components wait for facts about the components. -/
theorem facts_closed (i : Install) :
    ∀ a ∈ facts i, ∀ alts ∈ waits i a, ∀ b ∈ alts, b ∈ facts i := by
  intro a ha alts halts b hb
  cases a with
  | created c =>
    obtain ⟨d, hd, rfl⟩ := List.mem_map.mp halts
    rw [List.mem_singleton.mp hb]
    split
    · exact created_mem_facts.mpr (i.closed c d hd)
    · exact ready_mem_facts.mpr (i.closed c d hd)
  | workload c w =>
    rcases mem_waits_workload halts with rfl | ⟨svc, _, rfl⟩ | ⟨labels, _, f, hf, rfl⟩ |
      ⟨job, _, f, hf, rfl⟩
    · rw [List.mem_singleton.mp hb, created_mem_facts]
      exact mem_comps_of_workload (workload_mem_facts.mp ha)
    · obtain ⟨o, x, ho, hx, rfl⟩ := mem_backingFacts.mp hb
      exact workload_mem_facts.mpr ((ownersRendered_of_resolve i.resolved svc o ho).2 x hx)
    · rw [List.mem_singleton.mp hb]
      obtain ⟨c', x, hx, _, rfl⟩ := mem_podFacts.mp hf
      exact workload_mem_facts.mpr hx
    · rw [List.mem_singleton.mp hb]
      obtain ⟨x, hx, _, _, rfl⟩ := mem_jobFacts.mp hf
      exact workload_mem_facts.mpr hx
  | ready c =>
    rcases List.mem_cons.mp halts with rfl | halts
    · rw [List.mem_singleton.mp hb]
      exact created_mem_facts.mpr (ready_mem_facts.mp ha)
    · obtain ⟨w, hw, rfl⟩ := List.mem_map.mp halts
      rw [List.mem_singleton.mp hb]
      exact workload_mem_facts.mpr hw

/-- Every component is Ready exactly when every fact becomes true. -/
theorem allReady_iff (i : Install) : AllReady i ↔ ∀ a ∈ facts i, a ∈ comes (waits i) := by
  constructor
  · intro h a ha
    cases a with
    | created c => exact (h c (created_mem_facts.mp ha)).1
    | ready c => exact (h c (ready_mem_facts.mp ha)).2
    | workload c w =>
      have hw := workload_mem_facts.mp ha
      have hready := mem_comes_iff.mp (h c (mem_comps_of_workload hw)).2
      obtain ⟨b, hb, hcomes⟩ := hready [.workload c w]
        (List.mem_cons_of_mem _ (List.mem_map.mpr ⟨w, hw, rfl⟩))
      rwa [List.mem_singleton.mp hb] at hcomes
  · intro h c hc
    exact ⟨h _ (created_mem_facts.mpr hc), h _ (ready_mem_facts.mpr hc)⟩

end Facts

/-! ## The waits the graph has -/

section Edges

variable {i : Install} {c : String} {w : Workload}

/-- The node of a fact. -/
def nodeOf : Fact → Node
  | .created c => .creation c
  | .workload c w => wlNode c w
  | .ready c => .composition c

/-- An edge of the searched graph. -/
def GraphEdge (i : Install) (a b : Node) : Prop := b ∈ successors i.graph a

theorem edge_of_workloadEdges (hw : w ∈ workloadsOf i.charts c) {a b : Node}
    (h : ∀ data, ∃ e ∈ workloadEdges (workloadsByName i.charts) i.owners c data w,
      e.src = a ∧ e.dst = b) : GraphEdge i a b := by
  obtain ⟨data, hdata, hw⟩ := mem_workloadsOf.mp hw
  obtain ⟨e, he, hends⟩ := h data
  refine mem_successors_buildGraph.mpr ⟨e, ?_, hends⟩
  refine List.mem_flatMap.mpr ⟨(c, data), mem_sortedItems.mpr hdata, ?_⟩
  exact List.mem_append_left _ (List.mem_flatMap.mpr ⟨w, hw, he⟩)

theorem edge_child (hw : w ∈ workloadsOf i.charts c) :
    GraphEdge i (.composition c) (wlNode c w) ∧ GraphEdge i (wlNode c w) (.creation c) := by
  have hchild : ∀ data, ∀ e ∈ childEdges c data w,
      e ∈ workloadEdges (workloadsByName i.charts) i.owners c data w := fun data e he =>
    List.mem_append_left _ (List.mem_append_left _ (List.mem_append_left _ he))
  constructor
  · exact edge_of_workloadEdges hw fun data =>
      ⟨_, hchild data _ List.mem_cons_self, rfl, rfl⟩
  · exact edge_of_workloadEdges hw fun data =>
      ⟨_, hchild data _ (List.mem_cons_of_mem _ List.mem_cons_self), rfl, rfl⟩

theorem edge_service (hw : w ∈ workloadsOf i.charts c) {svc : String} (hsvc : svc ∈ w.services)
    {o : Owner} (ho : i.owners.get? svc = some o) {x : Workload} (hx : x ∈ o.backing) :
    GraphEdge i (wlNode c w) (wlNode o.component x) := by
  have hedge : ∃ e ∈ serviceEdges i.owners c w svc,
      e.src = wlNode c w ∧ e.dst = wlNode o.component x := by
    unfold serviceEdges
    rw [ho]
    exact ⟨_, List.mem_map.mpr ⟨x, hx, rfl⟩, rfl, rfl⟩
  obtain ⟨e, he, hends⟩ := hedge
  refine edge_of_workloadEdges hw fun data => ⟨e, ?_, hends⟩
  refine List.mem_append_left _ (List.mem_append_left _ (List.mem_append_right _ ?_))
  exact List.mem_flatMap.mpr ⟨svc, hsvc, he⟩

/-- A workload that is not shadowed is the one found under its name. -/
theorem workloadsByName_get? {x : Workload} (hx : x ∈ workloadsOf i.charts c)
    (hlast : ¬ Shadowed i c x) :
    ∃ d, (workloadsByName i.charts).get? c = some d ∧ d.get? x.name = some x := by
  obtain ⟨data, hdata, _⟩ := mem_workloadsOf.mp hx
  refine ⟨Dict.ofList (data.workloads.map fun w => (w.name, w)), ?_, ?_⟩
  · unfold workloadsByName
    rw [Dict.get?_ofList]
    · exact List.mem_map.mpr ⟨(c, data), Dict.mem_entries_of_get? hdata, rfl⟩
    · rw [List.map_map]
      exact i.charts.nodup
  · have hworkloads : workloadsOf i.charts c = data.workloads := by
      unfold workloadsOf
      rw [hdata]
      rfl
    unfold Shadowed at hlast
    rw [not_not, hworkloads] at hlast
    rw [Dict.get?_ofList_eq_last, ← List.map_reverse, List.find?_map]
    have hfind : data.workloads.reverse.find?
        ((fun e : String × Workload => decide (e.1 = x.name)) ∘ fun w => (w.name, w)) = some x :=
      hlast
    rw [hfind]
    rfl

theorem edge_pod (hw : w ∈ workloadsOf i.charts c) {labels : Dict String String}
    (hlabels : labels ∈ w.pods) {c' : String} {x : Workload} (hx : x ∈ workloadsOf i.charts c')
    (hmatch : hasLabels labels x = true) (hlast : ¬ Shadowed i c' x) :
    GraphEdge i (wlNode c w) (wlNode c' x) := by
  obtain ⟨d, hd, hget⟩ := workloadsByName_get? hx hlast
  have hmatched : (c', x) ∈ matchedPods (workloadsByName i.charts) labels := by
    unfold matchedPods
    refine List.mem_flatMap.mpr ⟨c', mem_sortAlpha.mpr ?_, ?_⟩
    · exact List.mem_map.mpr ⟨_, Dict.mem_entries_of_get? hd, rfl⟩
    · rw [hd]
      refine List.mem_map.mpr ⟨x, List.mem_filter.mpr ⟨?_, hmatch⟩, rfl⟩
      exact List.mem_map.mpr ⟨_, Dict.mem_entries_of_get? hget, rfl⟩
  have hedge : ∃ e ∈ podEdges (workloadsByName i.charts) c w labels,
      e.src = wlNode c w ∧ e.dst = wlNode c' x :=
    ⟨_, List.mem_map.mpr ⟨_, hmatched, rfl⟩, rfl, rfl⟩
  obtain ⟨e, he, hends⟩ := hedge
  refine edge_of_workloadEdges hw fun data => ⟨e, ?_, hends⟩
  refine List.mem_append_left _ (List.mem_append_right _ ?_)
  exact List.mem_flatMap.mpr ⟨labels, hlabels, he⟩

theorem edge_job (hw : w ∈ workloadsOf i.charts c) {x : Workload} (hjob : x.name ∈ w.jobs)
    (hx : x ∈ workloadsOf i.charts c) (hkind : x.kind = .job) (hlast : ¬ Shadowed i c x) :
    GraphEdge i (wlNode c w) (wlNode c x) := by
  obtain ⟨d, hd, hget⟩ := workloadsByName_get? hx hlast
  have htarget : jobTarget (workloadsByName i.charts) c x.name = some x := by
    unfold jobTarget
    rw [hd, Option.getD_some, hget]
    exact Option.filter_some_pos (by simpa using hkind)
  have hedge : ∃ e ∈ jobEdges (workloadsByName i.charts) c w x.name,
      e.src = wlNode c w ∧ e.dst = wlNode c x := by
    unfold jobEdges
    rw [htarget]
    exact ⟨_, List.mem_singleton_self _, rfl, rfl⟩
  obtain ⟨e, he, hends⟩ := hedge
  refine edge_of_workloadEdges hw fun data => ⟨e, ?_, hends⟩
  exact List.mem_append_right _ (List.mem_flatMap.mpr ⟨x.name, hjob, he⟩)

theorem edge_creation (hc : c ∈ i.comps.keys) {d : String} (hd : d ∈ declaredDeps i.comps c) :
    GraphEdge i (.creation c) (nodeOf (if (c, d) ∈ i.relaxed then .created d else .ready d)) := by
  obtain ⟨e, he, rfl⟩ := List.mem_map.mp ((i.measured c).mpr hc)
  have hitem : e ∈ sortedItems i.charts := mem_sortedItems.mpr (Dict.get?_of_mem_entries he)
  refine mem_successors_buildGraph.mpr ⟨creationEdge i.relaxed e.1 d, ?_, ?_⟩
  · refine List.mem_flatMap.mpr ⟨e, hitem, List.mem_append_right _ ?_⟩
    exact List.mem_map.mpr ⟨d, hd, rfl⟩
  · unfold creationEdge
    split
    · exact ⟨rfl, rfl⟩
    · exact ⟨rfl, rfl⟩

/-- A chosen wait is lost, or the graph has a path for it. -/
theorem lost_or_path {pick : Fact → List Fact → Fact} (hpick : IsChoice (waits i) (facts i) pick)
    {a b : Fact} (h : Chosen (waits i) (facts i) pick a b) :
    Lost i a b ∨ Relation.TransGen (GraphEdge i) (nodeOf a) (nodeOf b) := by
  obtain ⟨ha, alts, halts, rfl⟩ := h
  have hb := hpick a ha alts halts
  generalize pick a alts = b at hb
  cases a with
  | created c =>
    obtain ⟨d, hd, rfl⟩ := List.mem_map.mp halts
    rw [List.mem_singleton.mp hb]
    exact .inr (.single (edge_creation (created_mem_facts.mp ha) hd))
  | workload c w =>
    have hw := workload_mem_facts.mp ha
    rcases mem_waits_workload halts with rfl | ⟨svc, hsvc, rfl⟩ | ⟨labels, hlabels, f, hf, rfl⟩ |
      ⟨job, hjob, f, hf, rfl⟩
    · rw [List.mem_singleton.mp hb]
      exact .inr (.single (edge_child hw).2)
    · obtain ⟨o, x, ho, hx, rfl⟩ := mem_backingFacts.mp hb
      exact .inr (.single (edge_service hw hsvc ho hx))
    · rw [List.mem_singleton.mp hb]
      obtain ⟨c', x, hx, hmatch, rfl⟩ := mem_podFacts.mp hf
      by_cases hlast : Shadowed i c' x
      · exact .inl (.shadowedPod (mem_comps_of_workload hw) hw hlabels hx hmatch hlast)
      · exact .inr (.single (edge_pod hw hlabels hx hmatch hlast))
    · rw [List.mem_singleton.mp hb]
      obtain ⟨x, hx, hkind, rfl, rfl⟩ := mem_jobFacts.mp hf
      by_cases hlast : Shadowed i c x
      · exact .inl (.shadowedJob (mem_comps_of_workload hw) hw hjob hx hkind hlast)
      · exact .inr (.single (edge_job hw hjob hx hkind hlast))
  | ready c =>
    rcases List.mem_cons.mp halts with rfl | halts
    · rw [List.mem_singleton.mp hb]
      -- the graph orders the two through any workload of the component
      cases hws : workloadsOf i.charts c with
      | nil => exact .inl (.noWorkload (ready_mem_facts.mp ha) hws)
      | cons w rest =>
        have hw : w ∈ workloadsOf i.charts c := hws ▸ List.mem_cons_self
        exact .inr (.tail (.single (edge_child hw).1) (edge_child hw).2)
    · obtain ⟨w, hw, rfl⟩ := List.mem_map.mp halts
      rw [List.mem_singleton.mp hb]
      exact .inr (.single (edge_child hw).1)

/-- A lost wait is a wait, whatever is chosen. -/
theorem chosen_of_lost {pick : Fact → List Fact → Fact} (hpick : IsChoice (waits i) (facts i) pick)
    {a b : Fact} (h : Lost i a b) : Chosen (waits i) (facts i) pick a b := by
  have hsingle : a ∈ facts i → [b] ∈ waits i a → Chosen (waits i) (facts i) pick a b :=
    fun ha hb => ⟨ha, [b], hb, (List.mem_singleton.mp (hpick a ha [b] hb)).symm⟩
  cases h with
  | noWorkload hc _ => exact hsingle (ready_mem_facts.mpr hc) List.mem_cons_self
  | @shadowedPod c c' w x labels _ hw hlabels hx hmatch _ =>
    refine hsingle (workload_mem_facts.mpr hw) ?_
    refine List.mem_append_left _ (List.mem_append_right _ (List.mem_map.mpr ⟨_, ?_, rfl⟩))
    exact List.mem_flatMap.mpr ⟨labels, hlabels, mem_podFacts.mpr ⟨c', x, hx, hmatch, rfl⟩⟩
  | @shadowedJob c w x _ hw hjob hx hkind _ =>
    refine hsingle (workload_mem_facts.mpr hw) ?_
    refine List.mem_append_right _ (List.mem_map.mpr ⟨_, ?_, rfl⟩)
    exact List.mem_flatMap.mpr ⟨x.name, hjob, mem_jobFacts.mpr ⟨x, hx, hkind, rfl, rfl⟩⟩

/-- A path of chosen waits passes a lost one, or is a path of the graph. -/
theorem lost_on_path {pick : Fact → List Fact → Fact} (hpick : IsChoice (waits i) (facts i) pick)
    {a b : Fact} (h : Relation.TransGen (Chosen (waits i) (facts i) pick) a b) :
    (∃ x y, Lost i x y ∧ Relation.ReflTransGen (Chosen (waits i) (facts i) pick) a x ∧
        Relation.ReflTransGen (Chosen (waits i) (facts i) pick) y b) ∨
      Relation.TransGen (GraphEdge i) (nodeOf a) (nodeOf b) := by
  induction h with
  | single hab =>
    rcases lost_or_path hpick hab with hlost | hpath
    · exact .inl ⟨a, _, hlost, .refl, .refl⟩
    · exact .inr hpath
  | tail hprev hlast ih =>
    rcases ih with ⟨x, y, hlost, hax, hyb⟩ | hpath
    · exact .inl ⟨x, y, hlost, hax, hyb.tail hlast⟩
    · rcases lost_or_path hpick hlast with hlost | hpath'
      · exact .inl ⟨_, _, hlost, hprev.to_reflTransGen, .refl⟩
      · exact .inr (hpath.trans hpath')

/-- Under an acyclic graph, chosen waits go round in a circle only through a
lost one. -/
theorem acyclic_chosen_iff (hgate : cyclesOf i.graph = []) {pick : Fact → List Fact → Fact}
    (hpick : IsChoice (waits i) (facts i) pick) :
    Acyclic (Chosen (waits i) (facts i) pick) ↔ LostOnNoCycle i pick := by
  constructor
  · intro hacyclic a b hlost hback
    exact hacyclic a (.head' (chosen_of_lost hpick hlost) hback)
  · intro hlost a hcycle
    rcases lost_on_path hpick hcycle with ⟨x, y, hxy, hax, hya⟩ | hpath
    · exact hlost x y hxy (hya.trans hax)
    · exact acyclic_of_cyclesOf hgate (nodeOf a) hpath

end Edges

/-- An install whose wait graph the gate accepts completes exactly when, for
some choice of the workload that will answer for each Service, no wait that the
graph loses closes a cycle. -/
theorem accepted_completes_iff (i : Install) (hgate : cyclesOf i.graph = []) :
    AllReady i ↔
      ∃ pick, IsChoice (waits i) (facts i) pick ∧ LostOnNoCycle i pick := by
  rw [allReady_iff, comes_iff_exists_choice (facts_closed i)]
  constructor
  · rintro ⟨pick, hpick, hacyclic⟩
    exact ⟨pick, hpick, (acyclic_chosen_iff hgate hpick).mp hacyclic⟩
  · rintro ⟨pick, hpick, hlost⟩
    exact ⟨pick, hpick, (acyclic_chosen_iff hgate hpick).mpr hlost⟩

/-! ## Two installs

An agent of neutron waits for nova's API. nova depends on neutron: once with the
edge relaxed, and once through a component `policy` that renders no workload. -/

theorem declaredDeps_forall {comps : Dict String (List String)} {P : String → String → Prop}
    (h : ∀ e ∈ comps.entries, ∀ d ∈ e.2, P e.1 d) : ∀ c, ∀ d ∈ declaredDeps comps c, P c d := by
  intro c d hd
  unfold declaredDeps at hd
  cases hget : comps.get? c with
  | none =>
    rw [hget] at hd
    exact absurd hd List.not_mem_nil
  | some deps =>
    rw [hget] at hd
    exact h (c, deps) (Dict.mem_entries_of_get? hget) d hd

def neutronAgent : Workload where
  kind := .daemonSet
  name := "neutron-dhcp-agent"
  labels := Dict.ofList [("application", "neutron")]
  services := ["nova-api"]
  pods := []
  jobs := []

def novaApi : Workload where
  kind := .deployment
  name := "nova-api-osapi"
  labels := Dict.ofList [("application", "nova")]
  services := []
  pods := []
  jobs := []

def novaService : Service := ⟨"nova-api", Dict.ofList [("application", "nova")]⟩

/-- nova is created once neutron exists. -/
def relaxedInstall : Install where
  charts := Dict.ofList [("neutron", ⟨[], [neutronAgent], 1⟩),
    ("nova", ⟨[novaService], [novaApi], 2⟩)]
  comps := Dict.ofList [("neutron", []), ("nova", ["neutron"])]
  relaxed := [("nova", "neutron")]
  owners := Dict.ofList [("nova-api", ⟨"nova", [novaApi]⟩)]
  measured := fun _ => Iff.rfl
  resolved := rfl
  closed := declaredDeps_forall (by decide)
  acyclic := acyclic_of_rank (fun c => if c = "nova" then 1 else 0)
    (declaredDeps_forall (by decide))

theorem relaxedInstall_not_lost {a b : Fact} : ¬ Lost relaxedInstall a b := by
  have hworkloads : ∀ c w, w ∈ workloadsOf relaxedInstall.charts c → w.pods = [] ∧ w.jobs = [] := by
    intro c w hw
    obtain ⟨data, hdata, hw⟩ := mem_workloadsOf.mp hw
    have hall : ∀ e ∈ relaxedInstall.charts.entries, ∀ w ∈ e.2.workloads,
        w.pods = [] ∧ w.jobs = [] := by
      intro e he
      rcases List.mem_cons.mp he with rfl | he
      · simp [neutronAgent]
      · rw [List.mem_singleton.mp he]
        simp [novaApi]
    exact hall _ (Dict.mem_entries_of_get? hdata) w hw
  intro h
  cases h with
  | noWorkload hc hnone =>
    rcases List.mem_cons.mp hc with rfl | hc
    · cases hnone
    · rw [List.mem_singleton.mp hc] at hnone
      cases hnone
  | shadowedPod _ hw hlabels _ _ _ =>
    rw [(hworkloads _ _ hw).1] at hlabels
    exact absurd hlabels List.not_mem_nil
  | shadowedJob _ hw hjob _ _ _ =>
    rw [(hworkloads _ _ hw).2] at hjob
    exact absurd hjob List.not_mem_nil

/-- The gate accepts the relaxed edge, and the install completes. -/
theorem relaxedInstall_completes :
    cyclesOf relaxedInstall.graph = [] ∧ AllReady relaxedInstall := by
  refine ⟨by rfl, (accepted_completes_iff relaxedInstall (by rfl)).mpr ?_⟩
  refine ⟨fun a alts => alts.headD a, fun a ha alts halts => ?_, fun a b h => ?_⟩
  · have hsome : ∀ a ∈ facts relaxedInstall, ∀ alts ∈ waits relaxedInstall a, alts ≠ [] := by
      decide
    cases alts with
    | nil => exact absurd rfl (hsome a ha [] halts)
    | cons b rest => exact List.mem_cons_self
  · exact absurd h relaxedInstall_not_lost

/-- nova is created once `policy` is Ready, and `policy` once neutron is. -/
def stuckInstall : Install where
  charts := Dict.ofList [("neutron", ⟨[], [neutronAgent], 1⟩),
    ("nova", ⟨[novaService], [novaApi], 2⟩), ("policy", ⟨[], [], 1⟩)]
  comps := Dict.ofList [("neutron", []), ("nova", ["policy"]), ("policy", ["neutron"])]
  relaxed := []
  owners := Dict.ofList [("nova-api", ⟨"nova", [novaApi]⟩)]
  measured := fun _ => Iff.rfl
  resolved := rfl
  closed := declaredDeps_forall (by decide)
  acyclic := acyclic_of_rank (fun c => if c = "nova" then 2 else if c = "policy" then 1 else 0)
    (declaredDeps_forall (by decide))

/-- The facts that wait for each other. -/
def stuckFacts : Set Fact :=
  {.ready "neutron", .workload "neutron" neutronAgent, .workload "nova" novaApi, .created "nova",
    .ready "policy", .created "policy"}

theorem stuckFacts_stuck :
    ∀ a ∈ stuckFacts, ∃ alts ∈ waits stuckInstall a, ∀ b ∈ alts, b ∈ stuckFacts := by
  rintro a (rfl | rfl | rfl | rfl | rfl | rfl)
  · refine ⟨[.workload "neutron" neutronAgent], List.mem_cons_of_mem _ List.mem_cons_self, ?_⟩
    simp [stuckFacts]
  · refine ⟨[.workload "nova" novaApi], List.mem_cons_of_mem _ List.mem_cons_self, ?_⟩
    simp [stuckFacts]
  · exact ⟨[.created "nova"], List.mem_cons_self, by simp [stuckFacts]⟩
  · exact ⟨[.ready "policy"], List.mem_cons_self, by simp [stuckFacts]⟩
  · exact ⟨[.created "policy"], List.mem_cons_self, by simp [stuckFacts]⟩
  · exact ⟨[.ready "neutron"], List.mem_cons_self, by simp [stuckFacts]⟩

/-- The gate accepts the install, and neutron never becomes Ready. -/
theorem accepts_deadlock : cyclesOf stuckInstall.graph = [] ∧ ¬ AllReady stuckInstall := by
  refine ⟨by rfl, fun h => ?_⟩
  have hneutron := (h "neutron" List.mem_cons_self).2
  exact not_mem_comes_of_stuck stuckFacts_stuck (by simp [stuckFacts]) hneutron

end OpenstackBlueprint.Theorems.DeadlockGate
