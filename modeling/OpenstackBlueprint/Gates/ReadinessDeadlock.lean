import OpenstackBlueprint.Kit.Bfs
import OpenstackBlueprint.Kit.Tarjan
import OpenstackBlueprint.Kit.Text

/-!
# The readiness-deadlock gate

`validate-readiness-deadlock.py` reduces every rendered component chart to its
Services, its workloads and what their init containers wait for, builds the
graph of everything that waits on everything else, and looks for a cycle in it.

Modelled from what `collect` returns on: `resolve` attributes every Service to
a component and to the workloads behind it, `build_graph` makes the graph,
`sccs_of` and `cycles_of` search it, and `witness` picks the cycle to report.
Sets of nodes are lists without repetitions; the script only ever sorts them.
-/

namespace OpenstackBlueprint.Gates

open Kit

/-! ## What is collected -/

/-- `WORKLOAD_KINDS`. -/
inductive WorkloadKind
  | deployment
  | daemonSet
  | statefulSet
  | job
  deriving DecidableEq, Repr

/-- The manifest's `kind`. -/
def WorkloadKind.text : WorkloadKind → String
  | deployment => "Deployment"
  | daemonSet => "DaemonSet"
  | statefulSet => "StatefulSet"
  | job => "Job"

/-- A rendered Service. -/
structure Service where
  name : String
  selector : Dict String String

/-- A rendered workload: its pod labels, and the Services, pod label sets and
jobs its init containers wait for. -/
structure Workload where
  kind : WorkloadKind
  name : String
  labels : Dict String String
  services : List String
  pods : List (Dict String String)
  jobs : List String

/-- One component's chart. `children` counts its rendered objects. -/
structure ChartData where
  services : List Service
  workloads : List Workload
  children : Nat

/-- `f"{w['kind']}/{w['name']}"`. -/
def Workload.label (w : Workload) : String := w.kind.text ++ "/" ++ w.name

/-- `all(w["labels"].get(k) == v for k, v in labels.items())`. -/
def hasLabels (labels : Dict String String) (w : Workload) : Bool :=
  labels.entries.all fun e => w.labels.get? e.1 == some e.2

/-- The workloads of a component's chart. -/
def workloadsOf (charts : Dict String ChartData) (c : String) : List Workload :=
  ((charts.get? c).map (·.workloads)).getD []

/-! ## resolve -/

/-- `EXTERNAL_SERVICES`: names that no component is expected to own. -/
def externalServices : List String := ["postgresql"]

/-- An entry of `owners`. -/
structure Owner where
  component : String
  backing : List Workload

/-- The workloads a Service selects in its own chart. -/
def backingOf (data : ChartData) (svc : Service) : List Workload :=
  data.workloads.filter fun w => !svc.selector.entries.isEmpty && hasLabels svc.selector w

/-- One Service of a chart: `owners`, and the complaint about a second owner. -/
def addOwner (comp : String) (data : ChartData) (acc : Dict String Owner × List String)
    (svc : Service) : Dict String Owner × List String :=
  -- the first component to create the name keeps it
  (acc.1.setdefault svc.name ⟨comp, backingOf data svc⟩,
    match acc.1.get? svc.name with
    | some o =>
      if o.component ≠ comp then
        acc.2 ++ [svc.name ++ " is created by both " ++ o.component ++ " and " ++ comp]
      else acc.2
    | none => acc.2)

/-- `owners` and `duplicates`. -/
def serviceOwners (charts : Dict String ChartData) : Dict String Owner × List String :=
  (sortedItems charts).foldl (fun acc e => e.2.services.foldl (addOwner e.1 e.2) acc)
    (Dict.empty, [])

/-- `unresolved.setdefault(svc, set()).add(text)`. -/
def addUnresolved (unresolved : Dict String (List String)) (svc text : String) :
    Dict String (List String) :=
  unresolved.set svc (((unresolved.get? svc).getD []).insert text)

/-- One Service wait of a workload. -/
def checkWait (owners : Dict String Owner) (comp : String) (w : Workload)
    (unresolved : Dict String (List String)) (svc : String) : Dict String (List String) :=
  match owners.get? svc with
  | none => addUnresolved unresolved svc (comp ++ "/" ++ w.name ++ " (no such Service)")
  | some o =>
    if o.backing.isEmpty then
      addUnresolved unresolved svc
        (comp ++ "/" ++ w.name ++ " (" ++ o.component ++ "'s Service " ++ svc ++
          " selects no workload this chart renders)")
    else unresolved

/-- `unresolved`: the waits on a Service nobody creates or nothing backs. -/
def unresolvedWaits (charts : Dict String ChartData) (owners : Dict String Owner) :
    Dict String (List String) :=
  (sortedItems charts).foldl
    (fun acc e => e.2.workloads.foldl
      (fun acc w => w.services.foldl (checkWait owners e.1 w) acc) acc)
    Dict.empty

/-- What is printed about undeclared names. -/
def undeclaredLines (undeclared : List (String × List String)) : List String :=
  ["FAILED MEASUREMENT: a Service that is waited on resolves to nothing, so this " ++
      "gate cannot see what waits on it:\n"] ++
    (undeclared.insertionSort fun a b => a.1 ≤ b.1).flatMap (fun e =>
      ("  Service " ++ e.1 ++ ", waited on by:") :: (sortAlpha e.2).map ("    " ++ ·)) ++
    ["\nIf it is genuinely not a component of this blueprint, declare it in " ++
      "EXTERNAL_SERVICES\nwith the reason. If a Service was renamed, the waits that name " ++
      "the old one are broken."]

/-- `resolve(charts)`: the owners and the unresolved waits, or the lines printed
before it exits. -/
def resolve (charts : Dict String ChartData) :
    Except (List String) (Dict String Owner × Dict String (List String)) :=
  let found := serviceOwners charts
  if !found.2.isEmpty then
    .error ["FAILED MEASUREMENT: a Service name has no single owner, so its waits cannot be " ++
      "attributed:\n  " ++ "\n  ".intercalate found.2]
  else
    let unresolved := unresolvedWaits charts found.1
    let undeclared := unresolved.entries.filter fun e => e.1 ∉ externalServices
    if !undeclared.isEmpty then .error (undeclaredLines undeclared)
    else .ok (found.1, unresolved)

/-- Every owner is a measured component, and what backs a Service is rendered
by its owner. -/
def OwnersRendered (charts : Dict String ChartData) (owners : Dict String Owner) : Prop :=
  ∀ svc o, owners.get? svc = some o →
    o.component ∈ charts.keys ∧ ∀ b ∈ o.backing, b ∈ workloadsOf charts o.component

theorem ownersRendered_addOwner {charts : Dict String ChartData} {comp : String}
    {data : ChartData} (hdata : charts.get? comp = some data)
    {acc : Dict String Owner × List String} (hacc : OwnersRendered charts acc.1) (svc : Service) :
    OwnersRendered charts (addOwner comp data acc svc).1 := by
  intro name o ho
  unfold addOwner at ho
  rcases Dict.get?_setdefault ho with hold | ⟨_, rfl⟩
  · exact hacc name o hold
  · refine ⟨?_, fun b hb => ?_⟩
    · by_contra hkey
      rw [Dict.get?_eq_none_iff.mpr hkey] at hdata
      cases hdata
    · unfold workloadsOf
      dsimp only
      rw [hdata]
      exact (List.mem_filter.mp hb).1

theorem ownersRendered_serviceOwners (charts : Dict String ChartData) :
    OwnersRendered charts (serviceOwners charts).1 := by
  have hservices : ∀ (services : List Service) (comp : String) (data : ChartData)
      (acc : Dict String Owner × List String), charts.get? comp = some data →
      OwnersRendered charts acc.1 →
      OwnersRendered charts (services.foldl (addOwner comp data) acc).1 := by
    intro services comp data
    induction services with
    | nil => exact fun _ _ hacc => hacc
    | cons svc rest ih =>
      exact fun acc hdata hacc => ih _ hdata (ownersRendered_addOwner hdata hacc svc)
  have hcharts : ∀ (items : List (String × ChartData)) (acc : Dict String Owner × List String),
      (∀ e ∈ items, charts.get? e.1 = some e.2) → OwnersRendered charts acc.1 →
      OwnersRendered charts
        (items.foldl (fun acc e => e.2.services.foldl (addOwner e.1 e.2) acc) acc).1 := by
    intro items
    induction items with
    | nil => exact fun _ _ hacc => hacc
    | cons e rest ih =>
      intro acc hitems hacc
      refine ih _ (fun e' he' => hitems e' (List.mem_cons_of_mem _ he')) ?_
      exact hservices _ _ _ _ (hitems e List.mem_cons_self) hacc
  refine hcharts _ _ (fun e he => mem_sortedItems.mp he) fun name o ho => ?_
  rw [Dict.get?_empty] at ho
  cases ho

/-- What `resolve` answers about owners. -/
theorem ownersRendered_of_resolve {charts : Dict String ChartData} {owners : Dict String Owner}
    {unresolved : Dict String (List String)} (h : resolve charts = .ok (owners, unresolved)) :
    OwnersRendered charts owners := by
  unfold resolve at h
  dsimp only at h
  split at h
  · cases h
  · split at h
    · cases h
    · cases h
      exact ownersRendered_serviceOwners charts

/-! ## build_graph -/

/-- A node of the wait graph. -/
inductive Node
  | composition (c : String)
  | creation (c : String)
  | workload (c label : String)
  deriving DecidableEq, Repr

/-- The tuple the script has for a node; tuples are compared by their members. -/
def Node.key : Node → List String
  | composition c => ["composition", c]
  | creation c => ["creation", c]
  | workload c label => ["workload", c, label]

/-- `sorted` of a set of nodes. -/
def sortNodes (nodes : List Node) : List Node :=
  nodes.insertionSort fun a b => a.key ≤ b.key

@[simp] theorem mem_sortNodes {nodes : List Node} {n : Node} : n ∈ sortNodes nodes ↔ n ∈ nodes := by
  unfold sortNodes
  rw [List.mem_insertionSort]

/-- `wl_node(c, w)`. -/
def wlNode (c : String) (w : Workload) : Node := .workload c w.label

/-- A call of `edge(a, b, reason)`. -/
structure Edge where
  src : Node
  dst : Node
  reason : String

/-- `workloads`, by component and by name: of two workloads of one name in one
chart, the later. -/
def workloadsByName (charts : Dict String ChartData) : Dict String (Dict String Workload) :=
  Dict.ofList (charts.entries.map fun e =>
    (e.1, Dict.ofList (e.2.workloads.map fun w => (w.name, w))))

/-- `comps[comp]`. -/
def declaredDeps (comps : Dict String (List String)) (comp : String) : List String :=
  (comps.get? comp).getD []

/-- A workload is a managed child, and it is created with its Composition. -/
def childEdges (comp : String) (data : ChartData) (w : Workload) : List Edge :=
  [⟨.composition comp, wlNode comp w,
      comp ++ "'s Composition reports Ready only when every managed child is ready, and " ++
        w.label ++ " is one of its " ++ toString data.children⟩,
    ⟨wlNode comp w, .creation comp,
      w.name ++ " cannot run before " ++ comp ++ "'s Composition has been created"⟩]

/-- The edges for one Service a workload waits on. -/
def serviceEdges (owners : Dict String Owner) (comp : String) (w : Workload) (svc : String) :
    List Edge :=
  match owners.get? svc with
  | none => []
  | some o => o.backing.map fun b =>
      ⟨wlNode comp w, wlNode o.component b,
        w.name ++ "'s kubernetes-entrypoint init container waits for Service " ++ svc ++
          " to have endpoints, which " ++ o.component ++ "'s " ++ b.label ++ " backs"⟩

/-- `matched`: the workloads with the given labels, of every component. -/
def matchedPods (workloads : Dict String (Dict String Workload)) (labels : Dict String String) :
    List (String × Workload) :=
  (sortAlpha workloads.keys).flatMap fun c =>
    ((((workloads.get? c).map Dict.values).getD []).filter (hasLabels labels)).map fun x => (c, x)

/-- The edges for one label set a workload waits on. -/
def podEdges (workloads : Dict String (Dict String Workload)) (comp : String) (w : Workload)
    (labels : Dict String String) : List Edge :=
  (matchedPods workloads labels).map fun m =>
    ⟨wlNode comp w, wlNode m.1 m.2,
      w.name ++ " waits for a ready pod labelled " ++
        ",".intercalate ((sortedItems labels).map fun e => e.1 ++ "=" ++ e.2) ++ ", which " ++
        m.1 ++ "'s " ++ m.2.label ++ " provides"⟩

/-- `target` of a job wait, when it is a Job. -/
def jobTarget (workloads : Dict String (Dict String Workload)) (comp job : String) :
    Option Workload :=
  (((workloads.get? comp).getD Dict.empty).get? job).filter fun target => target.kind = .job

/-- The edges for one job a workload waits on. -/
def jobEdges (workloads : Dict String (Dict String Workload)) (comp : String) (w : Workload)
    (job : String) : List Edge :=
  match jobTarget workloads comp job with
  | none => []
  | some target =>
    [⟨wlNode comp w, wlNode comp target, w.name ++ " waits for job " ++ job ++ " to complete"⟩]

/-- The edge for one declared dependency. -/
def creationEdge (relaxedEdges : List (String × String)) (comp dep : String) : Edge :=
  if (comp, dep) ∈ relaxedEdges then
    ⟨.creation comp, .creation dep,
      "creation of " ++ comp ++ "'s Composition is gated on " ++ dep ++
        "'s Composition merely EXISTING -- a declared relaxation (osh.depsExist)"⟩
  else
    ⟨.creation comp, .composition dep,
      "creation of " ++ comp ++ "'s Composition is gated on " ++ dep ++
        " reporting Ready=True (osh.depsReady)"⟩

/-- The edges of one workload. -/
def workloadEdges (workloads : Dict String (Dict String Workload)) (owners : Dict String Owner)
    (comp : String) (data : ChartData) (w : Workload) : List Edge :=
  childEdges comp data w ++ w.services.flatMap (serviceEdges owners comp w) ++
    w.pods.flatMap (podEdges workloads comp w) ++ w.jobs.flatMap (jobEdges workloads comp w)

/-- Every call of `edge`, in order. -/
def graphEdges (charts : Dict String ChartData) (comps : Dict String (List String))
    (relaxedEdges : List (String × String)) (workloads : Dict String (Dict String Workload))
    (owners : Dict String Owner) : List Edge :=
  (sortedItems charts).flatMap fun e =>
    e.2.workloads.flatMap (workloadEdges workloads owners e.1 e.2) ++
      (declaredDeps comps e.1).map (creationEdge relaxedEdges e.1)

/-- The counters of `build_graph`. -/
structure Stats where
  service : Nat
  pod : Nat
  job : Nat
  podUnmatched : Nat
  jobUnmatched : Nat
  deriving DecidableEq, Repr

/-- `stats`, over the waits of every workload. -/
def graphStats (charts : Dict String ChartData) (workloads : Dict String (Dict String Workload))
    (owners : Dict String Owner) : Stats :=
  let all := (sortedItems charts).flatMap fun e => e.2.workloads.map fun w => (e.1, w)
  let services := all.flatMap fun m => m.2.services.map fun svc => (m, svc)
  let pods := all.flatMap fun m => m.2.pods
  let jobs := all.flatMap fun m => m.2.jobs.map fun job => (m.1, job)
  { service := (services.flatMap fun s => serviceEdges owners s.1.1 s.1.2 s.2).length
    pod := (pods.flatMap (matchedPods workloads)).length
    job := jobs.countP fun j => (jobTarget workloads j.1 j.2).isSome
    podUnmatched := pods.countP fun labels => (matchedPods workloads labels).isEmpty
    jobUnmatched := jobs.countP fun j => (jobTarget workloads j.1 j.2).isNone }

/-- `graph.setdefault(a, set()).add(b)`. -/
def addEdge (graph : Dict Node (List Node)) (e : Edge) : Dict Node (List Node) :=
  graph.set e.src (((graph.get? e.src).getD []).insert e.dst)

/-- What `build_graph` returns. -/
structure WaitGraph where
  graph : Dict Node (List Node)
  why : Dict (Node × Node) String
  stats : Stats

/-- `build_graph(charts, comps, relaxed_edges, workloads, owners)`. -/
def buildGraph (charts : Dict String ChartData) (comps : Dict String (List String))
    (relaxedEdges : List (String × String)) (workloads : Dict String (Dict String Workload))
    (owners : Dict String Owner) : WaitGraph :=
  let edges := graphEdges charts comps relaxedEdges workloads owners
  { graph := edges.foldl addEdge Dict.empty
    why := edges.foldl (fun why e => why.setdefault (e.src, e.dst) e.reason) Dict.empty
    stats := graphStats charts workloads owners }

/-- `graph.get(n, ())`. -/
def successors (graph : Dict Node (List Node)) (n : Node) : List Node :=
  (graph.get? n).getD []

/-! ## sccs_of and cycles_of -/

/-- The nodes in the order `sccs_of` starts from them. -/
def sccRoots (graph : Dict Node (List Node)) : List Node :=
  sortNodes graph.keys ++ sortNodes (graph.values.flatMap id).dedup

/-- One iteration for each node and each edge. -/
def sccFuel (graph : Dict Node (List Node)) : Nat :=
  ((sccRoots graph).map fun n => (sortNodes (successors graph n)).length + 1).sum

theorem mem_sccRoots_of_successors {graph : Dict Node (List Node)} {a b : Node}
    (h : b ∈ successors graph a) : a ∈ sccRoots graph ∧ b ∈ sccRoots graph := by
  unfold successors at h
  cases hget : graph.get? a with
  | none =>
    rw [hget] at h
    exact absurd h List.not_mem_nil
  | some succ =>
    rw [hget] at h
    have hentry := Dict.mem_entries_of_get? hget
    unfold sccRoots
    rw [List.mem_append, List.mem_append, mem_sortNodes, mem_sortNodes, mem_sortNodes,
      mem_sortNodes, List.mem_dedup, List.mem_dedup]
    refine ⟨.inl (List.mem_map.mpr ⟨_, hentry, rfl⟩), .inr (List.mem_flatMap.mpr ⟨succ, ?_, h⟩)⟩
    exact List.mem_map.mpr ⟨_, hentry, rfl⟩

/-- The search ends within the bound. -/
theorem sccs_isSome (graph : Dict Node (List Node)) :
    (Tarjan.sccs (fun n => sortNodes (successors graph n)) (sccRoots graph)
      (sccFuel graph)).isSome := by
  rw [Option.isSome_iff_exists]
  refine Tarjan.exists_sccs (sccRoots graph) (fun a b hb => ?_) (fun _ hr => hr) le_rfl
  exact (mem_sccRoots_of_successors (mem_sortNodes.mp hb)).2

/-- `sccs_of(graph)`. -/
def sccsOf (graph : Dict Node (List Node)) : List (List Node) :=
  (Tarjan.sccs (fun n => sortNodes (successors graph n)) (sccRoots graph)
    (sccFuel graph)).get (sccs_isSome graph)

/-- `cycles_of(graph)`: the components that are cycles. -/
def cyclesOf (graph : Dict Node (List Node)) : List (List Node) :=
  (sccsOf graph).filter fun scc =>
    decide (1 < scc.length) || scc.head?.any fun n => n ∈ successors graph n

/-- A graph without cycles in the search's sense has none. -/
theorem acyclic_of_cyclesOf {graph : Dict Node (List Node)} (h : cyclesOf graph = []) :
    Acyclic fun a b => b ∈ successors graph a := by
  have hsccs : Tarjan.sccs (fun n => sortNodes (successors graph n)) (sccRoots graph)
      (sccFuel graph) = some (sccsOf graph) := (Option.some_get _).symm
  have hacyclic := Tarjan.acyclic_of_sccs hsccs ?_ ?_
  · simpa only [mem_sortNodes] using hacyclic
  · intro a hne
    obtain ⟨b, hb⟩ := List.exists_mem_of_ne_nil _ hne
    exact (mem_sccRoots_of_successors (mem_sortNodes.mp hb)).1
  · intro scc hscc x hx y hy
    have hnot := List.filter_eq_nil_iff.mp h scc hscc
    rw [Bool.not_eq_true, Bool.or_eq_false_iff, decide_eq_false_iff_not, not_lt] at hnot
    obtain ⟨z, rfl⟩ := List.length_eq_one_iff.mp
      (le_antisymm hnot.1 (List.length_pos_of_mem hx))
    rw [List.mem_singleton.mp hx, List.mem_singleton.mp hy]
    refine ⟨rfl, ?_⟩
    simpa using hnot.2

/-- `witness(graph, scc)`, with a bound on the iterations of its loop. An empty
`scc` has no first member. -/
def witness (fuel : Nat) (graph : Dict Node (List Node)) (scc : List Node) :
    Option (List Node) := do
  let start ← (sortNodes scc).head?
  Bfs.search (fun n => sortNodes (successors graph n)) scc start fuel (Bfs.init start)

/-- `why[(a, b)]` for the steps of a path, as `main` reports them; `none` where a
step has no reason. -/
def waitReasons (why : Dict (Node × Node) String) (path : List Node) : Option (List String) :=
  (path.zip path.tail).mapM fun step => why.get? step

/-- `sorted` of a set of edges. -/
def sortEdges (edges : List (String × String)) : List (String × String) :=
  edges.insertionSort fun a b => [a.1, a.2] ≤ [b.1, b.2]

/-- `stale` of `main`: the relaxations that can be tightened alone without a
cycle. -/
def staleRelaxations (charts : Dict String ChartData) (comps : Dict String (List String))
    (effective : List (String × String)) (workloads : Dict String (Dict String Workload))
    (owners : Dict String Owner) : List (String × String) :=
  (sortEdges effective).filter fun edge =>
    let tightened := effective.filter fun e => e ≠ edge
    cyclesOf (buildGraph charts comps tightened workloads owners).graph = []

/-! ## The edges of the graph -/

theorem mem_successors_addEdge {graph : Dict Node (List Node)} {e : Edge} {a b : Node} :
    b ∈ successors (addEdge graph e) a ↔
      b ∈ successors graph a ∨ (e.src = a ∧ e.dst = b) := by
  unfold successors addEdge
  rw [Dict.get?_set]
  by_cases ha : a = e.src
  · subst ha
    rw [if_pos rfl, Option.getD_some, List.mem_insert_iff]
    constructor
    · rintro (rfl | h)
      · exact .inr ⟨rfl, rfl⟩
      · exact .inl h
    · rintro (h | ⟨_, rfl⟩)
      · exact .inr h
      · exact .inl rfl
  · rw [if_neg ha]
    constructor
    · exact .inl
    · rintro (h | ⟨heq, _⟩)
      · exact h
      · exact absurd heq.symm ha

/-- The graph has the edges that were added. -/
theorem mem_successors_buildGraph {charts : Dict String ChartData}
    {comps : Dict String (List String)} {relaxedEdges : List (String × String)}
    {workloads : Dict String (Dict String Workload)} {owners : Dict String Owner} {a b : Node} :
    b ∈ successors (buildGraph charts comps relaxedEdges workloads owners).graph a ↔
      ∃ e ∈ graphEdges charts comps relaxedEdges workloads owners, e.src = a ∧ e.dst = b := by
  have hfold : ∀ (edges : List Edge) (graph : Dict Node (List Node)),
      b ∈ successors (edges.foldl addEdge graph) a ↔
        b ∈ successors graph a ∨ ∃ e ∈ edges, e.src = a ∧ e.dst = b := by
    intro edges
    induction edges with
    | nil => simp
    | cons e rest ih =>
      intro graph
      rw [List.foldl_cons, ih, mem_successors_addEdge, or_assoc]
      simp
  unfold buildGraph
  dsimp only
  rw [hfold]
  simp [successors]

/-- Every edge of the graph has a reason. -/
theorem exists_why {charts : Dict String ChartData} {comps : Dict String (List String)}
    {relaxedEdges : List (String × String)} {workloads : Dict String (Dict String Workload)}
    {owners : Dict String Owner} {a b : Node}
    (h : b ∈ successors (buildGraph charts comps relaxedEdges workloads owners).graph a) :
    ∃ reason, (buildGraph charts comps relaxedEdges workloads owners).why.get? (a, b) =
      some reason := by
  have hfold : ∀ (edges : List Edge) (why : Dict (Node × Node) String),
      (a, b) ∈ why.keys ∨ (∃ e ∈ edges, e.src = a ∧ e.dst = b) →
        (a, b) ∈ (edges.foldl (fun why e => why.setdefault (e.src, e.dst) e.reason) why).keys := by
    intro edges
    induction edges with
    | nil => simp
    | cons e rest ih =>
      intro why hor
      rw [List.foldl_cons]
      refine ih _ ?_
      rw [Dict.mem_keys_setdefault]
      rcases hor with hkey | ⟨e', he', rfl, rfl⟩
      · exact .inl (.inl hkey)
      · rcases List.mem_cons.mp he' with rfl | he'
        · exact .inl (.inr rfl)
        · exact .inr ⟨e', he', rfl, rfl⟩
  have hkey := hfold _ Dict.empty (.inr (mem_successors_buildGraph.mp h))
  exact Option.ne_none_iff_exists'.mp fun hnone => Dict.get?_eq_none_iff.mp hnone hkey

end OpenstackBlueprint.Gates
