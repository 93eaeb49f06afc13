import OpenstackBlueprint.Chart.Compositions
import OpenstackBlueprint.Kit.TSys

/-!
# Runs of an installation

An installation is the release's values, the cluster, and what the renders so
far have put into it. Its steps are the renders of `compositions.yaml` and
everything that can happen between them, in any order: the chart moves to
another version, the selection changes, CRDs gain, lose or stop serving
versions, an object's annotations or status are written, an object is deleted,
nodes and grants change, and a rendered document is applied.

A document may be applied any time after the render that produced it, and the
cluster may have moved on in between. The component list, its relaxations and
the release namespace are fixed for the life of the installation.
-/

namespace OpenstackBlueprint.Chart

open Kit

/-- The state of an installation. `rendered` holds the documents of every
completed render; `created` the names of the objects created from them, in the
order of creation. -/
structure Install where
  top : Top
  cluster : Cluster
  rendered : List Doc
  created : List String

/-- The object a document creates, with whatever annotations and status its
controller has given it by the time it is read. -/
def Doc.object (doc : Doc) (annotations : Option (List (String × String)))
    (status : Option Status) : Composition where
  kind := doc.kind
  ns := doc.ns
  name := doc.name
  annotations := annotations
  status := status

/-- The same object with other annotations and another status. -/
def Composition.write (o : Composition) (annotations : Option (List (String × String)))
    (status : Option Status) : Composition :=
  { o with annotations := annotations, status := status }

/-- One step of an installation. -/
inductive Step : Install → Install → Prop
  /-- A render completes. -/
  | render {s : Install} {docs : List Doc} : compositions s.top s.cluster = .ok docs →
      Step s { s with rendered := s.rendered ++ docs }
  /-- A rendered document is applied and its object did not exist. The API
  server admits no object without a kind or a name. -/
  | create {s : Install} {doc : Doc} (annotations : Option (List (String × String)))
      (status : Option Status) : doc ∈ s.rendered → doc.kind ≠ "" → doc.name ≠ "" →
      s.cluster.find? doc.kind doc.ns doc.name = none →
      Step s { s with
        cluster := { s.cluster with
          compositions := doc.object annotations status :: s.cluster.compositions }
        created := s.created ++ [doc.name] }
  /-- An object's annotations and status are written: it becomes Ready or
  unready, is paused or resumed, is stamped with an origin version. -/
  | write {s : Install} (o : Composition) (annotations : Option (List (String × String)))
      (status : Option Status) :
      Step s { s with cluster := { s.cluster with
        compositions := s.cluster.compositions.map fun o' =>
          if o' = o then o'.write annotations status else o' } }
  /-- An object is deleted. -/
  | delete {s : Install} (o : Composition) :
      Step s { s with cluster := { s.cluster with
        compositions := s.cluster.compositions.filter fun o' => !(o' == o) } }
  /-- The CRD list changes: versions appear, disappear, or stop being served. -/
  | crds {s : Install} (crds : List Crd) :
      Step s { s with cluster := { s.cluster with crds := crds } }
  /-- The chart moves to another version. -/
  | bump {s : Install} (version : String) :
      Step s { s with top := { s.top with
        values := { s.top.values with chartVersion := version } } }
  /-- The profile or the explicit selection changes. -/
  | reselect {s : Install} (profile : Profile) (enabled : List String) :
      Step s { s with top := { s.top with
        values := { s.top.values with profile := profile, enabled := enabled } } }
  /-- Nodes and node grants change. -/
  | nodes {s : Install} (nodes : List Node) (roles : String → Option ClusterRole)
      (bindings : String → Option ClusterRoleBinding) (readable : Bool) :
      Step s { s with cluster := { s.cluster with
        nodes := nodes, clusterRole := roles, clusterRoleBinding := bindings
        nodesReadable := readable } }

/-- The edge from `c` to `d` is listed in `dependencyRelaxations`. -/
def Relaxed (top : Top) (c : Component) (d : String) : Prop :=
  ∃ r ∈ top.values.dependencyRelaxations, r.component = c.name ∧ r.dependency = d

/-- The object of a component exists in the release namespace. -/
def Install.find? (s : Install) (kind name : String) : Option Composition :=
  s.cluster.find? kind s.top.releaseNamespace name

/-! ## The kind of a dependency -/

theorem kindOf_from (comps : List Component) (name init : String) :
    comps.foldl (fun kind c => if c.name == name then c.kind else kind) init = init ∨
      ∃ c ∈ comps, c.name = name ∧
        comps.foldl (fun kind c => if c.name == name then c.kind else kind) init = c.kind := by
  induction comps generalizing init with
  | nil => exact .inl rfl
  | cons c comps ih =>
    rw [List.foldl_cons]
    rcases ih (if c.name == name then c.kind else init) with h | ⟨c', hc', hname, hkind⟩
    · by_cases hn : c.name = name
      · refine .inr ⟨c, List.mem_cons_self, hn, ?_⟩
        rw [h, if_pos (by simpa using hn)]
      · exact .inl (by rw [h, if_neg (by simpa using hn)])
    · exact .inr ⟨c', List.mem_cons_of_mem _ hc', hname, hkind⟩

/-- A name that resolves to a kind is a component's, and the kind is its. -/
theorem exists_of_kindOf_ne_empty {comps : List Component} {name : String}
    (h : kindOf comps name ≠ "") : ∃ c ∈ comps, c.name = name ∧ kindOf comps name = c.kind :=
  (kindOf_from comps name "").resolve_left h

/-- With distinct names the kind loop finds the component's own kind. -/
theorem kindOf_eq {comps : List Component} (hdistinct : (comps.map (·.name)).Nodup)
    {c : Component} (hc : c ∈ comps) : kindOf comps c.name = c.kind := by
  unfold kindOf
  induction comps with
  | nil => exact absurd hc (List.not_mem_nil)
  | cons c' comps ih =>
    rw [List.map_cons, List.nodup_cons] at hdistinct
    rw [List.foldl_cons]
    rcases List.mem_cons.mp hc with rfl | hmem
    · rw [if_pos (by simp)]
      rcases kindOf_from comps c.name c.kind with h | ⟨c'', hc'', hname, _⟩
      · exact h
      · exact absurd (List.mem_map.mpr ⟨c'', hc'', hname⟩) hdistinct.1
    · have hne : c'.name ≠ c.name := fun h =>
        hdistinct.1 (h ▸ List.mem_map.mpr ⟨c, hmem, rfl⟩)
      rw [if_neg (by simpa using hne)]
      exact ih hdistinct.2 hmem

/-! ## The partition of a component's dependencies

The relaxed names travel as one space-joined string, so a name with a space in
it falls apart on the way. -/

/-- The list `osh.depsRelaxed` joins. -/
theorem oshDepsRelaxed_eq (top : Top) (c : Component) :
    ∃ names : List String, oshDepsRelaxed top c.name c.deps = join ' ' names ∧
      ∀ d, d ∈ names ↔ d ∈ c.deps ∧ Relaxed top c d := by
  refine ⟨_, rfl, fun d => ?_⟩
  rw [mem_uniq, List.mem_flatMap]
  constructor
  · rintro ⟨d', hd', hmem⟩
    obtain ⟨r, hr, rfl⟩ := List.mem_map.mp hmem
    rw [List.mem_filter] at hr
    exact ⟨hd', r, hr.1, by simpa using hr.2⟩
  · rintro ⟨hd, r, hr, hcomp, hdep⟩
    refine ⟨d, hd, List.mem_map.mpr ⟨r, List.mem_filter.mpr ⟨hr, ?_⟩, rfl⟩⟩
    simp [hcomp, hdep]

/-- A relaxed dependency whose name survives the encoding is in `$relaxed`. -/
theorem mem_relaxedDeps_of {top : Top} {c : Component} {d : String} (hd : d ∈ c.deps)
    (hrelaxed : Relaxed top c d) (hspace : ' ' ∉ d.toList) (hne : d ≠ "") :
    d ∈ relaxedDeps top c := by
  obtain ⟨names, hjoin, hnames⟩ := oshDepsRelaxed_eq top c
  unfold relaxedDeps
  rw [hjoin, mem_compact]
  exact ⟨mem_splitList_join ((hnames d).mpr ⟨hd, hrelaxed⟩) hspace, hne⟩

/-- Whatever stands in `$relaxed` is a piece of a relaxed dependency. -/
theorem exists_of_mem_relaxedDeps {top : Top} {c : Component} {d : String}
    (h : d ∈ relaxedDeps top c) :
    d ≠ "" ∧ ∃ d' ∈ c.deps, Relaxed top c d' ∧ d ∈ splitList ' ' d' := by
  obtain ⟨names, hjoin, hnames⟩ := oshDepsRelaxed_eq top c
  unfold relaxedDeps at h
  rw [hjoin, mem_compact] at h
  refine ⟨h.2, ?_⟩
  cases names with
  | nil =>
    have hempty : d = "" := by simpa [join, List.intercalate, splitList] using h.1
    exact absurd hempty h.2
  | cons n names =>
    obtain ⟨d', hd', hpiece⟩ := exists_of_mem_splitList_join (List.cons_ne_nil n names) h.1
    exact ⟨d', ((hnames d').mp hd').1, ((hnames d').mp hd').2, hpiece⟩

theorem mem_strictDeps {top : Top} {c : Component} {d : String} :
    d ∈ strictDeps top c ↔ d ∈ c.deps ∧ d ∉ relaxedDeps top c := by
  simp [strictDeps]

/-- When no dependency name holds a space or is empty, the partition is the one
the relaxations declare. -/
theorem mem_relaxedDeps {top : Top} {c : Component}
    (hnames : ∀ d ∈ c.deps, ' ' ∉ d.toList ∧ d ≠ "") {d : String} :
    d ∈ relaxedDeps top c ↔ d ∈ c.deps ∧ Relaxed top c d := by
  constructor
  · intro h
    obtain ⟨_, d', hd', hrelaxed, hpiece⟩ := exists_of_mem_relaxedDeps h
    rw [splitList_of_not_mem (hnames d' hd').1, List.mem_singleton] at hpiece
    exact hpiece ▸ ⟨hd', hrelaxed⟩
  · rintro ⟨hd, hrelaxed⟩
    exact mem_relaxedDeps_of hd hrelaxed (hnames d hd).1 (hnames d hd).2

/-- Every dependency is gated by one of the two predicates. -/
theorem mem_strict_or_relaxed (top : Top) {c : Component} {d : String} (hd : d ∈ c.deps) :
    d ∈ strictDeps top c ∨ d ∈ relaxedDeps top c := by
  by_cases h : d ∈ relaxedDeps top c
  · exact .inr h
  · exact .inl (mem_strictDeps.mpr ⟨hd, h⟩)

/-- A selected name holds no space. -/
theorem not_mem_space_of_selected {top : Top} {name : String} (h : name ∈ selection top) :
    ' ' ∉ name.toList :=
  not_mem_of_mem_splitList h

end OpenstackBlueprint.Chart
