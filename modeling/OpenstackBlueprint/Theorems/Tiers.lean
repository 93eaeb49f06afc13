import OpenstackBlueprint.Chart.Install
import OpenstackBlueprint.Kit.Reach

/-!
# The install converges tier by tier

One render emits one tier. When every emitted component is Ready before the
next render, the n-th render emits exactly the selected components whose
longest dependency chain has fewer than n edges.

The feedback through the cluster is a recurrence: a component is emitted when
its object exists or all its dependencies' objects do (`gateOpen_iff`), and
chains of `n + 1` edges start where chains of `n` edges start at a dependency
(`starts_succ`). Strictness of an edge makes no difference once existing
objects are Ready.
-/

namespace OpenstackBlueprint.Theorems.Tiers

open Chart Kit

/-- The object of a component exists. -/
def Live (top : Top) (cl : Cluster) (c : Component) : Prop :=
  ∃ o, cl.find? c.kind top.releaseNamespace c.name = some o

/-- A completed render emits the component. -/
def Emits (top : Top) (cl : Cluster) (c : Component) : Prop :=
  ∃ docs, compositions top cl = .ok docs ∧
    ∃ doc ∈ docs, doc.kind = c.kind ∧ doc.name = c.name

/-- Ready with reason Available. -/
def isAvailable (c : Condition) : Bool :=
  c.type == some "Ready" && c.status == some "True" && c.reason == some "Available"

/-- A cluster in which every component CRD serves the current version, the
node-label check lets renders through, and every component object is Ready with
reason Available and not paused. -/
structure Settled (top : Top) (cl : Cluster) : Prop where
  served : ∀ c ∈ top.values.components, Serves cl.crds c.kind (oshVersion top)
  nodes : NodeCheckPasses top cl
  available : ∀ c ∈ top.values.components, ∀ o,
    cl.find? c.kind top.releaseNamespace c.name = some o →
      o.HasCondition isAvailable ∧ ¬ o.HasCondition Condition.paused

/-- The clusters that successive renders read, the `(n + 1)`-th render `cl n`.
Component objects come from earlier renders, and what a render emits exists
before the next one. -/
structure Converging (top : Top) (cl : Nat → Cluster) : Prop where
  settled : ∀ n, Settled top (cl n)
  empty : ∀ c ∈ top.values.components, ¬ Live top (cl 0) c
  emitted : ∀ n, ∀ c ∈ top.values.components, Emits top (cl n) c → Live top (cl (n + 1)) c
  origin : ∀ n, ∀ c ∈ top.values.components, Live top (cl (n + 1)) c →
    ∃ m ≤ n, Emits top (cl m) c

/-- The components list is closed and acyclic with distinct names, and the
selection is closed under dependencies. -/
structure WellFormed (top : Top) : Prop where
  distinct : (top.values.components.map (·.name)).Nodup
  closed : ∀ a b, DependsOn top.values.components a b →
    ∃ c ∈ top.values.components, c.name = b
  acyclic : Acyclic (DependsOn top.values.components)
  selection : ∀ a b, a ∈ selection top → DependsOn top.values.components a b →
    b ∈ selection top

/-! ## The gate in a settled cluster -/

section Gate

variable {top : Top} {cl : Cluster}

theorem available_ready {o : Composition} (h : o.HasCondition isAvailable) :
    o.HasCondition Condition.ready := by
  obtain ⟨status, hs, c, hc, hav⟩ := h
  refine ⟨status, hs, c, hc, ?_⟩
  unfold isAvailable at hav
  simp only [Bool.and_eq_true, beq_iff_eq] at hav
  unfold Condition.ready
  rw [hav.1.1, hav.1.2, hav.2]
  decide

/-- What the render sees of a component is its object. -/
theorem visible_eq (h : Settled top cl) {c : Component} (hc : c ∈ top.values.components) :
    visible top c.kind c.name cl = cl.find? c.kind top.releaseNamespace c.name :=
  visible_eq_find? (h.served c hc) (oshVersion_ne_empty top)

/-- A dependency of a selected component is a component, with a name that
survives the string encoding. -/
theorem WellFormed.dependency (hwf : WellFormed top) {c : Component}
    (hc : c ∈ top.values.components) (hsel : c.name ∈ Chart.selection top) {d : String}
    (hd : d ∈ c.deps) :
    ' ' ∉ d.toList ∧ ∃ c' ∈ top.values.components, c'.name = d ∧
      c'.name ∈ Chart.selection top ∧ kindOf top.values.components d = c'.kind := by
  have hdep : DependsOn top.values.components c.name d := ⟨c, hc, rfl, hd⟩
  have hdsel := hwf.selection c.name d hsel hdep
  obtain ⟨c', hc', rfl⟩ := hwf.closed c.name d hdep
  exact ⟨not_mem_space_of_selected hdsel, c', hc', rfl, hdsel, kindOf_eq hwf.distinct hc'⟩

theorem mem_deps_of_mem_relaxedDeps (hwf : WellFormed top) {c : Component}
    (hc : c ∈ top.values.components) (hsel : c.name ∈ Chart.selection top) {d : String}
    (hd : d ∈ relaxedDeps top c) : d ∈ c.deps := by
  obtain ⟨_, d', hd', _, hpiece⟩ := exists_of_mem_relaxedDeps hd
  rw [splitList_of_not_mem (hwf.dependency hc hsel hd').1, List.mem_singleton] at hpiece
  exact hpiece ▸ hd'

/-- Everything the gate of a selected component looks at has a status. -/
theorem depsHaveStatus (hwf : WellFormed top) (h : Settled top cl) {c : Component}
    (hc : c ∈ top.values.components) (hsel : c.name ∈ Chart.selection top) :
    DepsHaveStatus top cl c := by
  intro d hd o ho
  have hdeps : d ∈ c.deps := by
    rcases List.mem_append.mp hd with hd | hd
    · exact (mem_strictDeps.mp hd).1
    · exact mem_deps_of_mem_relaxedDeps hwf hc hsel hd
  obtain ⟨_, c', hc', rfl, _, hkind⟩ := hwf.dependency hc hsel hdeps
  rw [hkind, visible_eq h hc'] at ho
  obtain ⟨status, hs, _⟩ := (h.available c' hc' o ho).1
  rw [hs]
  simp

/-- What a dependency's name resolves to is the object of its component. -/
theorem visible_dependency (hwf : WellFormed top) (h : Settled top cl) {c' : Component}
    (hc' : c' ∈ top.values.components) :
    visible top (kindOf top.values.components c'.name) c'.name cl =
      cl.find? c'.kind top.releaseNamespace c'.name := by
  rw [kindOf_eq hwf.distinct hc', visible_eq h hc']

/-- With the current version served, the version a component is emitted at is
served. -/
theorem serves_emitVersionOf {c : Component}
    (hserved : Serves cl.crds c.kind (oshVersion top)) :
    Serves cl.crds c.kind (emitVersionOf top cl c) := by
  unfold emitVersionOf
  cases visible top c.kind c.name cl with
  | some o =>
    exact serves_oshResolveVersion
      (oshServedVersion_ne_empty hserved (oshVersion_ne_empty top))
  | none =>
    dsimp only
    rw [oshResolveVersion_absent]
    exact hserved

/-- In a settled cluster the gate opens for an existing object and for one
whose dependencies all exist. -/
theorem gateOpen_iff (hwf : WellFormed top) (h : Settled top cl) {c : Component}
    (hc : c ∈ top.values.components) (hsel : c.name ∈ Chart.selection top) :
    GateOpen top cl c (emitVersionOf top cl c) ↔
      Live top cl c ∨ ∀ c' ∈ top.values.components, c'.name ∈ c.deps → Live top cl c' := by
  constructor
  · rintro ⟨_, hvis | ⟨hstrict, hrelaxed⟩⟩
    · rw [visible_eq h hc] at hvis
      exact .inl (Option.isSome_iff_exists.mp hvis)
    · -- strict or relaxed, a dependency that passes is there
      refine .inr fun c' hc' hdep => ?_
      obtain ⟨o, ho⟩ : ∃ o, visible top (kindOf top.values.components c'.name) c'.name cl
          = some o := by
        rcases mem_strict_or_relaxed top hdep with hd | hd
        · obtain ⟨o, ho, _⟩ := hstrict _ hd
          exact ⟨o, ho⟩
        · obtain ⟨o, ho, _⟩ := hrelaxed _ hd
          exact ⟨o, ho⟩
      rw [visible_dependency hwf h hc'] at ho
      exact ⟨o, ho⟩
  · intro hdeps
    refine ⟨serves_emitVersionOf (h.served c hc), ?_⟩
    rcases hdeps with ⟨o, ho⟩ | hall
    · rw [visible_eq h hc, ho]
      exact .inl rfl
    · have hdep : ∀ d ∈ c.deps, ∃ o, visible top (kindOf top.values.components d) d cl = some o ∧
          o.HasCondition isAvailable ∧ ¬ o.HasCondition Condition.paused := by
        intro d hd
        obtain ⟨_, c', hc', rfl, _, _⟩ := hwf.dependency hc hsel hd
        obtain ⟨o, ho⟩ := hall c' hc' hd
        exact ⟨o, (visible_dependency hwf h hc').trans ho, h.available c' hc' o ho⟩
      refine .inr ⟨fun d hd => ?_, fun d hd => ?_⟩
      · obtain ⟨o, ho, hav, _⟩ := hdep d (mem_strictDeps.mp hd).1
        exact ⟨o, ho, available_ready hav⟩
      · obtain ⟨o, ho, ⟨status, hs, _⟩, hpaused⟩ :=
          hdep d (mem_deps_of_mem_relaxedDeps hwf hc hsel hd)
        exact ⟨o, ho, by simp [hs], hpaused⟩

/-- A render of a settled cluster completes, and emits a component exactly when
it is selected and its gate is open. -/
theorem emits_iff (hwf : WellFormed top) (h : Settled top cl) {c : Component}
    (hc : c ∈ top.values.components) :
    Emits top cl c ↔ c.name ∈ Chart.selection top ∧
      (Live top cl c ∨ ∀ c' ∈ top.values.components, c'.name ∈ c.deps → Live top cl c') := by
  obtain ⟨docs, hdocs⟩ := compositions_isOk h.nodes fun c hc hsel => depsHaveStatus hwf h hc hsel
  constructor
  · rintro ⟨docs', hdocs', doc, hdoc, _, hname⟩
    obtain ⟨c', hc', hsel, hopen, rfl⟩ := (compositions_ok hdocs' doc).mp hdoc
    obtain rfl : c' = c := List.inj_on_of_nodup_map hwf.distinct hc' hc hname
    exact ⟨hsel, (gateOpen_iff hwf h hc hsel).mp hopen⟩
  · rintro ⟨hsel, hgate⟩
    exact ⟨docs, hdocs, _, (compositions_ok hdocs _).mpr
      ⟨c, hc, hsel, (gateOpen_iff hwf h hc hsel).mpr hgate, rfl⟩, rfl, rfl⟩

end Gate

/-! ## The recurrence -/

section Recurrence

variable {top : Top} {cl : Nat → Cluster}

/-- By induction on the renders: before render `n + 1` the components without
a chain of `n` edges exist, and it emits those without one of `n + 1`. -/
theorem emits_iff_not_starts (hwf : WellFormed top) (h : Converging top cl) (n : Nat) :
    ∀ c ∈ top.values.components, Emits top (cl n) c ↔
      c.name ∈ Chart.selection top ∧ ¬ Starts (DependsOn top.values.components) (n + 1) c.name := by
  induction n using Nat.strongRecOn with
  | ind n ih =>
    have hexists : ∀ c ∈ top.values.components, Live top (cl n) c ↔
        c.name ∈ Chart.selection top ∧ ¬ Starts (DependsOn top.values.components) n c.name := by
      intro c hc
      cases n with
      | zero =>
        constructor
        · intro hex
          exact absurd hex (h.empty c hc)
        · rintro ⟨_, hnot⟩
          exact absurd ⟨c.name, .nil c.name⟩ hnot
      | succ n =>
        constructor
        · intro hex
          obtain ⟨m, hm, hemits⟩ := h.origin n c hc hex
          obtain ⟨hsel, hnot⟩ := (ih m (by omega) c hc).mp hemits
          exact ⟨hsel, fun hstarts => hnot (hstarts.mono (by omega))⟩
        · intro hsel
          exact h.emitted n c hc ((ih n (by omega) c hc).mpr hsel)
    intro c hc
    rw [emits_iff hwf (h.settled n) hc]
    refine and_congr_right fun hsel => ?_
    constructor
    · rintro (hex | hall) hstarts
      · exact ((hexists c hc).mp hex).2 (hstarts.mono (by omega))
      · obtain ⟨d, hdep, hd⟩ := starts_succ.mp hstarts
        obtain ⟨c', hc', rfl⟩ := hwf.closed c.name d hdep
        obtain ⟨c'', hc'', hname, hmem⟩ := hdep
        obtain rfl : c'' = c := List.inj_on_of_nodup_map hwf.distinct hc'' hc hname
        exact ((hexists c' hc').mp (hall c' hc' hmem)).2 hd
    · intro hnot
      refine .inr fun c' hc' hdep => (hexists c' hc').mpr ⟨?_, fun hstarts => ?_⟩
      · exact hwf.selection c.name c'.name hsel ⟨c, hc, rfl, hdep⟩
      · exact hnot (starts_succ.mpr ⟨c'.name, ⟨c, hc, rfl, hdep⟩, hstarts⟩)

end Recurrence

/-! ## Convergence -/

/-- The longest dependency chain of a component, in edges. -/
noncomputable def chainLength (top : Top) (name : String) : Nat :=
  depth (DependsOn top.values.components) name

/-- The longest dependency chain of the selection. -/
noncomputable def longestChain (top : Top) : Nat :=
  ((top.values.components.filter fun c => (selection top).contains c.name).map
    fun c => chainLength top c.name).foldr max 0

theorem le_foldr_max {l : List Nat} {k : Nat} (h : k ∈ l) : k ≤ l.foldr max 0 := by
  induction l with
  | nil => exact absurd h List.not_mem_nil
  | cons a l ih =>
    rw [List.foldr_cons]
    rcases List.mem_cons.mp h with rfl | h
    · exact le_max_left _ _
    · exact le_trans (ih h) (le_max_right _ _)

/-- The `(n + 1)`-th render completes and emits exactly the selected components
whose longest chain has fewer than `n + 1` edges; what a render emits the next
one emits again; and from the longest chain of the selection on, everything
selected is emitted. -/
theorem install_converges_by_tier (top : Top) (cl : Nat → Cluster) (hwf : WellFormed top)
    (h : Converging top cl) :
    (∀ n, ∃ docs, compositions top (cl n) = .ok docs ∧
      ∀ name, (∃ doc ∈ docs, doc.name = name) ↔
        (∃ c ∈ top.values.components, c.name = name) ∧ name ∈ selection top ∧
          chainLength top name < n + 1) ∧
    (∀ n, ∀ c ∈ top.values.components, Emits top (cl n) c → Emits top (cl (n + 1)) c) ∧
    (∀ n ≥ longestChain top, ∀ c ∈ top.values.components, c.name ∈ selection top →
      Emits top (cl n) c) := by
  have hdepth : ∀ n name, chainLength top name < n ↔
      ¬ Starts (DependsOn top.values.components) n name := by
    intro n name
    have hsources : ∀ a b, DependsOn top.values.components a b →
        a ∈ top.values.components.map (·.name) := by
      rintro a b ⟨c, hc, rfl, _⟩
      exact List.mem_map.mpr ⟨c, hc, rfl⟩
    exact depth_lt_iff hwf.acyclic hsources
  have hemits : ∀ n, ∀ c ∈ top.values.components, Emits top (cl n) c ↔
      c.name ∈ selection top ∧ chainLength top c.name < n + 1 := by
    intro n c hc
    rw [hdepth]
    exact emits_iff_not_starts hwf h n c hc
  refine ⟨fun n => ?_, fun n c hc hn => ?_, fun n hn c hc hsel => ?_⟩
  · obtain ⟨docs, hdocs⟩ := compositions_isOk (h.settled n).nodes
      fun c hc hsel => depsHaveStatus hwf (h.settled n) hc hsel
    refine ⟨docs, hdocs, fun name => ?_⟩
    constructor
    · rintro ⟨doc, hdoc, rfl⟩
      obtain ⟨c, hc, _, _, rfl⟩ := (compositions_ok hdocs doc).mp hdoc
      exact ⟨⟨c, hc, rfl⟩, (hemits n c hc).mp ⟨docs, hdocs, _, hdoc, rfl, rfl⟩⟩
    · rintro ⟨⟨c, hc, rfl⟩, hsel⟩
      obtain ⟨docs', hdocs', doc, hdoc, _, hname⟩ := (hemits n c hc).mpr hsel
      rw [hdocs] at hdocs'
      cases hdocs'
      exact ⟨doc, hdoc, hname⟩
  · obtain ⟨hsel, hlt⟩ := (hemits n c hc).mp hn
    exact (hemits (n + 1) c hc).mpr ⟨hsel, by omega⟩
  · refine (hemits n c hc).mpr ⟨hsel, ?_⟩
    have hle : chainLength top c.name ≤ longestChain top := by
      refine le_foldr_max (List.mem_map.mpr ⟨c, ?_, rfl⟩)
      simpa using ⟨hc, hsel⟩
    omega

/-! ## keystone on mariadb -/

def twoTierTop : Top where
  values :=
    { chartVersion := "0.3.36", profile := .identity, enabled := []
      components :=
        [⟨"keystone", "Keystone", ["mariadb"], .identity, false⟩,
         ⟨"mariadb", "Mariadb", [], .identity, false⟩]
      dependencyRelaxations := [], nodeLabelPreconditions := [], componentValues := [] }
  releaseNamespace := "openstack"
  serviceAccount := "openstacks-v0-3-36"

/-- The object of a component that is Ready with reason Available. -/
def availableObject (kind name : String) : Composition where
  kind := kind
  ns := "openstack"
  name := name
  annotations := none
  status := some ⟨some [⟨some "Ready", some "True", some "Available"⟩]⟩

/-- No object, then mariadb, then both. -/
def twoTierCluster (n : Nat) : Cluster where
  crds := [⟨compositionGroup, "Mariadb", [⟨"v0-3-36", true⟩]⟩,
    ⟨compositionGroup, "Keystone", [⟨"v0-3-36", true⟩]⟩]
  compositions :=
    match n with
    | 0 => []
    | 1 => [availableObject "Mariadb" "mariadb"]
    | _ => [availableObject "Mariadb" "mariadb", availableObject "Keystone" "keystone"]
  nodes := []
  clusterRole := fun _ => none
  clusterRoleBinding := fun _ => none
  nodesReadable := false

theorem twoTier_dependsOn {a b : String} (h : DependsOn twoTierTop.values.components a b) :
    a = "keystone" ∧ b = "mariadb" := by
  obtain ⟨c, hc, rfl, hb⟩ := h
  rcases List.mem_cons.mp hc with rfl | hc
  · exact ⟨rfl, List.mem_singleton.mp hb⟩
  · rw [List.mem_singleton.mp hc] at hb
    exact absurd hb List.not_mem_nil

theorem twoTier_wellFormed : WellFormed twoTierTop where
  distinct := by decide
  closed := by
    rintro a b h
    obtain ⟨_, rfl⟩ := twoTier_dependsOn h
    exact ⟨⟨"mariadb", "Mariadb", [], .identity, false⟩, by decide, rfl⟩
  acyclic := by
    intro a h
    obtain ⟨b, hab, _⟩ := Relation.TransGen.head'_iff.mp h
    obtain ⟨c, _, hca⟩ := Relation.TransGen.tail'_iff.mp h
    have hkeystone := (twoTier_dependsOn hab).1
    have hmariadb := (twoTier_dependsOn hca).2
    exact absurd (hkeystone.symm.trans hmariadb) (by decide)
  selection := by
    intro a b _ h
    rw [(twoTier_dependsOn h).2]
    decide

theorem availableObject_conditions (kind name : String) :
    (availableObject kind name).HasCondition isAvailable ∧
      ¬ (availableObject kind name).HasCondition Condition.paused := by
  constructor
  · exact ⟨_, rfl, _, List.mem_singleton.mpr rfl, by decide⟩
  · rintro ⟨status, hs, c, hc, hpaused⟩
    cases hs
    rw [List.mem_singleton.mp hc] at hpaused
    exact absurd hpaused (by decide)

theorem twoTier_settled (n : Nat) : Settled twoTierTop (twoTierCluster n) where
  served := by
    intro c hc
    rcases List.mem_cons.mp hc with rfl | hc
    · exact ⟨⟨compositionGroup, "Keystone", [⟨"v0-3-36", true⟩]⟩, by simp [twoTierCluster],
        rfl, rfl, ⟨"v0-3-36", true⟩, by simp, by decide, rfl⟩
    · rw [List.mem_singleton.mp hc]
      exact ⟨⟨compositionGroup, "Mariadb", [⟨"v0-3-36", true⟩]⟩, by simp [twoTierCluster],
        rfl, rfl, ⟨"v0-3-36", true⟩, by simp, by decide, rfl⟩
  nodes := ⟨[], rfl, rfl⟩
  available := by
    intro c _ o ho
    have hmem := (Cluster.find?_some ho).1
    obtain ⟨kind, name, rfl⟩ : ∃ kind name, o = availableObject kind name := by
      match n with
      | 0 => exact absurd hmem List.not_mem_nil
      | 1 => exact ⟨_, _, List.mem_singleton.mp hmem⟩
      | n + 2 =>
        rcases List.mem_cons.mp hmem with rfl | hmem
        · exact ⟨_, _, rfl⟩
        · exact ⟨_, _, List.mem_singleton.mp hmem⟩
    exact availableObject_conditions kind name

/-- What a render emits, read off its evaluation. -/
theorem emits_iff_mem {top : Top} {cl : Cluster} {l : List (String × String)}
    (h : (compositions top cl).map (·.map fun d => (d.kind, d.name)) = .ok l) {c : Component} :
    Emits top cl c ↔ (c.kind, c.name) ∈ l := by
  unfold Emits
  cases hdocs : compositions top cl with
  | error e =>
    rw [hdocs] at h
    cases h
  | ok docs =>
    rw [hdocs] at h
    cases h
    simp [Prod.ext_iff]

theorem twoTier_renders (n : Nat) :
    (compositions twoTierTop (twoTierCluster n)).map (·.map fun d => (d.kind, d.name)) =
      .ok (if n = 0 then [("Mariadb", "mariadb")]
        else [("Keystone", "keystone"), ("Mariadb", "mariadb")]) := by
  match n with
  | 0 => rfl
  | 1 => rfl
  | n + 2 => rfl

theorem twoTier_converging : Converging twoTierTop twoTierCluster where
  settled := twoTier_settled
  empty := by
    rintro c _ ⟨o, ho⟩
    exact absurd (Cluster.find?_some ho).1 List.not_mem_nil
  emitted := by
    intro n c hc hemits
    rw [emits_iff_mem (twoTier_renders n)] at hemits
    rcases List.mem_cons.mp hc with rfl | hc
    · cases n with
      | zero => exact absurd hemits (by decide)
      | succ n => exact ⟨_, rfl⟩
    · rw [List.mem_singleton.mp hc]
      cases n <;> exact ⟨_, rfl⟩
  origin := by
    rintro n c hc ⟨o, ho⟩
    rcases List.mem_cons.mp hc with rfl | hc
    · cases n with
      | zero => cases ho
      | succ n => exact ⟨1, by omega, (emits_iff_mem (twoTier_renders 1)).mpr (by decide)⟩
    · rw [List.mem_singleton.mp hc]
      exact ⟨0, by omega, (emits_iff_mem (twoTier_renders 0)).mpr (by decide)⟩

/-- keystone is not in the first render and is in every later one. -/
theorem twoTier_converges :
    WellFormed twoTierTop ∧ Converging twoTierTop twoTierCluster ∧
      (∀ n, ∃ docs, compositions twoTierTop (twoTierCluster n) = .ok docs ∧
        ∀ name, (∃ doc ∈ docs, doc.name = name) ↔
          (∃ c ∈ twoTierTop.values.components, c.name = name) ∧ name ∈ selection twoTierTop ∧
            chainLength twoTierTop name < n + 1) ∧
      longestChain twoTierTop ≠ 0 := by
  have h := install_converges_by_tier twoTierTop twoTierCluster twoTier_wellFormed
    twoTier_converging
  refine ⟨twoTier_wellFormed, twoTier_converging, h.1, fun hzero => ?_⟩
  have hemits := h.2.2 0 (by omega) ⟨"keystone", "Keystone", ["mariadb"], .identity, false⟩
    (by decide) (by decide)
  rw [emits_iff_mem (twoTier_renders 0)] at hemits
  exact absurd hemits (by decide)

end OpenstackBlueprint.Theorems.Tiers
