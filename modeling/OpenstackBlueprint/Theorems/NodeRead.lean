import OpenstackBlueprint.Chart.Compositions

/-!
# What the node-read guard guarantees

`osh.nodeReadGranted` re-implements a fragment of RBAC on the node-reader
ClusterRole and ClusterRoleBinding, so that the node lookup is attempted only
when it is authorized. It does not read `resourceNames`: a rule restricted to
named nodes passes the guard and authorizes no unnamed list, and the guarded
lookup is then Forbidden.

The guard is right exactly when, among the rules it accepts, one is
unrestricted.
-/

namespace OpenstackBlueprint.Theorems.NodeRead

open Chart Kit

/-- When the guard answers, every service account of the release namespace may
list nodes, and the guarded lookup of a render under any of them succeeds. -/
def GuardSound (top : Top) (cl : Cluster) : Prop :=
  oshNodeReadGranted top cl = "true" → ∀ account,
    nodeReaderAllows cl (serviceAccountUser top.releaseNamespace account) = true ∧
      guardedNodes { top with serviceAccount := account } cl = .ok cl.nodes

/-- The binding refers to the node-reader role and names the service accounts
of the namespace. -/
def Binds (ns : String) (b : ClusterRoleBinding) : Prop :=
  b.roleRef.name = oshNodeReaderName ∧ b.roleRef.kind = "ClusterRole" ∧
    ∃ s ∈ b.subjects, bindsServiceAccounts ns s = true

/-- If the binding binds and some rule of the role covers listing nodes, some
such rule carries no `resourceNames`. -/
def Unrestricted (ns : String) (cl : Cluster) : Prop :=
  ∀ role binding, cl.clusterRole oshNodeReaderName = some role →
    cl.clusterRoleBinding oshNodeReaderName = some binding → Binds ns binding →
    (∃ r ∈ role.rules, coversNodeList r = true) →
    ∃ r ∈ role.rules, coversNodeList r = true ∧ r.resourceNames = []

theorem nodeReaderCanList_eq_true {cl : Cluster} :
    nodeReaderCanList cl = "true" ↔ ∃ role, cl.clusterRole oshNodeReaderName = some role ∧
      ∃ r ∈ role.rules, coversNodeList r = true := by
  unfold nodeReaderCanList
  rw [(foldl_flag coversNodeList _ "" (.inr rfl)).1]
  cases cl.clusterRole oshNodeReaderName <;> simp

theorem nodeReaderBound_eq_true {top : Top} {cl : Cluster} :
    nodeReaderBound top cl = "true" ↔
      ∃ b, cl.clusterRoleBinding oshNodeReaderName = some b ∧ Binds top.releaseNamespace b := by
  unfold nodeReaderBound Binds
  cases cl.clusterRoleBinding oshNodeReaderName with
  | none => simp
  | some b =>
    simp only [Option.some.injEq, exists_eq_left']
    split
    · rename_i href
      rw [Bool.and_eq_true, beq_iff_eq, beq_iff_eq] at href
      rw [(foldl_flag (bindsServiceAccounts top.releaseNamespace) _ "" (.inr rfl)).1]
      simp [href.1, href.2]
    · rename_i href
      constructor
      · intro h
        exact absurd h (by simp)
      · rintro ⟨hname, hkind, _⟩
        exact absurd (by simp [hname, hkind]) href

/-- What makes the guard answer. -/
theorem oshNodeReadGranted_eq_true {top : Top} {cl : Cluster} :
    oshNodeReadGranted top cl = "true" ↔
      nodeReaderCanList cl = "true" ∧ nodeReaderBound top cl = "true" := by
  unfold oshNodeReadGranted
  by_cases hcan : nodeReaderCanList cl = "true"
  · by_cases hbound : nodeReaderBound top cl = "true"
    · simp [hcan, hbound]
    · simp [hcan, hbound]
  · simp [hcan]

/-- RBAC asks of a rule what the guard asks, and that it is not restricted to
names. -/
theorem allows_listNodes {r : PolicyRule} :
    r.allows listNodes = true ↔ coversNodeList r = true ∧ r.resourceNames = [] := by
  have hverb : r.verbMatches listNodes = (r.verbs.contains "*" || r.verbs.contains "list") := rfl
  have hgroup : r.apiGroupMatches listNodes =
      (r.apiGroups.contains "*" || r.apiGroups.contains "") := rfl
  have hnames : r.resourceNameMatches listNodes = r.resourceNames.isEmpty := by
    simp [PolicyRule.resourceNameMatches, listNodes]
  have hresource : r.resourceMatches listNodes =
      (r.resources.contains "nodes" || r.resources.contains "*") := by
    rw [Bool.eq_iff_iff, Bool.or_eq_true, List.contains_iff_mem, List.contains_iff_mem]
    unfold PolicyRule.resourceMatches
    rw [List.any_eq_true]
    constructor
    · rintro ⟨rule, hrule, hmatch⟩
      have : rule = "*" ∨ rule = "nodes" := by
        simpa [listNodes, Attributes.combinedResource] using hmatch
      rcases this with rfl | rfl
      · exact .inr hrule
      · exact .inl hrule
    · rintro (h | h)
      · exact ⟨"nodes", h, rfl⟩
      · exact ⟨"*", h, rfl⟩
  unfold PolicyRule.allows coversNodeList
  rw [hverb, hgroup, hnames, hresource, ← List.isEmpty_iff]
  simp only [Bool.and_eq_true, Bool.or_eq_true]
  tauto

/-- The service accounts' group is one of the groups of each of them. -/
theorem appliesTo_serviceAccountUser {ns account : String} {s : Subject}
    (h : bindsServiceAccounts ns s = true) :
    s.appliesTo (serviceAccountUser ns account) = true := by
  obtain ⟨hkind, hname⟩ := Bool.and_eq_true _ _ ▸ h
  refine Subject.appliesTo_group (beq_iff_eq.mp hkind) ?_
  rw [beq_iff_eq.mp hname]
  exact List.mem_cons_of_mem _ List.mem_cons_self

/-- The guard is sound for a release namespace exactly when the rules it
accepts include an unrestricted one. -/
theorem guard_sound_iff_unrestricted (top : Top) (cl : Cluster) :
    GuardSound top cl ↔ Unrestricted top.releaseNamespace cl := by
  constructor
  · intro hsound role binding hrole hbinding hbinds hcovers
    have hgranted := oshNodeReadGranted_eq_true.mpr
      ⟨nodeReaderCanList_eq_true.mpr ⟨role, hrole, hcovers⟩,
        nodeReaderBound_eq_true.mpr ⟨binding, hbinding, hbinds⟩⟩
    have hallows := (hsound hgranted "any").1
    unfold nodeReaderAllows at hallows
    rw [hbinding] at hallows
    simp only [Option.any_some, ClusterRoleBinding.allows, hbinds.1, hrole, Bool.and_eq_true,
      List.any_eq_true] at hallows
    obtain ⟨_, r, hr, hallowsr⟩ := hallows
    exact ⟨r, hr, allows_listNodes.mp hallowsr⟩
  · intro hfree hgranted account
    obtain ⟨hcan, hbound⟩ := oshNodeReadGranted_eq_true.mp hgranted
    obtain ⟨role, hrole, hcovers⟩ := nodeReaderCanList_eq_true.mp hcan
    obtain ⟨binding, hbinding, hbinds⟩ := nodeReaderBound_eq_true.mp hbound
    obtain ⟨r, hr, hrule⟩ := hfree role binding hrole hbinding hbinds hcovers
    have hallows : nodeReaderAllows cl (serviceAccountUser top.releaseNamespace account) = true := by
      obtain ⟨s, hs, hsubject⟩ := hbinds.2.2
      unfold nodeReaderAllows
      rw [hbinding]
      simp only [Option.any_some, ClusterRoleBinding.allows, hbinds.1, hbinds.2.1, hrole,
        beq_self_eq_true, Bool.and_true, Bool.and_eq_true, List.any_eq_true]
      exact ⟨⟨s, hs, appliesTo_serviceAccountUser hsubject⟩, r, hr, allows_listNodes.mpr hrule⟩
    refine ⟨hallows, ?_⟩
    have hgranted' : oshNodeReadGranted { top with serviceAccount := account } cl = "true" :=
      hgranted
    unfold guardedNodes lookupNodes
    rw [hgranted']
    simp [hallows]

/-! ## A grant on one node -/

/-- The node-reader role restricted to one node, bound to the service accounts
of `openstack`. -/
def oneNodeCluster : Cluster where
  crds := []
  compositions := []
  nodes := []
  clusterRole := fun n => if n = oshNodeReaderName then
    some ⟨[⟨[""], ["nodes"], ["node-1"], ["get", "list", "watch"]⟩]⟩ else none
  clusterRoleBinding := fun n => if n = oshNodeReaderName then
    some ⟨⟨"ClusterRole", oshNodeReaderName⟩,
      [⟨"Group", "system:serviceaccounts:openstack", ""⟩]⟩ else none
  nodesReadable := false

/-- A release in `openstack` that selects nothing. -/
def oneNodeTop : Top where
  values :=
    { chartVersion := "0.3.36", profile := .identity, enabled := [], components := []
      dependencyRelaxations := [], nodeLabelPreconditions := [], componentValues := [] }
  releaseNamespace := "openstack"
  serviceAccount := "openstacks-v0-3-36"

/-- The guard answers `"true"`, the accounts may not list nodes, and the render
aborts. -/
theorem guard_unsound_on_named_rule :
    ¬ GuardSound oneNodeTop oneNodeCluster ∧
      oshNodeReadGranted oneNodeTop oneNodeCluster = "true" ∧
      compositions oneNodeTop oneNodeCluster = .error (.forbidden "nodes") := by
  refine ⟨fun h => ?_, rfl, rfl⟩
  have hallows := (h rfl "openstacks-v0-3-36").1
  exact absurd hallows (by decide)

end OpenstackBlueprint.Theorems.NodeRead
