import OpenstackBlueprint.Gates.ComponentDag
import OpenstackBlueprint.Gates.Provisioning

/-!
# Profiles and the dependencies of what they select

`osh.selected` expands `enabled` along the declared dependencies; a profile looks
at every component by itself. Neither gate compares a component's tier or flag
with those of its dependencies, so a profile is closed exactly when the graph
happens to respect the tier or the flag it goes by.
-/

namespace OpenstackBlueprint.Theorems.ProfileClosure

open Chart Gates Kit

/-- No selected component has a dependency that is not selected. -/
def SelectionClosed (top : Top) : Prop :=
  ∀ c ∈ top.values.components, c.name ∈ selectedKeys top → ∀ d ∈ c.deps, d ∈ selectedKeys top

/-- The dependencies respect what the profile goes by: the tier for `identity`, the
flag for `full-strict`. -/
def DepsRespect (comps : List Component) : Profile → Prop
  | .identity => ∀ c ∈ comps, ∀ c' ∈ comps, c'.name ∈ c.deps →
      c.tier = .identity → c'.tier = .identity
  | .full => True
  | .fullStrict => ∀ c ∈ comps, ∀ c' ∈ comps, c'.name ∈ c.deps →
      c.requiresProvisioning = false → c'.requiresProvisioning = false

/-- Two components of one name are the same. -/
theorem eq_of_name_eq {comps : List Component} (hdistinct : (comps.map (·.name)).Nodup)
    {c c' : Component} (hc : c ∈ comps) (hc' : c' ∈ comps) (h : c.name = c'.name) : c = c' :=
  List.inj_on_of_nodup_map hdistinct hc hc' h

/-- A component is selected when the profile's test accepts it. -/
theorem name_mem_selectedKeys {top : Top} (hempty : top.values.enabled = [])
    (hdistinct : (top.values.components.map (·.name)).Nodup) {c : Component}
    (hc : c ∈ top.values.components) :
    c.name ∈ selectedKeys top ↔ top.values.profile.selects c = true := by
  rw [mem_selectedKeys_of_profile hempty]
  constructor
  · rintro ⟨c', hc', hselects, hname⟩
    rwa [← eq_of_name_eq hdistinct hc' hc hname]
  · intro hselects
    exact ⟨c, hc, hselects, rfl⟩

/-- On a closed graph, a profile is closed when its test passes from a component to
its dependencies. -/
theorem selectionClosed_iff_selects {charts : Charts} {top : Top}
    (hempty : top.values.enabled = [])
    (hdistinct : (top.values.components.map (·.name)).Nodup)
    (hdag : DagAccepts charts top.values.components) :
    SelectionClosed top ↔
      ∀ c ∈ top.values.components, ∀ c' ∈ top.values.components, c'.name ∈ c.deps →
        top.values.profile.selects c = true → top.values.profile.selects c' = true := by
  constructor
  · intro hclosed c hc c' hc' hdep hselects
    rw [← name_mem_selectedKeys hempty hdistinct hc']
    exact hclosed c hc ((name_mem_selectedKeys hempty hdistinct hc).mpr hselects) _ hdep
  · -- the gate knows a component for every dependency
    intro hpass c hc hselected d hd
    obtain ⟨c', hc', rfl⟩ := closed_of_dagAccepts hdistinct hdag hc hd
    rw [name_mem_selectedKeys hempty hdistinct hc']
    exact hpass c hc c' hc' hd ((name_mem_selectedKeys hempty hdistinct hc).mp hselected)

/-- On what both gates accept, a profile selects the dependencies of whatever it
selects exactly when the dependencies respect its tier or flag. -/
theorem profile_closed_iff (charts : Charts) (templated : Profile → Bool)
    (decl : List Precondition) (top : Top)
    (hdistinct : (top.values.components.map (·.name)).Nodup)
    (hdag : DagAccepts charts top.values.components)
    (hprovisioning : ProvisioningAccepts templated decl top)
    (hempty : top.values.enabled = []) :
    SelectionClosed top ↔ DepsRespect top.values.components top.values.profile := by
  rw [selectionClosed_iff_selects hempty hdistinct hdag]
  cases top.values.profile with
  | full => simp [DepsRespect, Profile.selects]
  | identity =>
    have hselects : ∀ c : Component, Profile.identity.selects c = true ↔ c.tier = .identity := by
      simp [Profile.selects]
    simp only [DepsRespect, hselects]
  | fullStrict =>
    -- the tier does not matter: nothing flagged is of the identity tier
    have hselects : ∀ c ∈ top.values.components,
        Profile.fullStrict.selects c = true ↔ c.requiresProvisioning = false := by
      intro c hc
      constructor
      · intro h
        by_contra hflag
        have htier := tier_ne_identity_of_accepts hempty hprovisioning hc
          (Bool.eq_true_of_not_eq_false hflag)
        simp [Profile.selects, htier, hflag] at h
      · intro hflag
        simp [Profile.selects, hflag]
    constructor
    · intro hpass c hc c' hc' hdep hflag
      exact (hselects c' hc').mp (hpass c hc c' hc' hdep ((hselects c hc).mpr hflag))
    · intro hrespect c hc c' hc' hdep hselected
      exact (hselects c' hc').mpr (hrespect c hc c' hc' hdep ((hselects c hc).mp hselected))

/-! ## Two component lists -/

/-- Every chart is there and renders. -/
def allCharts : Charts := ⟨fun _ => true, fun n => ⟨0, "kind: " ++ n, ""⟩⟩

/-- What ironic needs, as the precondition file declares it. -/
def ironicPrecondition : Precondition :=
  ⟨some "ironic", some "A network interface named ironic-pxe",
    some "ironic-conductor-0 sits in Init:CrashLoopBackOff", some "ip -o addr show ironic-pxe",
    some 163⟩

def umbrella (profile : Profile) (components : List Component) : Top :=
  ⟨⟨"0.3.11", profile, [], components, [], [], []⟩, "openstack", "openstack-v0-3-11"⟩

/-- keystone, mariadb and the flagged ironic, as the umbrella declares them. -/
def respecting : List Component :=
  [⟨"mariadb", "Mariadb", [], .identity, false⟩,
    ⟨"keystone", "Keystone", ["mariadb"], .identity, false⟩,
    ⟨"ironic", "Ironic", ["keystone", "mariadb"], .compute, true⟩]

/-- keystone waits for a component of the compute tier, nova for a flagged one. -/
def misfit : List Component :=
  [⟨"rabbitmq", "Rabbitmq", [], .compute, false⟩,
    ⟨"keystone", "Keystone", ["rabbitmq"], .identity, false⟩,
    ⟨"ironic", "Ironic", ["keystone"], .compute, true⟩,
    ⟨"nova", "Nova", ["keystone", "ironic"], .compute, false⟩]

/-- `full-strict` selects the dependencies of what it selects from the first list. -/
theorem strict_closed_respecting : SelectionClosed (umbrella .fullStrict respecting) := by
  refine (profile_closed_iff allCharts (fun _ => true) [ironicPrecondition]
    (umbrella .fullStrict respecting) (by decide) ⟨by decide, by rfl⟩ (by rfl) rfl).mpr ?_
  unfold DepsRespect umbrella
  decide

/-- Both gates accept the second list. Of it, `identity` selects keystone without
rabbitmq, and `full-strict` nova without ironic. -/
theorem misfit_left_open :
    (misfit.map (·.name)).Nodup ∧ DagAccepts allCharts misfit ∧
      (ProvisioningAccepts (fun _ => true) [ironicPrecondition] (umbrella .identity misfit) ∧
        ¬SelectionClosed (umbrella .identity misfit)) ∧
      (ProvisioningAccepts (fun _ => true) [ironicPrecondition] (umbrella .fullStrict misfit) ∧
        ¬SelectionClosed (umbrella .fullStrict misfit)) := by
  refine ⟨by decide, ⟨by decide, by rfl⟩, ⟨by rfl, fun h => ?_⟩, by rfl, fun h => ?_⟩
  · have hrabbitmq := h ⟨"keystone", "Keystone", ["rabbitmq"], .identity, false⟩ (by decide)
      (by decide) "rabbitmq" (by decide)
    exact absurd hrabbitmq (by decide)
  · have hironic := h ⟨"nova", "Nova", ["keystone", "ironic"], .compute, false⟩ (by decide)
      (by decide) "ironic" (by decide)
    exact absurd hironic (by decide)

end OpenstackBlueprint.Theorems.ProfileClosure
