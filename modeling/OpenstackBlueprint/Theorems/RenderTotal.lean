import OpenstackBlueprint.Chart.Install

/-!
# When a render aborts because of what the cluster holds

Between the creation of a Composition and the first status write on it, the
object has no `status`. `osh.ready` and `osh.paused` evaluate
`$o.status.conditions` on it, which is a nil pointer evaluation and not an
empty list, so a render that meets the object in that window aborts as a whole.
`osh.originVersion` parenthesises the same kind of access and does not.

The helpers yield values for a selection exactly when every object they read
has a status.
-/

namespace OpenstackBlueprint.Theorems.RenderTotal

open Chart Kit

/-- A template evaluation that yields a value. -/
def Yields {α : Type} (t : Tpl α) : Prop := ∃ v, t = .ok v

/-- Every lookup helper and both dependency predicates yield a value for one
component. -/
structure ComponentTotal (top : Top) (cl : Cluster) (c : Component) : Prop where
  exist : Yields (oshExists top c.kind c.name cl.crds cl)
  ready : Yields (oshReady top c.kind c.name cl.crds cl)
  paused : Yields (oshPaused top c.kind c.name cl.crds cl)
  originVersion : Yields (oshOriginVersion top c.kind c.name cl.crds cl)
  emitVersion : ∀ exist, Yields (oshEmitVersion top c.kind c.name cl.crds cl exist)
  depsReady : Yields (oshDepsReady top (strictDeps top c) top.values.components cl.crds cl)
  depsExist : Yields (oshDepsExist top (relaxedDeps top c) top.values.components cl.crds cl)

/-- The helpers never abort for a selected component. -/
def NeverAborts (top : Top) (cl : Cluster) : Prop :=
  ∀ c ∈ top.values.components, c.name ∈ selection top → ComponentTotal top cl c

/-- Every object the helpers can see of the selected components and of their
dependencies has a status. -/
def StatusWritten (top : Top) (cl : Cluster) : Prop :=
  ∀ c ∈ top.values.components, c.name ∈ selection top →
    (∀ o, visible top c.kind c.name cl = some o → o.status ≠ none) ∧ DepsHaveStatus top cl c

theorem componentTotal_iff {top : Top} {cl : Cluster} {c : Component} :
    ComponentTotal top cl c ↔
      (∀ o, visible top c.kind c.name cl = some o → o.status ≠ none) ∧
        DepsHaveStatus top cl c := by
  have hdeps : DepsHaveStatus top cl c ↔
      Yields (oshDepsReady top (strictDeps top c) top.values.components cl.crds cl) ∧
      Yields (oshDepsExist top (relaxedDeps top c) top.values.components cl.crds cl) := by
    unfold Yields
    rw [oshDepsReady_isOk, oshDepsExist_isOk]
    unfold DepsHaveStatus
    simp only [List.mem_append, or_imp, forall_and]
  rw [hdeps]
  constructor
  · intro h
    have hready := h.ready
    unfold Yields at hready
    rw [oshReady_eq, conditionRead_isOk] at hready
    exact ⟨hready, h.depsReady, h.depsExist⟩
  · rintro ⟨hown, hstrict, hrelaxed⟩
    refine ⟨?_, ?_, ?_, ?_, ?_, hstrict, hrelaxed⟩
    · exact ⟨_, oshExists_eq top c.kind c.name cl⟩
    · unfold Yields
      rw [oshReady_eq, conditionRead_isOk]
      exact hown
    · unfold Yields
      rw [oshPaused_eq, conditionRead_isOk]
      exact hown
    · exact ⟨_, oshOriginVersion_eq top c.kind c.name cl⟩
    · intro exist
      unfold Yields oshEmitVersion
      rw [oshOriginVersion_eq]
      exact ⟨_, rfl⟩

/-- The helpers yield values on a cluster exactly when every object they see
has been given a status. -/
theorem never_aborts_iff_status_written (top : Top) (cl : Cluster) :
    NeverAborts top cl ↔ StatusWritten top cl := by
  unfold NeverAborts StatusWritten
  exact forall₃_congr fun _ _ _ => componentTotal_iff

/-! ## The window after a creation -/

/-- keystone on mariadb, at 0.3.36. -/
def windowTop : Top where
  values :=
    { chartVersion := "0.3.36", profile := .identity, enabled := []
      components :=
        [⟨"mariadb", "Mariadb", [], .identity, false⟩,
         ⟨"keystone", "Keystone", ["mariadb"], .identity, false⟩]
      dependencyRelaxations := [], nodeLabelPreconditions := [], componentValues := [] }
  releaseNamespace := "openstack"
  serviceAccount := "openstacks-v0-3-36"

/-- Both CRDs serve the chart's version, and mariadb's object was just created:
no annotations, no status. -/
def windowCluster : Cluster where
  crds := [⟨compositionGroup, "Mariadb", [⟨"v0-3-36", true⟩]⟩,
    ⟨compositionGroup, "Keystone", [⟨"v0-3-36", true⟩]⟩]
  compositions := [⟨"Mariadb", "openstack", "mariadb", none, none⟩]
  nodes := []
  clusterRole := fun _ => none
  clusterRoleBinding := fun _ => none
  nodesReadable := false

/-- In the window after mariadb's creation the helpers abort for keystone, and
with them the whole render. -/
theorem aborts_before_first_status :
    ¬ NeverAborts windowTop windowCluster ∧
      compositions windowTop windowCluster = .error (.nilPointer "conditions") := by
  refine ⟨fun h => ?_, rfl⟩
  have htotal := h ⟨"keystone", "Keystone", ["mariadb"], .identity, false⟩ (by decide) (by decide)
  obtain ⟨v, hv⟩ := htotal.depsReady
  have habort : oshDepsReady windowTop
      (strictDeps windowTop ⟨"keystone", "Keystone", ["mariadb"], .identity, false⟩)
      windowTop.values.components windowCluster.crds windowCluster =
      .error (.nilPointer "conditions") := rfl
  rw [habort] at hv
  cases hv

end OpenstackBlueprint.Theorems.RenderTotal
