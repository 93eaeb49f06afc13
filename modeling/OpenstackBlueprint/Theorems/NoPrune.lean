import OpenstackBlueprint.Chart.Install

/-!
# No live component is pruned

A release that stops rendering an object uninstalls it (#68, #166). The render
keeps a selected component whose object exists as long as the cluster serves
any version of its kind, whatever the chart version, the origin stamp and the
dependencies are.
-/

namespace OpenstackBlueprint.Theorems.NoPrune

open Chart Kit

/-- Runs of an installation from any state whatsoever. -/
def anyRun : TSys Install where
  init := fun _ => True
  step := Step

/-- A completed render keeps every live component: it emits its document, at a
version for which `osh.crdExists` answers on the list the render read. -/
def KeepsLive (s : Install) : Prop :=
  ∀ docs, compositions s.top s.cluster = .ok docs →
    ∀ c ∈ s.top.values.components, c.name ∈ selection s.top →
      (∃ o, s.find? c.kind c.name = some o) →
      (∃ version, version ≠ "" ∧ Serves s.cluster.crds c.kind version) →
      ∃ emitVer, componentDoc s.top c emitVer ∈ docs ∧
        oshCrdExists c.kind emitVer s.cluster.crds = "true"

/-- The gate of a live component is open at the version it resolves to. -/
theorem gateOpen_of_live {top : Top} {cl : Cluster} {c : Component} {o : Composition}
    (hlive : cl.find? c.kind top.releaseNamespace c.name = some o) {version : String}
    (hname : version ≠ "") (hserves : Serves cl.crds c.kind version) :
    GateOpen top cl c (emitVersionOf top cl c) := by
  have hvisible : visible top c.kind c.name cl = some o := by
    rw [visible_eq_find? hserves hname, hlive]
  refine ⟨?_, .inl (by rw [hvisible]; rfl)⟩
  unfold emitVersionOf
  rw [hvisible]
  exact serves_oshResolveVersion (oshServedVersion_ne_empty hserves hname)

/-- In every run, a completed render emits every selected component whose
object exists and whose kind is served. -/
theorem live_component_never_pruned : anyRun.Invariant KeepsLive := by
  intro s _ docs hrender c hc hsel hlive hserved
  obtain ⟨o, hlive⟩ := hlive
  obtain ⟨version, hname, hserves⟩ := hserved
  have hopen : GateOpen s.top s.cluster c (emitVersionOf s.top s.cluster c) :=
    gateOpen_of_live hlive hname hserves
  refine ⟨emitVersionOf s.top s.cluster c, ?_, oshCrdExists_eq_true.mpr hopen.served⟩
  exact (compositions_ok hrender _).mpr ⟨c, hc, hsel, hopen, rfl⟩

end OpenstackBlueprint.Theorems.NoPrune
