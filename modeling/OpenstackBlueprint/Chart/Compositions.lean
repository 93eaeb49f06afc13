import OpenstackBlueprint.Chart.Nodes
import OpenstackBlueprint.Chart.Selection

/-!
# The render (`compositions.yaml`)

One render reads the cluster and either aborts or yields the documents of the
selected components whose gate is open. The gate of a component is

    crd and ((strict dependencies ready and relaxed dependencies exist) or exists)

with `crd` asked at the same version the document is emitted at.
-/

namespace OpenstackBlueprint.Chart

open Kit

/-- A rendered Composition. -/
structure Doc where
  apiVersion : String
  kind : String
  name : String
  ns : String
  spec : List (String × Yaml)

/-- `$sel`: the selected names, read back from the space-joined string. -/
def selection (top : Top) : List String :=
  splitList ' ' (oshSelected top)

/-- `$relaxed`. -/
def relaxedDeps (top : Top) (c : Component) : List String :=
  compact (splitList ' ' (oshDepsRelaxed top c.name c.deps))

/-- `$strict`: the dependencies that are not in `$relaxed`. -/
def strictDeps (top : Top) (c : Component) : List String :=
  c.deps.filter fun d => !(relaxedDeps top c).contains d

/-- The document of a component at a version. -/
def componentDoc (top : Top) (c : Component) (emitVer : String) : Doc where
  apiVersion := oshApiVersionAt emitVer
  kind := c.kind
  name := c.name
  ns := top.releaseNamespace
  spec := (top.values.componentValues.lookup c.name).getD []

/-- The body of the component range for a selected component. -/
def renderComponent (top : Top) (cl : Cluster) (c : Component) : Tpl (Option Doc) := do
  let exist ← oshExists top c.kind c.name cl.crds cl
  let emitVer ← oshEmitVersion top c.kind c.name cl.crds cl exist
  let crd := oshCrdExists c.kind emitVer cl.crds
  let strictReady ← oshDepsReady top (strictDeps top c) top.values.components cl.crds cl
  let relaxedExist ← oshDepsExist top (relaxedDeps top c) top.values.components cl.crds cl
  -- an object that exists is rendered whatever its dependencies report
  if crd == "true" && (strictReady == "true" && relaxedExist == "true" || exist == "true") then
    return some (componentDoc top c emitVer)
  else
    return none

/-- `range $c := .Values.components`, in list order. -/
def renderComponents (top : Top) (cl : Cluster) : List Component → Tpl (List Doc)
  | [] => return []
  | c :: rest => do
    let doc ← if (selection top).contains c.name then renderComponent top cl c else .ok none
    return doc.toList ++ (← renderComponents top cl rest)

/-- `$nodes`: looked up only when the grant is in place. -/
def guardedNodes (top : Top) (cl : Cluster) : Tpl (List Node) :=
  if oshNodeReadGranted top cl == "true" then lookupNodes top cl else .ok []

/-- One render of `compositions.yaml`. -/
def compositions (top : Top) (cl : Cluster) : Tpl (List Doc) := do
  let nodes ← guardedNodes top cl
  -- a missing label fails the render before any component is looked at
  oshRequireNodeLabels top (selection top) nodes
  renderComponents top cl top.values.components

/-! ## One component -/

/-- The condition under which a component's document is emitted. -/
structure GateOpen (top : Top) (cl : Cluster) (c : Component) (emitVer : String) : Prop where
  served : Serves cl.crds c.kind emitVer
  deps : (visible top c.kind c.name cl).isSome ∨
    (∀ d ∈ strictDeps top c, ∃ o, visible top (kindOf top.values.components d) d cl = some o ∧
      o.HasCondition Condition.ready) ∧
    (∀ d ∈ relaxedDeps top c, ∃ o, visible top (kindOf top.values.components d) d cl = some o ∧
      o.status ≠ none ∧ ¬ o.HasCondition Condition.paused)

/-- The version a component is emitted at, given what the render sees of its
object. -/
def emitVersionOf (top : Top) (cl : Cluster) (c : Component) : String :=
  match visible top c.kind c.name cl with
  | some o => oshResolveVersion (oshVersion top)
      (((o.annotations.getD []).lookup originVersionAnnotation).getD "") "true" c.kind cl.crds
  | none => oshResolveVersion (oshVersion top) "" "" c.kind cl.crds

theorem oshEmitVersion_eq (top : Top) (cl : Cluster) (c : Component) :
    oshEmitVersion top c.kind c.name cl.crds cl
        (if (visible top c.kind c.name cl).isSome then "true" else "")
      = .ok (emitVersionOf top cl c) := by
  unfold oshEmitVersion emitVersionOf
  rw [oshOriginVersion_eq]
  cases visible top c.kind c.name cl <;> rfl

/-- The reads of one component's gate yield values exactly when every object
its dependencies resolve to has a status. -/
def DepsHaveStatus (top : Top) (cl : Cluster) (c : Component) : Prop :=
  ∀ d ∈ strictDeps top c ++ relaxedDeps top c, ∀ o,
    visible top (kindOf top.values.components d) d cl = some o → o.status ≠ none

/-- What rendering one component does, in full. -/
theorem renderComponent_ok {top : Top} {cl : Cluster} {c : Component} {doc : Option Doc}
    (h : renderComponent top cl c = .ok doc) :
    (doc = some (componentDoc top c (emitVersionOf top cl c)) ∧
        GateOpen top cl c (emitVersionOf top cl c)) ∨
      (doc = none ∧ ¬ GateOpen top cl c (emitVersionOf top cl c)) := by
  unfold renderComponent at h
  rw [oshExists_eq] at h
  simp only [bind, Except.bind] at h
  rw [oshEmitVersion_eq] at h
  simp only [] at h
  cases hs : oshDepsReady top (strictDeps top c) top.values.components cl.crds cl with
  | error e =>
    rw [hs] at h
    cases h
  | ok strictReady =>
    cases hr : oshDepsExist top (relaxedDeps top c) top.values.components cl.crds cl with
    | error e =>
      rw [hs, hr] at h
      cases h
    | ok relaxedExist =>
      rw [hs, hr] at h
      simp only [] at h
      have hsTrue : strictReady = "true" ↔ _ :=
        Iff.trans (by rw [hs]; simp) (@oshDepsReady_eq_true _ _ _ cl)
      have hrTrue : relaxedExist = "true" ↔ _ :=
        Iff.trans (by rw [hr]; simp) (@oshDepsExist_eq_true _ _ _ cl)
      have hgate : (oshCrdExists c.kind (emitVersionOf top cl c) cl.crds == "true" &&
          (strictReady == "true" && relaxedExist == "true" ||
            (if (visible top c.kind c.name cl).isSome then "true" else "") == "true")) = true ↔
          GateOpen top cl c (emitVersionOf top cl c) := by
        rw [Bool.and_eq_true, Bool.or_eq_true, Bool.and_eq_true, beq_iff_eq, beq_iff_eq,
          beq_iff_eq, beq_iff_eq, oshCrdExists_eq_true, hsTrue, hrTrue]
        constructor
        · rintro ⟨hserved, hdeps⟩
          refine ⟨hserved, hdeps.symm.imp ?_ id⟩
          intro hex
          by_contra hne
          simp [hne] at hex
        · rintro ⟨hserved, hdeps⟩
          refine ⟨hserved, hdeps.symm.imp id ?_⟩
          intro hex
          simp [hex]
      by_cases hopen : GateOpen top cl c (emitVersionOf top cl c)
      · rw [if_pos (hgate.mpr hopen)] at h
        exact .inl ⟨(Except.ok.inj h).symm, hopen⟩
      · rw [if_neg (mt hgate.mp hopen)] at h
        exact .inr ⟨(Except.ok.inj h).symm, hopen⟩

/-- Rendering one component yields a value as soon as its dependencies'
objects have a status. -/
theorem renderComponent_isOk {top : Top} {cl : Cluster} {c : Component} :
    (∃ doc, renderComponent top cl c = .ok doc) ↔ DepsHaveStatus top cl c := by
  have hsplit : DepsHaveStatus top cl c ↔
      (∃ r, oshDepsReady top (strictDeps top c) top.values.components cl.crds cl = .ok r) ∧
      (∃ r, oshDepsExist top (relaxedDeps top c) top.values.components cl.crds cl = .ok r) := by
    rw [oshDepsReady_isOk, oshDepsExist_isOk]
    unfold DepsHaveStatus
    simp only [List.mem_append, or_imp, forall_and]
  rw [hsplit]
  unfold renderComponent
  rw [oshExists_eq]
  simp only [bind, Except.bind]
  rw [oshEmitVersion_eq]
  simp only []
  cases oshDepsReady top (strictDeps top c) top.values.components cl.crds cl with
  | error e => simp
  | ok strictReady =>
    cases oshDepsExist top (relaxedDeps top c) top.values.components cl.crds cl with
    | error e => simp
    | ok relaxedExist =>
      simp only [Except.ok.injEq, exists_eq', and_self, iff_true]
      cases (oshCrdExists c.kind (emitVersionOf top cl c) cl.crds == "true" &&
        (strictReady == "true" && relaxedExist == "true" ||
          (if (visible top c.kind c.name cl).isSome then "true" else "") == "true")) with
      | true => exact ⟨_, rfl⟩
      | false => exact ⟨_, rfl⟩

/-! ## The whole render -/

/-- The range goes on past a component that renders, or is not selected. -/
theorem renderComponents_cons {top : Top} {cl : Cluster} {c : Component} {rest : List Component}
    {docs : List Doc} (h : renderComponents top cl (c :: rest) = .ok docs) :
    ∃ doc? tail, (if c.name ∈ selection top then renderComponent top cl c else .ok none) =
        .ok doc? ∧ renderComponents top cl rest = .ok tail ∧ docs = doc?.toList ++ tail := by
  have hbind : ∀ first : Tpl (Option Doc),
      (do return (← first).toList ++ (← renderComponents top cl rest)) = Except.ok docs →
      ∃ doc? tail, first = .ok doc? ∧ renderComponents top cl rest = .ok tail ∧
        docs = doc?.toList ++ tail := by
    intro first hfirst
    cases first with
    | error e => cases hfirst
    | ok doc? =>
      cases hrest : renderComponents top cl rest with
      | error e =>
        rw [hrest] at hfirst
        cases hfirst
      | ok tail =>
        rw [hrest] at hfirst
        exact ⟨doc?, tail, rfl, rfl, (Except.ok.inj hfirst).symm⟩
  unfold renderComponents at h
  by_cases hsel : c.name ∈ selection top
  · rw [if_pos (by simpa using hsel)] at h
    rw [if_pos hsel]
    exact hbind _ h
  · rw [if_neg (by simpa using hsel)] at h
    rw [if_neg hsel]
    exact hbind _ h

theorem renderComponents_ok {top : Top} {cl : Cluster} {comps : List Component}
    {docs : List Doc} (h : renderComponents top cl comps = .ok docs) :
    (∀ doc, doc ∈ docs ↔ ∃ c ∈ comps, c.name ∈ selection top ∧
      renderComponent top cl c = .ok (some doc)) ∧
    (∀ c ∈ comps, c.name ∈ selection top → ∃ doc, renderComponent top cl c = .ok doc) := by
  induction comps generalizing docs with
  | nil =>
    cases h
    simp
  | cons c rest ih =>
    obtain ⟨doc?, tail, hdoc, hrest, rfl⟩ := renderComponents_cons h
    obtain ⟨hdocs, hall⟩ := ih hrest
    by_cases hsel : c.name ∈ selection top
    · rw [if_pos hsel] at hdoc
      refine ⟨fun doc => ?_, List.forall_mem_cons.mpr ⟨fun _ => ⟨doc?, hdoc⟩, hall⟩⟩
      simp only [List.mem_append, hdocs, List.mem_cons, exists_eq_or_imp, hsel, true_and,
        hdoc, Except.ok.injEq, Option.mem_toList]
    · rw [if_neg hsel] at hdoc
      cases hdoc
      refine ⟨fun doc => ?_, List.forall_mem_cons.mpr ⟨fun h => absurd h hsel, hall⟩⟩
      simp [hdocs, hsel]

/-- The component range completes as soon as every selected component's gate
can be evaluated. -/
theorem renderComponents_isOk {top : Top} {cl : Cluster} {comps : List Component}
    (h : ∀ c ∈ comps, c.name ∈ selection top → DepsHaveStatus top cl c) :
    ∃ docs, renderComponents top cl comps = .ok docs := by
  induction comps with
  | nil => exact ⟨[], rfl⟩
  | cons c rest ih =>
    obtain ⟨docs, hdocs⟩ := ih fun c' hc' => h c' (List.mem_cons_of_mem _ hc')
    unfold renderComponents
    rw [hdocs]
    by_cases hsel : c.name ∈ selection top
    · obtain ⟨doc, hdoc⟩ := renderComponent_isOk.mpr (h c List.mem_cons_self hsel)
      rw [if_pos (by simpa using hsel), hdoc]
      exact ⟨_, rfl⟩
    · rw [if_neg (by simpa using hsel)]
      exact ⟨_, rfl⟩

/-- The node-label check lets the render through: it passes, or there are no
nodes to check. -/
def NodeCheckPasses (top : Top) (cl : Cluster) : Prop :=
  ∃ nodes, guardedNodes top cl = .ok nodes ∧
    oshRequireNodeLabels top (selection top) nodes = .ok ()

theorem compositions_isOk {top : Top} {cl : Cluster} (hnodes : NodeCheckPasses top cl)
    (hstatus : ∀ c ∈ top.values.components, c.name ∈ selection top → DepsHaveStatus top cl c) :
    ∃ docs, compositions top cl = .ok docs := by
  obtain ⟨nodes, hread, hlabels⟩ := hnodes
  obtain ⟨docs, hdocs⟩ := renderComponents_isOk hstatus
  refine ⟨docs, ?_⟩
  unfold compositions
  simp only [bind, Except.bind, hread, hlabels, hdocs]

/-- A completed render emits exactly the documents of the selected components
whose gate is open. -/
theorem compositions_ok {top : Top} {cl : Cluster} {docs : List Doc}
    (h : compositions top cl = .ok docs) (doc : Doc) :
    doc ∈ docs ↔ ∃ c ∈ top.values.components, c.name ∈ selection top ∧
      GateOpen top cl c (emitVersionOf top cl c) ∧
      doc = componentDoc top c (emitVersionOf top cl c) := by
  have hrender : renderComponents top cl top.values.components = .ok docs := by
    unfold compositions at h
    cases hn : guardedNodes top cl with
    | error e =>
      rw [hn] at h
      cases h
    | ok nodes =>
      rw [hn] at h
      simp only [bind, Except.bind] at h
      cases hreq : oshRequireNodeLabels top (selection top) nodes with
      | error e =>
        rw [hreq] at h
        cases h
      | ok u =>
        rw [hreq] at h
        exact h
  obtain ⟨hdocs, hall⟩ := renderComponents_ok hrender
  rw [hdocs]
  refine exists_congr fun c => and_congr_right fun hc => and_congr_right fun hsel => ?_
  obtain ⟨doc', hdoc'⟩ := hall c hc hsel
  rcases renderComponent_ok hdoc' with ⟨rfl, hopen⟩ | ⟨rfl, hclosed⟩
  · rw [hdoc']
    constructor
    · intro heq
      exact ⟨hopen, (Option.some.inj (Except.ok.inj heq)).symm⟩
    · rintro ⟨_, rfl⟩
      rfl
  · rw [hdoc']
    constructor
    · intro heq
      cases heq
    · rintro ⟨hopen, _⟩
      exact absurd hopen hclosed

end OpenstackBlueprint.Chart
