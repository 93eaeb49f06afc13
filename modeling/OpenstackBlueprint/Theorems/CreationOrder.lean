import OpenstackBlueprint.Chart.Install

/-!
# Creation respects the dependency order

Starting from a cluster without component objects, every object is created from
a rendered document. The render emits the document of an object that does not
exist only with all its dependencies in place, so the order of first creations
is a topological order of the dependency relation.

The invariant (`Ordered`) ties three things together: whose objects can exist,
what a rendered document says about the past, and the creation log. The middle
one is what survives an arbitrary delay between a render and the application of
its documents.
-/

namespace OpenstackBlueprint.Theorems.CreationOrder

open Chart Kit

/-- The dependency `d` exists with a Ready condition that counts. -/
def DepReady (s : Install) (d : String) : Prop :=
  ∃ c' ∈ s.top.values.components, c'.name = d ∧
    ∃ o, s.find? c'.kind d = some o ∧ o.HasCondition Condition.ready

/-- The dependency `d` exists and no Ready condition says it is paused. -/
def DepExists (s : Install) (d : String) : Prop :=
  ∃ c' ∈ s.top.values.components, c'.name = d ∧
    ∃ o, s.find? c'.kind d = some o ∧ ¬ o.HasCondition Condition.paused

/-- Runs that start from distinct component names and no component object. -/
def freshRun : TSys Install where
  init := fun s => (s.top.values.components.map (·.name)).Nodup ∧ s.rendered = [] ∧
    s.created = [] ∧
    ∀ o ∈ s.cluster.compositions, o.ns = s.top.releaseNamespace →
      o.kind ≠ "" ∧ ∀ c ∈ s.top.values.components, o.kind = c.kind → o.name ≠ c.name
  step := Step

/-- In the log every name is preceded, at its first occurrence, by its
dependencies. -/
def Topological (comps : List Component) (log : List String) : Prop :=
  ∀ p n q, log = p ++ n :: q → n ∉ p → ∀ d, DependsOn comps n d → d ∈ p

/-- The invariant of a run. -/
structure Ordered (s : Install) : Prop where
  distinct : (s.top.values.components.map (·.name)).Nodup
  /-- A component's object was created from a document, under a selected name. -/
  objects : ∀ o ∈ s.cluster.compositions, o.ns = s.top.releaseNamespace →
    o.kind ≠ "" ∧ ∀ c ∈ s.top.values.components, o.kind = c.kind → o.name = c.name →
      c.name ∈ s.created ∧ ' ' ∉ c.name.toList ∧ c.name ≠ ""
  /-- A document names a component that was created already, or whose
  dependencies were. -/
  docs : ∀ doc ∈ s.rendered, doc.ns = s.top.releaseNamespace ∧
    ∃ c ∈ s.top.values.components, doc.kind = c.kind ∧ doc.name = c.name ∧
      ' ' ∉ c.name.toList ∧ (c.name ∈ s.created ∨ ∀ d ∈ c.deps, d ∈ s.created)
  topological : Topological s.top.values.components s.created

/-! ## A dependency the render sees -/

/-- Seeing a dependency's object makes the dependency a created component with
a name that survives the space-joined encodings. -/
theorem Ordered.seen {s : Install} (hs : Ordered s) {d : String} {o : Composition}
    (h : visible s.top (kindOf s.top.values.components d) d s.cluster = some o) :
    ∃ c' ∈ s.top.values.components, c'.name = d ∧ s.find? c'.kind d = some o ∧
      d ∈ s.created ∧ ' ' ∉ d.toList ∧ d ≠ "" := by
  obtain ⟨_, hfind⟩ := visible_some h
  obtain ⟨hmem, hkind, hns, hname⟩ := Cluster.find?_some hfind
  obtain ⟨hne, hcomp⟩ := hs.objects o hmem hns
  obtain ⟨c', hc', hc'name, hc'kind⟩ := exists_of_kindOf_ne_empty (hkind ▸ hne)
  refine ⟨c', hc', hc'name, ?_, ?_⟩
  · rw [← hc'kind]
    exact hfind
  · have := hcomp c' hc' (hkind.trans hc'kind) (hname.trans hc'name.symm)
    rwa [hc'name] at this

/-- The gate of an object that does not exist, unfolded: the two halves of the
declared partition, and creation of every dependency. -/
theorem Ordered.gate {s : Install} (hs : Ordered s) {c : Component} {v : String}
    (hopen : GateOpen s.top s.cluster c v)
    (habsent : visible s.top c.kind c.name s.cluster = none) :
    (∀ d ∈ c.deps, ¬ Relaxed s.top c d → DepReady s d) ∧
      (∀ d ∈ c.deps, Relaxed s.top c d → DepExists s d) ∧
      ∀ d ∈ c.deps, d ∈ s.created := by
  obtain ⟨hstrict, hrelaxed⟩ := hopen.deps.resolve_left (by rw [habsent]; simp)
  have hseen : ∀ d ∈ c.deps, ∃ o,
      visible s.top (kindOf s.top.values.components d) d s.cluster = some o := by
    intro d hd
    rcases mem_strict_or_relaxed _ hd with h | h
    · obtain ⟨o, ho, _⟩ := hstrict d h
      exact ⟨o, ho⟩
    · obtain ⟨o, ho, _⟩ := hrelaxed d h
      exact ⟨o, ho⟩
  -- every dependency is seen, so none of their names falls apart in the encoding
  have hnames : ∀ d ∈ c.deps, ' ' ∉ d.toList ∧ d ≠ "" := by
    intro d hd
    obtain ⟨o, ho⟩ := hseen d hd
    obtain ⟨_, _, _, _, _, hspace, hne⟩ := hs.seen ho
    exact ⟨hspace, hne⟩
  refine ⟨?_, ?_, ?_⟩
  · intro d hd hnot
    obtain ⟨o, ho, hready⟩ := hstrict d
      (mem_strictDeps.mpr ⟨hd, fun h => hnot ((mem_relaxedDeps hnames).mp h).2⟩)
    obtain ⟨c', hc', hname, hfind, _⟩ := hs.seen ho
    exact ⟨c', hc', hname, o, hfind, hready⟩
  · intro d hd hrel
    obtain ⟨o, ho, _, hpaused⟩ := hrelaxed d ((mem_relaxedDeps hnames).mpr ⟨hd, hrel⟩)
    obtain ⟨c', hc', hname, hfind, _⟩ := hs.seen ho
    exact ⟨c', hc', hname, o, hfind, hpaused⟩
  · intro d hd
    obtain ⟨o, ho⟩ := hseen d hd
    obtain ⟨_, _, _, _, hcreated, _⟩ := hs.seen ho
    exact hcreated

/-! ## One step -/

theorem Topological.snoc {comps : List Component} {log : List String} {n : String}
    (h : Topological comps log)
    (hnew : n ∈ log ∨ ∀ d, DependsOn comps n d → d ∈ log) :
    Topological comps (log ++ [n]) := by
  intro p m q heq hm d hd
  rcases List.eq_nil_or_concat q with rfl | ⟨q', last, rfl⟩
  · -- `m` is the name just appended
    obtain ⟨rfl, hmn⟩ := List.append_inj' heq rfl
    cases hmn
    rcases hnew with hin | hdeps
    · exact absurd hin hm
    · exact hdeps d hd
  · have heq' : log ++ [n] = (p ++ m :: q') ++ [last] := by
      rw [heq]
      simp
    exact h p m q' (List.append_inj' heq' rfl).1 hm d hd

/-- The documents of one render keep the invariant. -/
theorem Ordered.render {s : Install} (hs : Ordered s) {docs : List Doc}
    (hrender : compositions s.top s.cluster = .ok docs) :
    Ordered { s with rendered := s.rendered ++ docs } := by
  refine ⟨hs.distinct, hs.objects, ?_, hs.topological⟩
  intro doc hdoc
  rcases List.mem_append.mp hdoc with hdoc | hdoc
  · exact hs.docs doc hdoc
  · obtain ⟨c, hc, hsel, hopen, rfl⟩ := (compositions_ok hrender doc).mp hdoc
    refine ⟨rfl, c, hc, rfl, rfl, not_mem_space_of_selected hsel, ?_⟩
    cases hv : visible s.top c.kind c.name s.cluster with
    | none => exact .inr (hs.gate hopen hv).2.2
    | some o =>
      obtain ⟨_, hfind⟩ := visible_some hv
      obtain ⟨hmem, hkind, hns, hname⟩ := Cluster.find?_some hfind
      exact .inl ((hs.objects o hmem hns).2 c hc hkind hname).1

/-- Applying a document keeps the invariant. -/
theorem Ordered.create {s : Install} (hs : Ordered s) {doc : Doc} (hdoc : doc ∈ s.rendered)
    (hkind : doc.kind ≠ "") (hname : doc.name ≠ "")
    (annotations : Option (List (String × String))) (status : Option Status) :
    Ordered { s with
      cluster := { s.cluster with
        compositions := doc.object annotations status :: s.cluster.compositions }
      created := s.created ++ [doc.name] } := by
  obtain ⟨_, c, hc, hck, hcn, hspace, hpast⟩ := hs.docs doc hdoc
  -- a document's component is the only one of its name
  have hunique : ∀ c' ∈ s.top.values.components, c'.name = c.name → c' = c :=
    fun c' hc' h => List.inj_on_of_nodup_map hs.distinct hc' hc h
  refine ⟨hs.distinct, ?_, ?_, ?_⟩
  · intro o ho hns
    rcases List.mem_cons.mp ho with rfl | ho
    · refine ⟨hkind, fun c' hc' _ hn => ?_⟩
      have hn' : doc.name = c'.name := hn
      rw [← hn']
      exact ⟨by simp, by rw [hcn]; exact hspace, hname⟩
    · obtain ⟨hne, hcomp⟩ := hs.objects o ho hns
      refine ⟨hne, fun c' hc' hk hn => ?_⟩
      obtain ⟨hcreated, hrest⟩ := hcomp c' hc' hk hn
      exact ⟨List.mem_append.mpr (.inl hcreated), hrest⟩
  · intro doc' hdoc'
    obtain ⟨hns, c', hc', hk, hn, hsp, hp⟩ := hs.docs doc' hdoc'
    refine ⟨hns, c', hc', hk, hn, hsp, hp.imp ?_ ?_⟩
    · exact fun h => List.mem_append.mpr (.inl h)
    · exact fun h d hd => List.mem_append.mpr (.inl (h d hd))
  · refine hs.topological.snoc ?_
    rw [hcn]
    refine hpast.imp id fun hdeps d hd => ?_
    obtain ⟨c', hc', hn, hd⟩ := hd
    rw [hunique c' hc' hn] at hd
    exact hdeps d hd

/-- Every object of the new cluster has the key of an old one. -/
theorem Ordered.env {s : Install} (hs : Ordered s) {cl : Cluster}
    (hkeys : ∀ o ∈ cl.compositions, ∃ o' ∈ s.cluster.compositions,
      o.kind = o'.kind ∧ o.ns = o'.ns ∧ o.name = o'.name) :
    Ordered { s with cluster := cl } := by
  refine ⟨hs.distinct, ?_, hs.docs, hs.topological⟩
  intro o ho hns
  obtain ⟨o', ho', hkind, hns', hname⟩ := hkeys o ho
  rw [hkind, hname]
  exact hs.objects o' ho' (hns'.symm.trans hns)

theorem Ordered.step {s s' : Install} (hs : Ordered s) (h : Step s s') : Ordered s' := by
  cases h with
  | render hrender => exact hs.render hrender
  | create annotations status hdoc hkind hname _ =>
    exact hs.create hdoc hkind hname annotations status
  | write o annotations status =>
    refine hs.env fun o' ho' => ?_
    obtain ⟨o'', ho'', rfl⟩ := List.mem_map.mp ho'
    refine ⟨o'', ho'', ?_⟩
    split <;> exact ⟨rfl, rfl, rfl⟩
  | delete o =>
    refine hs.env fun o' ho' => ?_
    exact ⟨o', (List.mem_filter.mp ho').1, rfl, rfl, rfl⟩
  | crds crds => exact hs.env fun o ho => ⟨o, ho, rfl, rfl, rfl⟩
  | nodes _ _ _ _ => exact hs.env fun o ho => ⟨o, ho, rfl, rfl, rfl⟩
  | bump version => exact ⟨hs.distinct, hs.objects, hs.docs, hs.topological⟩
  | reselect profile enabled => exact ⟨hs.distinct, hs.objects, hs.docs, hs.topological⟩

/-- The invariant holds in every state of every run. -/
theorem ordered_invariant : freshRun.Invariant Ordered := by
  refine TSys.Inductive.invariant ⟨?_, fun s s' hs h => hs.step h⟩
  rintro s ⟨hdistinct, hrendered, hcreated, hobjects⟩
  refine ⟨hdistinct, ?_, ?_, ?_⟩
  · intro o ho hns
    obtain ⟨hne, hcomp⟩ := hobjects o ho hns
    exact ⟨hne, fun c hc hk hn => absurd hn (hcomp c hc hk)⟩
  · simp [hrendered]
  · intro p n q heq
    rw [hcreated] at heq
    exact absurd heq (by simp)

/-! ## The claim over whole runs -/

/-- In a topological log the transitive dependencies precede, too. -/
theorem Topological.transGen {comps : List Component} {log : List String}
    (h : Topological comps log) {n d : String} (hdep : Relation.TransGen (DependsOn comps) n d) :
    ∀ p q, log = p ++ n :: q → n ∉ p → d ∈ p := by
  induction hdep with
  | single hd => exact fun p q heq hn => h p n q heq hn _ hd
  | @tail b d _ hd ih =>
    intro p q heq hn
    -- split `p` at the first occurrence of the dependency in between
    obtain ⟨p₁, q₁, hp, hfirst⟩ := List.eq_append_cons_of_mem (ih p q heq hn)
    have hlog : log = p₁ ++ b :: (q₁ ++ n :: q) := by
      rw [heq, hp]
      simp
    rw [hp]
    exact List.mem_append.mpr (.inl (h p₁ b _ hlog hfirst d hd))

/-- A completed render that emits a document for an object that does not exist
does so at the chart's version, which is served, with every strict dependency
ready and every relaxed one there and not paused. -/
def CreatesGated (s : Install) : Prop :=
  ∀ docs, compositions s.top s.cluster = .ok docs → ∀ doc ∈ docs,
    s.cluster.find? doc.kind doc.ns doc.name = none →
    ∃ c ∈ s.top.values.components, doc = componentDoc s.top c (oshVersion s.top) ∧
      (∀ d ∈ c.deps, ¬ Relaxed s.top c d → DepReady s d) ∧
      (∀ d ∈ c.deps, Relaxed s.top c d → DepExists s d) ∧
      Serves s.cluster.crds c.kind (oshVersion s.top)

/-- The transitive dependencies of a component were created strictly before it
was first created. -/
def CreatedInOrder (s : Install) : Prop :=
  ∀ p n q, s.created = p ++ n :: q → n ∉ p →
    ∀ d, Relation.TransGen (DependsOn s.top.values.components) n d → d ∈ p

theorem Ordered.createsGated {s : Install} (hs : Ordered s) : CreatesGated s := by
  intro docs hrender doc hdoc habsent
  obtain ⟨c, hc, _, hopen, rfl⟩ := (compositions_ok hrender doc).mp hdoc
  have hv : visible s.top c.kind c.name s.cluster = none := by
    unfold visible
    split
    · rfl
    · exact habsent
  have hversion : emitVersionOf s.top s.cluster c = oshVersion s.top := by
    unfold emitVersionOf
    rw [hv]
    exact oshResolveVersion_absent _ _ _
  obtain ⟨hstrict, hrelaxed, _⟩ := hs.gate hopen hv
  refine ⟨c, hc, by rw [hversion], hstrict, hrelaxed, ?_⟩
  rw [← hversion]
  exact hopen.served

/-- **Creation order.** In every run from a cluster without component objects,
a first creation is gated on the component's dependencies, and the order of
first creations is a topological order. -/
theorem creation_respects_dependencies :
    freshRun.Invariant fun s => CreatesGated s ∧ CreatedInOrder s := by
  intro s hreach
  have hs := ordered_invariant s hreach
  exact ⟨hs.createsGated, fun p n q heq hn d hd => hs.topological.transGen hd p q heq hn⟩

end OpenstackBlueprint.Theorems.CreationOrder
