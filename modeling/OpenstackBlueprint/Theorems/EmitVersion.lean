import OpenstackBlueprint.Theorems.NoPrune

/-!
# The version a Composition is emitted at

`osh.emitVersion` asks four helpers, and the pin may answer a version nothing
serves. Put together they choose as `chosenVersion` says: the origin stamp while
it is served, else the current version, else what `osh.servedVersion` answers.

The stamp is written once and is read through any served version. So while it
stays served, every render of the object's component emits it at the stamp,
whatever the chart is bumped to and whatever else the CRD comes to serve.
-/

namespace OpenstackBlueprint.Theorems.EmitVersion

open Chart Kit

/-- The origin stamp of an object, `""` without one. -/
def originStamp (o : Composition) : String :=
  ((o.annotations.getD []).lookup originVersionAnnotation).getD ""

/-- The version an existing object should be emitted at. -/
def chosenVersion (current stamp kind : String) (crds : List Crd) : String :=
  if stamp ≠ "" ∧ Serves crds kind stamp then stamp
  else if Serves crds kind current then current
  else oshServedVersion kind current crds

/-! ## One render -/

section Render

variable {current stamp kind name : String} {crds : List Crd} {top : Top} {cl : Cluster}

/-- The pin is the stamp while the stamp is served. -/
theorem oshPinVersion_eq : oshPinVersion current stamp kind crds =
    if stamp ≠ "" ∧ Serves crds kind stamp then stamp else current := by
  unfold oshPinVersion
  by_cases hempty : stamp = ""
  · simp [hempty]
  · -- a stamp that is the current version is its own pin either way
    by_cases hcur : stamp = current
    · simp [hcur]
    · simp [hempty, hcur]

/-- For an existing object the choice is the documented one. -/
theorem oshResolveVersion_live (hserved : oshServedVersion kind current crds ≠ "") :
    oshResolveVersion current stamp "true" kind crds = chosenVersion current stamp kind crds := by
  unfold oshResolveVersion chosenVersion
  rw [oshPinVersion_eq]
  by_cases hpin : stamp ≠ "" ∧ Serves crds kind stamp
  · rw [if_pos hpin, if_pos hpin]
    have := oshCrdExists_eq_true.mpr hpin.2
    simp [this]
  · rw [if_neg hpin, if_neg hpin]
    by_cases hcur : Serves crds kind current
    · have := oshCrdExists_eq_true.mpr hcur
      simp [hcur, this]
    · have := mt oshCrdExists_eq_true.mp hcur
      simp [hcur, this, hserved]

/-- `osh.exists` answers for an object of the cluster that the render sees. -/
theorem visible_of_exists {answer : String}
    (hexist : oshExists top kind name cl.crds cl = .ok answer) :
    (answer = "true" ∧ ∃ o, visible top kind name cl = some o) ∨
      (answer = "" ∧ visible top kind name cl = none) := by
  rw [oshExists_eq] at hexist
  cases hvisible : visible top kind name cl with
  | none =>
    rw [hvisible] at hexist
    exact .inr ⟨(Except.ok.inj hexist).symm, rfl⟩
  | some o =>
    rw [hvisible] at hexist
    exact .inl ⟨(Except.ok.inj hexist).symm, o, rfl⟩

/-- The render sees what exists, as soon as the kind serves a version. -/
theorem visible_isSome_iff : (∃ o, visible top kind name cl = some o) ↔
    oshServedVersion kind (oshVersion top) cl.crds ≠ "" ∧
      ∃ o, cl.find? kind top.releaseNamespace name = some o := by
  constructor
  · rintro ⟨o, ho⟩
    exact ⟨(visible_some ho).1, o, (visible_some ho).2⟩
  · rintro ⟨hserved, o, ho⟩
    refine ⟨o, ?_⟩
    unfold visible
    rw [if_neg hserved, ho]

/-- The version of a visible object. -/
theorem oshEmitVersion_live {o : Composition} (ho : visible top kind name cl = some o) :
    oshEmitVersion top kind name cl.crds cl "true" =
      .ok (chosenVersion (oshVersion top) (originStamp o) kind cl.crds) := by
  unfold oshEmitVersion
  rw [oshOriginVersion_eq, ho, ← oshResolveVersion_live (visible_some ho).1]
  rfl

/-- The version of an object the render does not see. -/
theorem oshEmitVersion_absent (hnone : visible top kind name cl = none) :
    oshEmitVersion top kind name cl.crds cl "" = .ok (oshVersion top) := by
  unfold oshEmitVersion
  rw [oshOriginVersion_eq, hnone]
  exact congrArg Except.ok (oshResolveVersion_absent _ _ _)

end Render

/-! ## Whole runs -/

/-- The object of the component exists, its stamp is `v`, and `v` is served. -/
structure Pinned (c : Component) (v : String) (s : Install) : Prop where
  stamped : ∃ o, s.find? c.kind c.name = some o ∧ originStamp o = v
  named : v ≠ ""
  served : Serves s.cluster.crds c.kind v

/-- A step that does not delete the component's object, overwrites no stamp it
has, and leaves its stamp served. -/
structure PinnedStep (c : Component) (s s' : Install) : Prop where
  step : Step s s'
  kept : ∀ o, s.find? c.kind c.name = some o → ∃ o', s'.find? c.kind c.name = some o' ∧
    (originStamp o ≠ "" → originStamp o' = originStamp o)
  served : ∀ o, s'.find? c.kind c.name = some o → Serves s'.cluster.crds c.kind (originStamp o)

/-- Runs of bumps, CRD changes and everything else during which the stamp of
the component's object stays served. -/
def pinnedRun (c : Component) (v : String) : TSys Install where
  init := Pinned c v
  step := PinnedStep c

/-- A completed render emits the component's object at this version only, and
it does emit it when the component is selected. -/
def EmitsAt (c : Component) (v : String) (s : Install) : Prop :=
  ∀ docs, compositions s.top s.cluster = .ok docs →
    (∀ doc ∈ docs, doc.kind = c.kind → doc.name = c.name → doc.apiVersion = oshApiVersionAt v) ∧
    (c ∈ s.top.values.components → c.name ∈ selection s.top → componentDoc s.top c v ∈ docs)

section Runs

variable {c : Component} {v : String} {s : Install}

/-- The stamp is constant along the run. -/
theorem pinned_inductive (c : Component) (v : String) :
    (pinnedRun c v).Inductive (Pinned c v) where
  init := fun _ h => h
  step := by
    intro s s' hpinned hstep
    obtain ⟨o, ho, hstamp⟩ := hpinned.stamped
    -- the object is still there, and its stamp is write-once
    obtain ⟨o', ho', hkept⟩ := hstep.kept o ho
    have hsame : originStamp o' = v := by
      rw [hkept (hstamp ▸ hpinned.named), hstamp]
    exact ⟨⟨o', ho', hsame⟩, hpinned.named, hsame ▸ hstep.served o' ho'⟩

/-- A pinned component of this kind and name is emitted at its stamp. -/
theorem emitVersionOf_pinned (h : Pinned c v s) {c' : Component} (hkind : c'.kind = c.kind)
    (hname : c'.name = c.name) : emitVersionOf s.top s.cluster c' = v := by
  obtain ⟨o, ho, hstamp⟩ := h.stamped
  have hvisible : visible s.top c'.kind c'.name s.cluster = some o := by
    rw [hkind, hname, visible_eq_find? h.served h.named]
    exact ho
  unfold emitVersionOf
  rw [hvisible]
  show oshResolveVersion (oshVersion s.top) (originStamp o) "true" c'.kind s.cluster.crds = v
  rw [oshResolveVersion_live (visible_some hvisible).1]
  unfold chosenVersion
  rw [hstamp, hkind, if_pos ⟨h.named, h.served⟩]

theorem emitsAt_of_pinned (h : Pinned c v s) : EmitsAt c v s := by
  intro docs hrender
  constructor
  · intro doc hdoc hkind hname
    obtain ⟨c', _, _, _, rfl⟩ := (compositions_ok hrender doc).mp hdoc
    show oshApiVersionAt (emitVersionOf s.top s.cluster c') = oshApiVersionAt v
    rw [emitVersionOf_pinned h hkind hname]
  · -- the gate stays open for an object that exists
    intro hc hsel
    obtain ⟨o, ho, _⟩ := h.stamped
    have hopen : GateOpen s.top s.cluster c (emitVersionOf s.top s.cluster c) :=
      NoPrune.gateOpen_of_live ho h.named h.served
    refine (compositions_ok hrender _).mpr ⟨c, hc, hsel, hopen, ?_⟩
    rw [emitVersionOf_pinned h rfl rfl]

end Runs

/-- `osh.exists` answers for an object whose kind serves a version. With its
answer, `osh.emitVersion` is the chosen version of an object that exists and the
current version of one that does not;
and in every run during which the stamp stays served, every completed render
emits the object at its stamp. -/
theorem emit_version_pinned :
    (∀ (top : Top) (kind name : String) (cl : Cluster) (answer : String),
      oshExists top kind name cl.crds cl = .ok answer →
      (answer = "true" ↔ oshServedVersion kind (oshVersion top) cl.crds ≠ "" ∧
        ∃ o, cl.find? kind top.releaseNamespace name = some o) ∧
      (answer = "true" → ∃ o, cl.find? kind top.releaseNamespace name = some o ∧
        oshEmitVersion top kind name cl.crds cl answer =
          .ok (chosenVersion (oshVersion top) (originStamp o) kind cl.crds)) ∧
      (answer ≠ "true" →
        oshEmitVersion top kind name cl.crds cl answer = .ok (oshVersion top))) ∧
    ∀ (c : Component) (v : String), (pinnedRun c v).Invariant (EmitsAt c v) := by
  refine ⟨fun top kind name cl answer hexist => ?_, fun c v s hreach => ?_⟩
  · rcases visible_of_exists hexist with ⟨rfl, o, ho⟩ | ⟨rfl, hnone⟩
    · exact ⟨⟨fun _ => visible_isSome_iff.mp ⟨o, ho⟩, fun _ => rfl⟩,
        fun _ => ⟨o, (visible_some ho).2, oshEmitVersion_live ho⟩, fun h => absurd rfl h⟩
    · have hunseen : ¬ ∃ o, visible top kind name cl = some o := by
        rw [hnone]
        simp
      exact ⟨⟨fun h => absurd h (by decide), fun h => absurd (visible_isSome_iff.mpr h) hunseen⟩,
        fun h => absurd h (by decide), fun _ => oshEmitVersion_absent hnone⟩
  · exact emitsAt_of_pinned ((pinned_inductive c v).invariant s hreach)

end OpenstackBlueprint.Theorems.EmitVersion
