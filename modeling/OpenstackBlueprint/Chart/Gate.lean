import OpenstackBlueprint.Chart.Versions

/-!
# Lookup helpers and dependency gates (`_helpers.tpl`)

The helpers that read live objects, and the two dependency predicates of the
creation gate. All four object reads go through a version the CRD list serves
(`readServed`), so none of them can hit an unserved group/version.

`osh.ready` and `osh.paused` reach the conditions as `$o.status.conditions`,
an unparenthesised chain: through an object without a `status` it is a nil
pointer evaluation, which aborts the render (`Composition.statusConditions`).
`osh.originVersion` writes `(($o.metadata).annotations)` and cannot abort.
-/

namespace OpenstackBlueprint.Chart

open Kit

/-- `toString` of an optional string field. -/
def tplString (s : Option String) : String := s.getD "<nil>"

/-- `$o.status.conditions | default list`. -/
def Composition.statusConditions (o : Composition) : Tpl (List Condition) :=
  match o.status with
  | none => .error (.nilPointer "conditions")
  | some status => .ok (status.conditions.getD [])

/-- The reason an operator's pause leaves on the Ready condition. -/
def pausedReason : String := "ReconcileGracefullyPaused"

/-- The test of `osh.ready` on one condition. -/
def Condition.ready (c : Condition) : Bool :=
  c.type == some "Ready" && tplString c.status == "True" && !(tplString c.reason == pausedReason)

/-- The test of `osh.paused` on one condition. -/
def Condition.paused (c : Condition) : Bool :=
  c.type == some "Ready" && tplString c.reason == pausedReason

/-- The `range` over an object's conditions that `osh.ready` and `osh.paused`
share: `"true"` as soon as one condition passes. -/
def conditionFlag (test : Condition → Bool) (o : Composition) : Tpl String := do
  return (← o.statusConditions).foldl (fun r c => if test c then "true" else r) ""

/-- `krateo.io/composition-origin-version`. -/
def originVersionAnnotation : String := "krateo.io/composition-origin-version"

/-! ## Reading one object -/

section Reads

variable (top : Top) (kind name : String) (crds : List Crd) (cl : Cluster)

/-- The read all four helpers start with: resolve `osh.servedVersion` for the
kind and, when it answers, look the object up at it. -/
def readServed : Tpl (Option Composition) :=
  let sv := oshServedVersion kind (oshVersion top) crds
  if !(sv == "") then cl.lookup (oshApiVersionAt sv) kind top.releaseNamespace name
  else .ok none

/-- `osh.exists`. -/
def oshExists : Tpl String := do
  match ← readServed top kind name crds cl with
  | some _ => return "true"
  | none => return ""

/-- `osh.originVersion`. -/
def oshOriginVersion : Tpl String := do
  match ← readServed top kind name crds cl with
  | some o => return ((o.annotations.getD []).lookup originVersionAnnotation).getD ""
  | none => return ""

/-- `osh.ready`. -/
def oshReady : Tpl String := do
  match ← readServed top kind name crds cl with
  | some o => conditionFlag Condition.ready o
  | none => return ""

/-- `osh.paused`. -/
def oshPaused : Tpl String := do
  match ← readServed top kind name crds cl with
  | some o => conditionFlag Condition.paused o
  | none => return ""

/-- `osh.emitVersion`; `exist` is the caller's `osh.exists` answer. -/
def oshEmitVersion (exist : String) : Tpl String := do
  let origin ← oshOriginVersion top kind name crds cl
  return oshResolveVersion (oshVersion top) origin exist kind crds

end Reads

/-! ## The dependency predicates -/

/-- The `kind` loop of both predicates: the kind of the component of this
name, the last one when several share it. -/
def kindOf (comps : List Component) (name : String) : String :=
  comps.foldl (fun kind c => if c.name == name then c.kind else kind) ""

/-- A `range` that starts from `"true"` and clears the answer whenever a member
fails the test. Every member is evaluated: there is no early exit. -/
def rangeAll {α : Type*} (test : α → Tpl Bool) (l : List α) : Tpl String :=
  l.foldlM (fun all a => do return if ← test a then all else "") "true"

section Deps

variable (top : Top) (deps : List String) (comps : List Component) (crds : List Crd)
  (cl : Cluster)

/-- `osh.depsReady`. -/
def oshDepsReady : Tpl String :=
  rangeAll (fun d => do return (← oshReady top (kindOf comps d) d crds cl) == "true") deps

/-- `osh.depsExist`. -/
def oshDepsExist : Tpl String :=
  rangeAll (fun d => do
    let exist ← oshExists top (kindOf comps d) d crds cl
    let paused ← oshPaused top (kindOf comps d) d crds cl
    return exist == "true" && !(paused == "true")) deps

end Deps

/-- `osh.depsRelaxed`: the dependencies of `name` with a declared relaxation,
space-joined. -/
def oshDepsRelaxed (top : Top) (name : String) (deps : List String) : String :=
  join ' ' (uniq (deps.flatMap fun d =>
    (top.values.dependencyRelaxations.filter
      fun r => r.component == name && r.dependency == d).map fun _ => d))

/-! ## What the reads answer -/

/-- The object a render sees: none while the kind serves no version. -/
def visible (top : Top) (kind name : String) (cl : Cluster) : Option Composition :=
  if oshServedVersion kind (oshVersion top) cl.crds = "" then none
  else cl.find? kind top.releaseNamespace name

/-- A read through a served version never errors. -/
theorem readServed_eq (top : Top) (kind name : String) (cl : Cluster) :
    readServed top kind name cl.crds cl = .ok (visible top kind name cl) := by
  unfold readServed visible
  by_cases h : oshServedVersion kind (oshVersion top) cl.crds = ""
  · simp [h]
  · have hlookup := Cluster.lookup_of_serves (serves_oshServedVersion h)
      top.releaseNamespace name
    simpa [h, oshApiVersionAt] using hlookup

theorem visible_some {top : Top} {kind name : String} {cl : Cluster} {o : Composition}
    (h : visible top kind name cl = some o) :
    oshServedVersion kind (oshVersion top) cl.crds ≠ "" ∧
      cl.find? kind top.releaseNamespace name = some o := by
  unfold visible at h
  split at h
  · exact absurd h (by simp)
  · exact ⟨‹_›, h⟩

/-- An object whose kind serves a named version is seen. -/
theorem visible_eq_find? {top : Top} {kind name version : String} {cl : Cluster}
    (hserves : Serves cl.crds kind version) (hname : version ≠ "") :
    visible top kind name cl = cl.find? kind top.releaseNamespace name := by
  unfold visible
  rw [if_neg (oshServedVersion_ne_empty hserves hname)]

theorem oshExists_eq (top : Top) (kind name : String) (cl : Cluster) :
    oshExists top kind name cl.crds cl =
      .ok (if (visible top kind name cl).isSome then "true" else "") := by
  unfold oshExists
  rw [readServed_eq]
  cases visible top kind name cl <;> rfl

theorem oshOriginVersion_eq (top : Top) (kind name : String) (cl : Cluster) :
    oshOriginVersion top kind name cl.crds cl =
      .ok (match visible top kind name cl with
        | some o => ((o.annotations.getD []).lookup originVersionAnnotation).getD ""
        | none => "") := by
  unfold oshOriginVersion
  rw [readServed_eq]
  cases visible top kind name cl <;> rfl

/-- The object has a status with a condition that passes the test. -/
def Composition.HasCondition (o : Composition) (test : Condition → Bool) : Prop :=
  ∃ status, o.status = some status ∧ ∃ c ∈ status.conditions.getD [], test c = true

theorem conditionFlag_ok {o : Composition} {test : Condition → Bool} {r : String}
    (h : conditionFlag test o = .ok r) : r = "true" ↔ o.HasCondition test := by
  unfold conditionFlag Composition.statusConditions at h
  unfold Composition.HasCondition
  cases hs : o.status with
  | none =>
    rw [hs] at h
    cases h
  | some status =>
    rw [hs] at h
    rw [← Except.ok.inj h, (foldl_flag test _ "" (.inr rfl)).1]
    simp

/-- The condition reads abort exactly on an object without a status. -/
theorem conditionFlag_isOk (test : Condition → Bool) {o : Composition} :
    (∃ r, conditionFlag test o = .ok r) ↔ o.status ≠ none := by
  unfold conditionFlag Composition.statusConditions
  cases o.status with
  | none =>
    constructor
    · rintro ⟨r, hr⟩
      cases hr
    · exact fun h => absurd rfl h
  | some status => exact ⟨fun _ => by simp, fun _ => ⟨_, rfl⟩⟩

/-- Both condition helpers evaluate the flag on the object they see. -/
def conditionRead (test : Condition → Bool) (o? : Option Composition) : Tpl String :=
  match o? with
  | some o => conditionFlag test o
  | none => .ok ""

theorem oshReady_eq (top : Top) (kind name : String) (cl : Cluster) :
    oshReady top kind name cl.crds cl =
      conditionRead Condition.ready (visible top kind name cl) := by
  unfold oshReady
  rw [readServed_eq]
  cases visible top kind name cl <;> rfl

theorem oshPaused_eq (top : Top) (kind name : String) (cl : Cluster) :
    oshPaused top kind name cl.crds cl =
      conditionRead Condition.paused (visible top kind name cl) := by
  unfold oshPaused
  rw [readServed_eq]
  cases visible top kind name cl <;> rfl

theorem conditionRead_ok {o? : Option Composition} {test : Condition → Bool} {r : String}
    (h : conditionRead test o? = .ok r) :
    r = "true" ↔ ∃ o, o? = some o ∧ o.HasCondition test := by
  cases o? with
  | none =>
    rw [← Except.ok.inj h]
    simp
  | some o => simpa using conditionFlag_ok h

theorem conditionRead_isOk (test : Condition → Bool) {o? : Option Composition} :
    (∃ r, conditionRead test o? = .ok r) ↔ ∀ o, o? = some o → o.status ≠ none := by
  cases o? with
  | none =>
    constructor
    · intro _ o ho
      cases ho
    · exact fun _ => ⟨"", rfl⟩
  | some o =>
    rw [show conditionRead test (some o) = conditionFlag test o from rfl, conditionFlag_isOk]
    simp

/-- `osh.ready` answers `"true"` for an object with a passing condition. -/
theorem conditionRead_eq_true {o? : Option Composition} {test : Condition → Bool} :
    conditionRead test o? = .ok "true" ↔ ∃ o, o? = some o ∧ o.HasCondition test := by
  constructor
  · intro h
    exact (conditionRead_ok h).mp rfl
  · rintro ⟨o, rfl, h⟩
    obtain ⟨status, hs, _⟩ := id h
    obtain ⟨r, hr⟩ := (conditionRead_isOk test).mpr
      (fun o' (ho' : some o = some o') => by cases ho'; simp [hs])
    rwa [(conditionRead_ok hr).mpr ⟨o, rfl, h⟩] at hr

/-! ## What the predicates answer -/

section RangeAll

variable {α : Type*} {test : α → Tpl Bool}

theorem rangeAll_from (l : List α) (all : String) (hall : all = "true" ∨ all = "") :
    (∀ r, l.foldlM (fun all a => do return if ← test a then all else "") all = Except.ok r →
      (r = "true" ∨ r = "") ∧ (r = "true" ↔ all = "true" ∧ ∀ a ∈ l, test a = .ok true)) ∧
    ((∃ r, l.foldlM (fun all a => do return if ← test a then all else "") all = Except.ok r) ↔
      ∀ a ∈ l, ∃ b, test a = .ok b) := by
  induction l generalizing all with
  | nil =>
    refine ⟨fun r hr => ?_, by simp [pure, Except.pure]⟩
    cases hr
    exact ⟨hall, by simp⟩
  | cons a l ih =>
    rw [List.foldlM_cons]
    cases ha : test a with
    | error e =>
      refine ⟨fun r hr => ?_, ?_, fun h => ?_⟩
      · cases hr
      · rintro ⟨r, hr⟩
        cases hr
      · obtain ⟨b, hb⟩ := h a List.mem_cons_self
        rw [ha] at hb
        cases hb
    | ok b =>
      have hstep := ih (if b then all else "") (by cases b <;> simp [hall])
      refine ⟨fun r hr => ?_, ?_⟩
      · obtain ⟨hval, hiff⟩ := hstep.1 r hr
        refine ⟨hval, hiff.trans ?_⟩
        cases b <;> simp [ha]
      · refine hstep.2.trans ?_
        simp [ha]

/-- The range yields a value exactly when every test does. -/
theorem rangeAll_isOk {l : List α} :
    (∃ r, rangeAll test l = .ok r) ↔ ∀ a ∈ l, ∃ b, test a = .ok b :=
  (rangeAll_from l "true" (.inl rfl)).2

/-- The range answers `"true"` exactly when every test passes. -/
theorem rangeAll_eq_true {l : List α} :
    rangeAll test l = .ok "true" ↔ ∀ a ∈ l, test a = .ok true := by
  constructor
  · intro h
    exact (((rangeAll_from l "true" (.inl rfl)).1 "true" h).2.mp rfl).2
  · intro h
    obtain ⟨r, hr⟩ := rangeAll_isOk.mpr fun a ha => ⟨true, h a ha⟩
    rw [hr, ((rangeAll_from l "true" (.inl rfl)).1 r hr).2.mpr ⟨rfl, h⟩]

end RangeAll

section Deps

variable {top : Top} {deps : List String} {comps : List Component} {cl : Cluster}

theorem oshDepsReady_isOk :
    (∃ r, oshDepsReady top deps comps cl.crds cl = .ok r) ↔
      ∀ d ∈ deps, ∀ o, visible top (kindOf comps d) d cl = some o → o.status ≠ none := by
  unfold oshDepsReady
  rw [rangeAll_isOk]
  refine forall₂_congr fun d _ => ?_
  rw [← conditionRead_isOk Condition.ready, oshReady_eq]
  cases conditionRead Condition.ready (visible top (kindOf comps d) d cl) with
  | error e => exact ⟨fun ⟨_, h⟩ => (nomatch h), fun ⟨_, h⟩ => (nomatch h)⟩
  | ok r => exact ⟨fun _ => ⟨r, rfl⟩, fun _ => ⟨_, rfl⟩⟩

theorem oshDepsExist_isOk :
    (∃ r, oshDepsExist top deps comps cl.crds cl = .ok r) ↔
      ∀ d ∈ deps, ∀ o, visible top (kindOf comps d) d cl = some o → o.status ≠ none := by
  unfold oshDepsExist
  rw [rangeAll_isOk]
  refine forall₂_congr fun d _ => ?_
  rw [← conditionRead_isOk Condition.paused, oshExists_eq, oshPaused_eq]
  cases conditionRead Condition.paused (visible top (kindOf comps d) d cl) with
  | error e => exact ⟨fun ⟨_, h⟩ => (nomatch h), fun ⟨_, h⟩ => (nomatch h)⟩
  | ok r => exact ⟨fun _ => ⟨r, rfl⟩, fun _ => ⟨_, rfl⟩⟩

/-- The strict gate opens exactly when every dependency is seen with a Ready
condition that counts. -/
theorem oshDepsReady_eq_true :
    oshDepsReady top deps comps cl.crds cl = .ok "true" ↔
      ∀ d ∈ deps, ∃ o, visible top (kindOf comps d) d cl = some o ∧
        o.HasCondition Condition.ready := by
  unfold oshDepsReady
  rw [rangeAll_eq_true]
  refine forall₂_congr fun d _ => ?_
  rw [← conditionRead_eq_true, oshReady_eq]
  cases conditionRead Condition.ready (visible top (kindOf comps d) d cl) with
  | error e => exact ⟨fun h => (nomatch h), fun h => (nomatch h)⟩
  | ok r => simp [pure, Except.pure, bind, Except.bind]

/-- The relaxed gate opens exactly when every dependency is seen, has been
given a status, and is not paused. -/
theorem oshDepsExist_eq_true :
    oshDepsExist top deps comps cl.crds cl = .ok "true" ↔
      ∀ d ∈ deps, ∃ o, visible top (kindOf comps d) d cl = some o ∧ o.status ≠ none ∧
        ¬ o.HasCondition Condition.paused := by
  unfold oshDepsExist
  rw [rangeAll_eq_true]
  refine forall₂_congr fun d _ => ?_
  rw [oshExists_eq, oshPaused_eq]
  cases hv : visible top (kindOf comps d) d cl with
  | none => simp [conditionRead, pure, Except.pure, bind, Except.bind]
  | some o =>
    have hok := conditionFlag_isOk Condition.paused (o := o)
    rw [show conditionRead Condition.paused (some o) = conditionFlag Condition.paused o from rfl]
    cases hf : conditionFlag Condition.paused o with
    | error e =>
      rw [hf] at hok
      have hnone : o.status = none := by
        by_contra hne
        obtain ⟨r, hr⟩ := hok.mpr hne
        cases hr
      constructor
      · intro h
        cases h
      · rintro ⟨o', ho', hs, _⟩
        cases Option.some.inj ho'
        exact absurd hnone hs
    | ok r =>
      have hs : o.status ≠ none := hok.mp ⟨r, hf⟩
      have hr := conditionFlag_ok hf
      simp [pure, Except.pure, bind, Except.bind, hs, ← hr]

end Deps

end OpenstackBlueprint.Chart
