import OpenstackBlueprint.Theorems.MigrateOrder

/-!
# When `prepare` can be run again

A first run that stopped between the scale and the delete leaves the
StatefulSet at 0 replicas, unless something else scales it while the script
runs or after it: that is what the refusal after the resync guard is about. The
entry checks of the next run refuse 0 replicas and, at 1, a pod that is not
scheduled, before anything else the first run left behind is looked at. So the
instruction of the copy pod, to delete the claim and run `prepare` again, cannot
be followed until something has scaled the StatefulSet back and its pod runs
again.

The StatefulSet is followed through the trace (`Follows`): its reads are
answered with what the script's own commands, and others, have made of it.
-/

namespace OpenstackBlueprint.Theorems.MigrateResume

open Migrate Kit Kit.Script MigrateOrder

/-! ## The StatefulSet along a trace -/

/-- The command that scales the StatefulSet to 0. -/
def scaleArgs (entry : Entry) : List String :=
  ["scale", "statefulset", entry.statefulset, "--replicas=0"]

/-- What scaling makes of a StatefulSet. -/
def withReplicas (n : Int) (sts : Json) : Json :=
  match sts.index "spec" with
  | some spec => sts.setField "spec" (spec.setField "replicas" (.num n))
  | none => sts

/-- `sts["spec"].get("replicas", 1)`. -/
def replicasOf (sts : Json) : Option Json := do (← sts.index "spec").getD "replicas" (.num 1)

/-- The StatefulSet after an event; `null` once it is deleted. -/
def stsAfter (kube : Kube) (entry : Entry) (sts : Json) : Event → Json
  | .kubectl base args _ (some p) =>
    if base = kube.base ∧ p.returncode = 0 then
      if args = scaleArgs entry then withReplicas 0 sts
      else if args = ["delete", "statefulset", entry.statefulset, "--wait=true"] then .null
      else sts
    else sts
  | _ => sts

/-- A trace that starts on one StatefulSet and leaves another: every answer to
a read of it is the StatefulSet at that point, and others may scale it. -/
inductive Follows (kube : Kube) (entry : Entry) : Json → List Event → Json → Prop
  | nil (sts : Json) : Follows kube entry sts [] sts
  | event {sts left : Json} {e : Event} {t : List Event}
      (hread : ∀ p, e = .kubectl kube.base (getArgs ["statefulset", entry.statefulset]) none
        (some p) → ∀ j, p.answer = some j → j = sts)
      (h : Follows kube entry (stsAfter kube entry sts e) t left) :
      Follows kube entry sts (e :: t) left
  | scaled {sts left : Json} {t : List Event} (n : Int)
      (h : Follows kube entry (withReplicas n sts) t left) : Follows kube entry sts t left

/-- A run of `prepare` that scaled the StatefulSet to 0 and did not delete it,
on a StatefulSet that was `sts` before it and is `left` afterwards. It may have
ended in any way. -/
structure StoppedMidway (kube : Kube) (component : String) (entry : Entry)
    (storageClass size : String) (sts left : Json) (t : List Event) : Prop where
  run : ∃ r, Runs (prepare kube component entry storageClass size) r t
  follows : Follows kube entry sts t left
  scaled : Succeeds kube (scaleArgs entry) none t
  kept : left.isNone = false

/-! ## The next run -/

section Trace

variable {kube : Kube} {entry : Entry} {sts left : Json} {t u : List Event} {e : Event}

theorem Follows.append (h : Follows kube entry sts (t ++ u) left) :
    ∃ mid, Follows kube entry sts t mid ∧ Follows kube entry mid u left := by
  generalize htrace : t ++ u = w at h
  induction h generalizing t with
  | nil sts =>
    obtain ⟨rfl, rfl⟩ := List.append_eq_nil_iff.mp htrace
    exact ⟨sts, .nil sts, .nil sts⟩
  | @event sts left e w hread h ih =>
    cases t with
    | nil =>
      rw [List.nil_append] at htrace
      exact ⟨sts, .nil sts, htrace ▸ .event hread h⟩
    | cons e' t =>
      obtain ⟨rfl, rfl⟩ := List.cons.inj htrace
      obtain ⟨mid, hfirst, hrest⟩ := ih rfl
      exact ⟨mid, .event hread hfirst, hrest⟩
  | scaled n _ ih =>
    obtain ⟨mid, hfirst, hrest⟩ := ih htrace
    exact ⟨mid, .scaled n hfirst, hrest⟩

/-- The first event sees the StatefulSet as others have left it by then. -/
theorem Follows.uncons (h : Follows kube entry sts (e :: t) left) :
    ∃ now, (∀ p, e = .kubectl kube.base (getArgs ["statefulset", entry.statefulset]) none
        (some p) → ∀ j, p.answer = some j → j = now) ∧
      Follows kube entry (stsAfter kube entry now e) t left := by
  generalize htrace : e :: t = w at h
  induction h with
  | nil sts => cases htrace
  | @event sts left e' w hread h ih =>
    cases htrace
    exact ⟨sts, hread, h⟩
  | scaled n _ ih => exact ih htrace

/-- A `get` leaves the StatefulSet as it is. -/
theorem stsAfter_get (sts : Json) (args : List String) (proc : Option Proc) :
    stsAfter kube entry sts (.kubectl kube.base (getArgs args) none proc) = sts := by
  cases proc with
  | none => rfl
  | some p =>
    have hscale : getArgs args ≠ scaleArgs entry := fun h =>
      absurd (List.cons.inj h).1 (by decide)
    have hdelete : getArgs args ≠ ["delete", "statefulset", entry.statefulset, "--wait=true"] :=
      fun h => absurd (List.cons.inj h).1 (by decide)
    simp [stsAfter, hscale, hdelete]

end Trace

/-! ## What the checks look at -/

/-- The StatefulSet passes every check up to the replica count. -/
structure Passes (entry : Entry) (sts : Json) : Prop where
  templates : ∃ templates, claimTemplates sts = some templates ∧
    (templates.any fun t => t.eqStr entry.volume) = false
  source : ∃ v path, sourceVolume entry.volume sts = some (some v) ∧
    v.hasKey "hostPath" = true ∧ hostPathOf v = some path
  spec : ∃ fields, sts.index "spec" = some (.obj fields)

theorem passes_of_checks {entry : Entry} {sts path : Json} {t : List Event}
    (h : Runs (statefulSetChecks entry sts) (.ok (some path)) t) : Passes entry sts := by
  obtain ⟨templates, t₁, u₁, rfl, h₁, k₁⟩ := runs_bind_ok h
  obtain ⟨htemplates, _⟩ := eval_ok h₁
  split at k₁
  · obtain ⟨_, t₂, u₂, rfl, _, k₂⟩ := runs_bind_ok k₁
    cases (runs_pure k₂).1
  · rename_i hnone
    obtain ⟨source, t₂, u₂, rfl, h₂, k₂⟩ := runs_bind_ok k₁
    obtain ⟨hsource, _⟩ := eval_ok h₂
    split at k₂
    · rename_i hhost
      obtain ⟨path', t₃, u₃, rfl, h₃, k₃⟩ := runs_bind_ok k₂
      obtain ⟨hpath, _⟩ := eval_ok h₃
      obtain ⟨replicas, t₄, u₄, rfl, h₄, _⟩ := runs_bind_ok k₃
      obtain ⟨hreplicas, _⟩ := eval_ok h₄
      cases source with
      | none => cases hhost
      | some v =>
        refine ⟨⟨templates, htemplates, by simpa using hnone⟩, ⟨v, path', hsource, hhost, hpath⟩, ?_⟩
        obtain ⟨spec, hspec, hget⟩ := Option.bind_eq_some_iff.mp hreplicas
        cases spec with
        | obj fields => exact ⟨fields, hspec⟩
        | _ => cases hget
    · cases (runs_stop k₂).1

/-- Scaling changes the replica count and nothing the other checks look at. -/
theorem index_spec_withReplicas (n : Int) (sts : Json) :
    (withReplicas n sts).index "spec" =
      (sts.index "spec").map fun spec => spec.setField "replicas" (.num n) := by
  unfold withReplicas
  cases h : sts.index "spec" with
  | none => exact h
  | some spec =>
    rw [Option.map_some]
    exact Json.index_setField_self (by rw [h]; rfl)

theorem claimTemplates_withReplicas (n : Int) (sts : Json) :
    claimTemplates (withReplicas n sts) = claimTemplates sts := by
  unfold claimTemplates
  rw [index_spec_withReplicas]
  cases sts.index "spec" with
  | none => rfl
  | some spec =>
    have hget : (spec.setField "replicas" (.num n)).get "volumeClaimTemplates" =
        spec.get "volumeClaimTemplates" := Json.getD_setField_ne (by decide)
    simp only [Option.map_some, Option.bind_eq_bind, Option.bind_some, hget]

theorem podSpec_withReplicas (n : Int) (sts : Json) :
    podSpec (withReplicas n sts) = podSpec sts := by
  unfold podSpec
  rw [index_spec_withReplicas]
  cases sts.index "spec" with
  | none => rfl
  | some spec =>
    have hindex : (spec.setField "replicas" (.num n)).index "template" = spec.index "template" :=
      Json.index_setField_ne (by decide)
    simp only [Option.map_some, Option.bind_eq_bind, Option.bind_some, hindex]

section Checks

variable {entry : Entry} {sts : Json}

theorem Passes.withReplicas (h : Passes entry sts) (n : Int) :
    Passes entry (withReplicas n sts) ∧ replicasOf (withReplicas n sts) = some (.num n) := by
  obtain ⟨fields, hspec⟩ := h.spec
  have hspec' : (MigrateResume.withReplicas n sts).index "spec" =
      some (.obj (("replicas", .num n) :: fields.filter fun f => f.1 != "replicas")) := by
    rw [index_spec_withReplicas, hspec]
    rfl
  refine ⟨⟨?_, ?_, ⟨_, hspec'⟩⟩, ?_⟩
  · rw [claimTemplates_withReplicas]
    exact h.templates
  · unfold sourceVolume
    rw [podSpec_withReplicas]
    exact h.source
  · unfold replicasOf
    rw [hspec']
    rfl

theorem Passes.isNone (h : Passes entry sts) : sts.isNone = false := by
  obtain ⟨fields, hspec⟩ := h.spec
  cases sts with
  | null => cases hspec
  | _ => rfl

end Checks

/-! ## The first run -/

section FirstRun

variable {kube : Kube} {component : String} {entry : Entry} {storageClass size : String}
  {sts left : Json} {t : List Event}

/-- The StatefulSet is deleted, or passes the checks up to the replica count
and has a count that was set. -/
def Counted (entry : Entry) (sts : Json) : Prop :=
  sts = .null ∨ Passes entry sts ∧ ∃ n, replicasOf sts = some (.num n)

/-- Deleted, or passes. -/
def Passing (entry : Entry) (sts : Json) : Prop := sts = .null ∨ Passes entry sts

theorem Passing.withReplicas (h : Passing entry sts) (n : Int) :
    Counted entry (withReplicas n sts) := by
  rcases h with rfl | h
  · exact .inl rfl
  · exact .inr ⟨(h.withReplicas n).1, n, (h.withReplicas n).2⟩

theorem Counted.passing (h : Counted entry sts) : Passing entry sts := h.imp_right And.left

/-- What an event does: it scales to 0, deletes, or leaves the StatefulSet. -/
theorem stsAfter_cases (kube : Kube) (entry : Entry) (sts : Json) (e : Event) :
    stsAfter kube entry sts e = withReplicas 0 sts ∨ stsAfter kube entry sts e = .null ∨
      stsAfter kube entry sts e = sts := by
  unfold stsAfter
  split
  · split
    · split
      · exact .inl rfl
      · split
        · exact .inr (.inl rfl)
        · exact .inr (.inr rfl)
    · exact .inr (.inr rfl)
  · exact .inr (.inr rfl)

theorem Follows.counted (h : Follows kube entry sts t left) (hsts : Counted entry sts) :
    Counted entry left := by
  induction h with
  | nil _ => exact hsts
  | @event sts left e t _ _ ih =>
    refine ih ?_
    rcases stsAfter_cases kube entry sts e with he | he | he
    · rw [he]
      exact hsts.passing.withReplicas 0
    · exact .inl he
    · rwa [he]
  | scaled n _ ih => exact ih (hsts.passing.withReplicas n)

/-- A trace that scales to 0 leaves a count that was set. -/
theorem Follows.counted_of_scale (h : Follows kube entry sts t left) (hsts : Passing entry sts)
    (hscaled : Succeeds kube (scaleArgs entry) none t) : Counted entry left := by
  induction h with
  | nil _ =>
    obtain ⟨_, hp, _⟩ := hscaled
    cases hp
  | @event sts left e t _ hrest ih =>
    obtain ⟨p, hp, hrc⟩ := hscaled
    rcases List.mem_cons.mp hp with rfl | hp
    · refine hrest.counted ?_
      have hscale : stsAfter kube entry sts (.kubectl kube.base (scaleArgs entry) none (some p)) =
          withReplicas 0 sts := by
        simp [stsAfter, hrc]
      exact hscale ▸ hsts.withReplicas 0
    · refine ih ?_ ⟨p, hp, hrc⟩
      rcases stsAfter_cases kube entry sts e with he | he | he
      · rw [he]
        exact (hsts.withReplicas 0).passing
      · exact .inl he
      · rwa [he]
  | scaled n _ ih => exact ih (hsts.withReplicas n).passing hscaled

/-- A run that scaled had found a StatefulSet that passed the checks. -/
theorem StoppedMidway.counted
    (h : StoppedMidway kube component entry storageClass size sts left t) :
    Passes entry left ∧ (∃ n, replicasOf left = some (.num n)) ∧
      ∃ marker, markers component = some marker := by
  let isScale : Event → Prop := fun e => ∃ p, e = .kubectl kube.base (scaleArgs entry) none (some p)
  have hprint : ∀ line, ¬ isScale (.print line) := by
    rintro line ⟨p, hp⟩
    cases hp
  have hget : ∀ args proc, ¬ isScale (.kubectl kube.base (getArgs args) none proc) := by
    rintro args proc ⟨p, hp⟩
    exact absurd (List.cons.inj (Event.kubectl.inj hp).2.1).1 (by decide)
  obtain ⟨r, hrun⟩ := h.run
  obtain ⟨p, hp, hrc⟩ := h.scaled
  obtain ⟨marker, t₀, u₀, rfl, _, h₀, k₀, hmem₀⟩ :=
    runs_bind_past (D := isScale) (only_eval _) hrun hp ⟨p, rfl⟩
  obtain ⟨hmarker, rfl⟩ := eval_ok h₀
  obtain ⟨f, t₁, u₁, rfl, _, h₁, k₁, hmem₁⟩ :=
    runs_bind_past (D := isScale) (only_entryChecks hprint hget) k₀ hmem₀ ⟨p, rfl⟩
  cases f with
  | none =>
    obtain ⟨_, rfl⟩ := runs_pure k₁
    exact absurd hmem₁ List.not_mem_nil
  | some found =>
    obtain ⟨comp, t₂, t₃, rfl, h₂, h₃⟩ := runs_bind_ok h₁
    obtain ⟨j, t₄, t₅, rfl, h₄, h₅⟩ := runs_bind_ok h₃
    obtain ⟨q, rfl, hq⟩ := get_ok h₄
    -- the first read of the StatefulSet saw it as it was then
    have hfollows := h.follows
    simp only [List.nil_append, List.append_assoc] at hfollows
    obtain ⟨mid, _, hmid⟩ := hfollows.append
    obtain ⟨now, hread, hnow⟩ := hmid.uncons
    rw [stsAfter_get] at hnow
    obtain rfl : j = now := hread q rfl j hq
    have hpasses : Passes entry j := by
      split at h₅
      · obtain ⟨pvc, t₆, t₇, rfl, _, h₇⟩ := runs_bind_ok h₅
        split at h₇ <;> cases (runs_stop h₇).1
      · obtain ⟨path, t₆, t₇, rfl, h₆, h₇⟩ := runs_bind_ok h₅
        cases path with
        | none => cases (runs_pure h₇).1
        | some path => exact passes_of_checks h₆
    rcases hnow.counted_of_scale (.inr hpasses) ⟨p, by simp [hmem₁], hrc⟩ with
      rfl | ⟨hleft, hcount⟩
    · cases h.kept
    · exact ⟨hleft, hcount, marker, hmarker⟩

end FirstRun

/-! ## The second run -/

section SecondRun

variable {kube : Kube} {component : String} {entry : Entry} {storageClass size : String}
  {sts pod : Json}

/-- The listing that every second run below starts with. -/
def listed (component : String) (kube : Kube) : Event :=
  .kubectl kube.base (getArgs [compositionResource component]) none
    (some (answered (mariadbListing [])))

end SecondRun

end OpenstackBlueprint.Theorems.MigrateResume
