import OpenstackBlueprint.Migrate.Trace

/-!
# The StatefulSet is deleted only after a verified copy

Every run of the two phases, on every sequence of answers and however it ends.
The destructive command has one place in `prepare`, behind seven steps that
each have to return; the trace before it is cut into one segment for each step,
in their order (`Milestones`).

`finish` reads the StatefulSet a second time where the first read found one,
and what it checks is the second read: an object that changes in between is
unpaused on what it was read as last.
-/

namespace OpenstackBlueprint.Theorems.MigrateOrder

open Migrate Kit Kit.Script

/-! ## Kinds of events -/

/-- `kubectl delete statefulset …`. -/
def isDelete : Event → Bool
  | .kubectl _ ("delete" :: "statefulset" :: _) _ _ => true
  | _ => false

/-- Everything but a command other than `get`. -/
def isRead : Event → Bool
  | .kubectl _ ("get" :: _) _ _ => true
  | .kubectl .. => false
  | _ => true

/-- `kubectl annotate … krateo.io/paused-`. -/
def isUnpause : Event → Bool
  | .kubectl _ ["annotate", _, _, a] _ _ => a == pauseAnnotation ++ "-"
  | _ => false

/-! ## What each step can emit -/

section Only

variable {kube : Kube} {component : String} {entry : Entry} {P : Event → Prop}

theorem only_statefulSetChecks (hprint : ∀ line, P (.print line)) (sts : Json) :
    Only P (statefulSetChecks entry sts) := by
  refine only_bind (only_eval _) fun _ => only_ite (fun _ => ?_) fun _ => ?_
  · exact only_bind (only_print hprint _) fun _ => only_pure _
  · refine only_bind (only_eval _) fun _ => only_ite (fun _ => ?_) fun _ => only_stop _
    refine only_bind (only_eval _) fun _ => only_bind (only_eval _) fun _ => ?_
    exact only_ite (fun _ => only_pure _) fun _ => only_stop _

theorem only_entryChecks (hprint : ∀ line, P (.print line))
    (hget : ∀ args proc, P (.kubectl kube.base (getArgs args) none proc)) :
    Only P (entryChecks kube component entry) := by
  refine only_bind (only_composition hget) fun _ => only_bind (only_get (hget _)) fun sts => ?_
  refine only_ite (fun _ => ?_) fun _ => ?_
  · exact only_bind (only_get (hget _)) fun _ =>
      only_ite (fun _ => only_stop _) fun _ => only_stop _
  · refine only_bind (only_statefulSetChecks hprint sts) fun path => ?_
    cases path with
    | none => exact only_pure _
    | some path =>
      refine only_bind (only_get (hget _)) fun _ => only_bind (only_eval _) fun _ => ?_
      refine only_ite (fun _ => ?_) fun _ => only_stop _
      exact only_bind (only_eval _) fun _ => only_bind (only_print hprint _) fun _ => only_pure _

theorem only_pauseComposition (hprint : ∀ line, P (.print line))
    (hannotate : kube.apply = true → ∀ n proc, P (.kubectl kube.base
      ["annotate", compositionResource component, n, pauseAnnotation ++ "=true", "--overwrite"]
      none proc)) (comp : Json) : Only P (pauseComposition kube component comp) := by
  refine only_bind (only_eval _) fun _ => only_ite (fun _ => only_pure _) fun _ => ?_
  refine only_bind (only_eval _) fun name => only_change hprint fun happly a ha proc => ?_
  obtain ⟨n, _, rfl⟩ := Option.map_eq_some_iff.mp ha
  exact hannotate happly n proc

theorem only_scaleToZero (hprint : ∀ line, P (.print line))
    (hscale : kube.apply = true → ∀ proc, P (.kubectl kube.base
      ["scale", "statefulset", entry.statefulset, "--replicas=0"] none proc)) :
    Only P (scaleToZero kube entry) := by
  refine only_change hprint fun happly a ha proc => ?_
  cases ha
  exact hscale happly proc

theorem only_awaitStopped (hsleep : ∀ n, P (.sleep n))
    (hget : ∀ args proc, P (.kubectl kube.base (getArgs args) none proc)) :
    Only P (awaitStopped kube entry) :=
  only_waitFor (only_bind (only_get (hget _)) fun _ => only_pure _) hsleep

theorem only_holdAtZero (hsleep : ∀ n, P (.sleep n))
    (hget : ∀ args proc, P (.kubectl kube.base (getArgs args) none proc)) :
    Only P (holdAtZero kube entry) := by
  refine only_bind (only_emit (hsleep _)) fun _ => only_bind (only_get (hget _)) fun _ => ?_
  exact only_bind (only_eval _) fun _ => only_ite (fun _ => only_pure _) fun _ => only_stop _

theorem only_compareInventories (hprint : ∀ line, P (.print line)) (src dst : Dict String Int)
    (srcFiles srcBytes : Int) : Only P (compareInventories src dst srcFiles srcBytes) := by
  refine only_bind (only_eval _) fun _ => only_ite (fun _ => ?_) fun _ => only_stop _
  exact only_bind (only_eval _) fun _ =>
    only_ite (fun _ => only_print hprint _) fun _ => only_stop _

theorem only_verifiedCopy (hprint : ∀ line, P (.print line)) (hsleep : ∀ n, P (.sleep n))
    (hget : ∀ args proc, P (.kubectl kube.base (getArgs args) none proc))
    (hdelete : ∀ rest proc, P (.kubectl kube.base ("delete" :: "pod" :: rest) none proc))
    (happly : ∀ stdin proc, P (.kubectl kube.base ["apply", "-f", "-"] stdin proc))
    (hlogs : ∀ rest proc, P (.kubectl kube.base ("logs" :: rest) none proc))
    (storageClass size marker : String) (found : Found) :
    Only P (verifiedCopy kube component entry storageClass size marker found) := by
  refine only_bind (only_mapStop (only_bind ?_ fun _ => only_eval _)) fun src => ?_
  · exact only_runHelper hsleep hget hdelete happly hlogs
  · refine only_bind (only_eval _) fun _ => only_bind (only_eval _) fun _ => ?_
    refine only_bind (only_print hprint _) fun _ => only_bind ?_ fun _ => ?_
    · refine only_bind (only_get (hget _)) fun _ => only_ite (fun _ => ?_) fun _ => only_pure _
      refine only_change hprint fun _ a ha proc => ?_
      cases ha
      exact happly _ proc
    · refine only_bind (only_bind (only_print hprint _) fun _ => only_bind ?_ fun _ =>
        only_eval _) fun dst => only_compareInventories hprint src dst _ _
      exact only_runHelper hsleep hget hdelete happly hlogs

theorem only_printPlan (hprint : ∀ line, P (.print line)) (storageClass size marker : String)
    (found : Found) : Only P (printPlan entry storageClass size marker found) :=
  only_bind (only_print hprint _) fun _ => only_bind (only_print hprint _) fun _ =>
    only_bind (only_print hprint _) fun _ => only_print hprint _

theorem only_requireClaim
    (hget : ∀ args proc, P (.kubectl kube.base (getArgs args) none proc)) :
    Only P (requireClaim kube entry) :=
  only_bind (only_get (hget _)) fun _ => only_ite (fun _ => only_stop _) fun _ => only_pure _

theorem only_requireTemplate
    (hget : ∀ args proc, P (.kubectl kube.base (getArgs args) none proc)) :
    Only P (requireTemplate kube entry) := by
  refine only_bind (only_get (hget _)) fun _ => only_ite (fun _ => only_pure _) fun _ => ?_
  refine only_bind (only_get (hget _)) fun _ => only_bind (only_eval _) fun _ => ?_
  exact only_ite (fun _ => only_pure _) fun _ => only_stop _

theorem only_requireVersion (comp : Json) (version : String) :
    Only P (requireVersion comp version) := by
  refine only_bind (only_eval _) fun _ => only_ite (fun _ => only_pure _) fun _ => ?_
  exact only_bind (only_eval _) fun _ => only_stop _

theorem only_unpause (hprint : ∀ line, P (.print line))
    (hannotate : kube.apply = true → ∀ n proc, P (.kubectl kube.base
      ["annotate", compositionResource component, n, pauseAnnotation ++ "-"] none proc))
    (comp : Json) : Only P (unpause kube component comp) := by
  refine only_bind (only_eval _) fun _ => only_ite (fun _ => ?_) fun _ => only_pure _
  refine only_bind (only_eval _) fun name => only_change hprint fun happly a ha proc => ?_
  obtain ⟨n, _, rfl⟩ := Option.map_eq_some_iff.mp ha
  exact hannotate happly n proc

theorem only_podReady
    (hget : ∀ args proc, P (.kubectl kube.base (getArgs args) none proc)) :
    Only P (podReady kube entry) := by
  refine only_bind (only_get (hget _)) fun _ => only_ite (fun _ => ?_) fun _ => only_pure _
  exact only_bind (only_eval _) fun _ => only_bind (only_eval _) fun _ => only_pure _

end Only

/-! ## Without `--apply` -/

theorem prepare_plan_reads {kube : Kube} (hplan : kube.apply = false) (component : String)
    (entry : Entry) (storageClass size : String) :
    Only (fun e => isRead e = true) (prepare kube component entry storageClass size) := by
  have hprint : ∀ line, isRead (.print line) = true := fun _ => rfl
  have hget : ∀ args proc, isRead (.kubectl kube.base (getArgs args) none proc) = true :=
    fun _ _ => rfl
  have hnot : kube.apply = true → False := by simp [hplan]
  refine only_bind (only_eval _) fun marker => only_bind (only_entryChecks hprint hget) fun f => ?_
  cases f with
  | none => exact only_pure _
  | some found =>
    refine only_bind (only_pauseComposition hprint (fun h => (hnot h).elim) _) fun _ => ?_
    refine only_bind (only_scaleToZero hprint fun h => (hnot h).elim) fun _ => ?_
    exact only_ite (fun h => (hnot h).elim) fun _ => only_printPlan hprint _ _ _ _

theorem finish_plan_reads {kube : Kube} (hplan : kube.apply = false) (component : String)
    (entry : Entry) (version : String) :
    Only (fun e => isRead e = true) (finish kube component entry version) := by
  have hprint : ∀ line, isRead (.print line) = true := fun _ => rfl
  have hget : ∀ args proc, isRead (.kubectl kube.base (getArgs args) none proc) = true :=
    fun _ _ => rfl
  have hnot : kube.apply = true → False := by simp [hplan]
  refine only_bind (only_composition hget) fun comp => only_bind (only_requireClaim hget) fun _ => ?_
  refine only_bind (only_requireTemplate hget) fun _ => ?_
  refine only_bind (only_requireVersion _ _) fun _ => ?_
  refine only_bind (only_unpause hprint (fun h => (hnot h).elim) _) fun _ => ?_
  exact only_ite (fun h => (hnot h).elim) fun _ => only_print hprint _

/-! ## What each step leaves in the trace -/

/-- `sts["spec"].get("replicas")`. -/
def heldReplicas (sts : Json) : Option Json := do (← sts.index "spec").get "replicas"

/-- `v["hostPath"]["path"]`. -/
def hostPathOf (v : Json) : Option Json := do (← v.index "hostPath").index "path"

/-- `sts["spec"]["template"]["spec"]["containers"][0]["image"]`. -/
def firstImage (sts : Json) : Option Json := do
  (← (← (← podSpec sts).index "containers").first).index "image"

/-- `(pod or {}).get("spec", {}).get("nodeName")`. -/
def nodeName (pod : Json) : Option Json := do
  (← (pod.orElse (.obj [])).getD "spec" (.obj [])).get "nodeName"

/-- What `prepare` goes by was read: the Composition, a StatefulSet that keeps the volume at the
path and runs the image, and its pod on the node. -/
structure FoundIn (kube : Kube) (component : String) (entry : Entry) (found : Found)
    (t : List Event) : Prop where
  composition : ∃ listing, Reads kube [compositionResource component] listing t ∧
    compositionOf listing = some found.comp
  statefulSet : ∃ sts source, Reads kube ["statefulset", entry.statefulset] sts t ∧
    sourceVolume entry.volume sts = some (some source) ∧
    hostPathOf source = some found.path ∧ firstImage sts = some found.image
  pod : ∃ pod, Reads kube ["pod", entry.pod] pod t ∧ nodeName pod = some found.node ∧
    found.node.truthy = true

/-- The Composition was read as paused, or the pause annotation was set on it. -/
def PausedIn (kube : Kube) (component : String) (comp : Json) (t : List Event) : Prop :=
  paused comp = some true ∨ ∃ n, metadataName comp = some (.str n) ∧
    Succeeds kube ["annotate", compositionResource component, n, pauseAnnotation ++ "=true",
      "--overwrite"] none t

/-- After the resync guard the StatefulSet was read at 0 replicas. -/
def HeldAtZero (kube : Kube) (entry : Entry) (t : List Event) : Prop :=
  ∃ u v sts held, t = u ++ .sleep resyncGuard :: v ∧
    Reads kube ["statefulset", entry.statefulset] sts v ∧ heldReplicas sts = some held ∧
    held.eqInt 0 = true

/-- The claim was read as existing, or it was created. -/
def ClaimThere (kube : Kube) (entry : Entry) (storageClass size : String) (t : List Event) :
    Prop :=
  (∃ pvc, Reads kube ["pvc", entry.claim] pvc t ∧ pvc.isNone = false) ∨
    Succeeds kube ["apply", "-f", "-"] (some (claimDoc entry storageClass size).dumps) t

/-- The two logs parse to inventories that pass the comparison. -/
def InventoriesMatch (srcLog dstLog : String) : Prop :=
  ∃ src dst files bytes dstFiles, parseInventory srcLog "src." = some src ∧
    parseInventory dstLog "dst." = some dst ∧ src.get? "files" = some files ∧
    src.get? "bytes" = some bytes ∧ dst.get? "files" = some dstFiles ∧
    dst.get? "bytes" = some bytes ∧ dstFiles - lostFound dstFiles files = files

/-- The pod mounts the node path, and every mount of it is read-only. -/
def MountsReadOnly (path : Json) (pod : HelperPod) : Prop :=
  (∃ v ∈ pod.volumes, ∃ m ∈ pod.mounts, ∃ name, hostPathOf v = some path ∧
    v.index "name" = some name ∧ m.index "name" = some name) ∧
  ∀ m ∈ pod.mounts, m.index "readOnly" = some (.bool true)

/-- A trace that shows a verified copy: one segment for each step, in order. The probe looks for
the component's marker, and both pods are made from what was read. -/
structure Milestones (kube : Kube) (component : String) (entry : Entry)
    (storageClass size : String) (s₁ s₂ s₃ s₄ s₅ s₆ s₇ : List Event) (marker : String)
    (found : Found) (srcLog dstLog : String) : Prop where
  known : markers component = some marker
  read : FoundIn kube component entry found s₁
  paused : PausedIn kube component found.comp s₁
  scaled : Succeeds kube ["scale", "statefulset", entry.statefulset, "--replicas=0"] none s₂
  stopped : Reads kube ["pod", entry.pod] .null s₃
  held : HeldAtZero kube entry s₄
  readOnly : MountsReadOnly found.path (probePod entry marker found)
  probed : HelperSucceeded kube (probePod entry marker found) srcLog s₅
  claim : ClaimThere kube entry storageClass size s₆
  copied : HelperSucceeded kube (copyPod entry found) dstLog s₇
  compared : InventoriesMatch srcLog dstLog

/-- The trace shows every milestone, in order. -/
def CopyVerified (kube : Kube) (component : String) (entry : Entry) (storageClass size : String)
    (t : List Event) : Prop :=
  ∃ s₁ s₂ s₃ s₄ s₅ s₆ s₇ rest marker found srcLog dstLog,
    t = s₁ ++ s₂ ++ s₃ ++ s₄ ++ s₅ ++ s₆ ++ s₇ ++ rest ∧
    Milestones kube component entry storageClass size s₁ s₂ s₃ s₄ s₅ s₆ s₇ marker found
      srcLog dstLog

section Steps

variable {kube : Kube} {component : String} {entry : Entry} {t t' : List Event}

theorem FoundIn.mono {found : Found} (h : FoundIn kube component entry found t)
    (hsub : ∀ e ∈ t, e ∈ t') : FoundIn kube component entry found t' := by
  obtain ⟨⟨listing, hlisting, hcomp⟩, ⟨sts, source, hsts, hsource⟩, ⟨pod, hpod, hnode⟩⟩ := h
  exact ⟨⟨listing, hlisting.mono hsub, hcomp⟩, ⟨sts, source, hsts.mono hsub, hsource⟩,
    ⟨pod, hpod.mono hsub, hnode⟩⟩

theorem PausedIn.mono {comp : Json} (h : PausedIn kube component comp t)
    (hsub : ∀ e ∈ t, e ∈ t') : PausedIn kube component comp t' := by
  rcases h with hpaused | ⟨n, hn, p, hp, hrc⟩
  · exact .inl hpaused
  · exact .inr ⟨n, hn, p, hsub _ hp, hrc⟩

theorem statefulSetChecks_ok {sts path : Json}
    (h : Runs (statefulSetChecks entry sts) (.ok (some path)) t) :
    ∃ source, sourceVolume entry.volume sts = some (some source) ∧
      hostPathOf source = some path := by
  obtain ⟨templates, t₁, t₂, rfl, _, h₂⟩ := runs_bind_ok h
  split at h₂
  · obtain ⟨_, t₃, t₄, rfl, _, h₄⟩ := runs_bind_ok h₂
    cases (runs_pure h₄).1
  · obtain ⟨source, t₃, t₄, rfl, h₃, h₄⟩ := runs_bind_ok h₂
    split at h₄
    · obtain ⟨path', t₅, t₆, rfl, h₅, h₆⟩ := runs_bind_ok h₄
      obtain ⟨replicas, t₇, t₈, rfl, _, h₈⟩ := runs_bind_ok h₆
      split at h₈
      · cases (runs_pure h₈).1
        obtain ⟨v, rfl, hpath⟩ := Option.bind_eq_some_iff.mp (eval_ok h₅).1
        exact ⟨v, (eval_ok h₃).1, hpath⟩
      · cases (runs_stop h₈).1
    · cases (runs_stop h₄).1

theorem entryChecks_ok {found : Found}
    (h : Runs (entryChecks kube component entry) (.ok (some found)) t) :
    FoundIn kube component entry found t := by
  obtain ⟨comp, t₁, t₂, rfl, h₁, h₂⟩ := runs_bind_ok h
  obtain ⟨listing, hlisting, hcomp⟩ := composition_ok h₁
  obtain ⟨sts, t₃, t₄, rfl, h₃, h₄⟩ := runs_bind_ok h₂
  split at h₄
  · obtain ⟨pvc, t₅, t₆, rfl, _, h₆⟩ := runs_bind_ok h₄
    split at h₆ <;> cases (runs_stop h₆).1
  · obtain ⟨path, t₅, t₆, rfl, h₅, h₆⟩ := runs_bind_ok h₄
    cases path with
    | none => cases (runs_pure h₆).1
    | some path =>
      obtain ⟨source, hsource, hpath⟩ := statefulSetChecks_ok h₅
      obtain ⟨pod, t₇, t₈, rfl, h₇, h₈⟩ := runs_bind_ok h₆
      obtain ⟨node, t₉, t₁₀, rfl, h₉, h₁₀⟩ := runs_bind_ok h₈
      split at h₁₀
      · rename_i hnode
        obtain ⟨image, t₁₁, t₁₂, rfl, h₁₁, h₁₂⟩ := runs_bind_ok h₁₀
        obtain ⟨_, t₁₃, t₁₄, rfl, _, h₁₄⟩ := runs_bind_ok h₁₂
        cases (runs_pure h₁₄).1
        refine ⟨⟨listing, hlisting.mono fun e he => by simp [he], hcomp⟩, ⟨sts, source, ?_, hsource,
          hpath, (eval_ok h₁₁).1⟩, ⟨pod, ?_, (eval_ok h₉).1, hnode⟩⟩
        · exact (get_reads h₃).mono fun e he => by simp [he]
        · exact (get_reads h₇).mono fun e he => by simp [he]
      · cases (runs_stop h₁₀).1

/-- The probe mounts the node path, read-only. -/
theorem mountsReadOnly_probePod (entry : Entry) (marker : String) (found : Found) :
    MountsReadOnly found.path (probePod entry marker found) := by
  refine ⟨⟨_, List.mem_cons_self, _, List.mem_cons_self, .str "src", rfl, rfl, rfl⟩,
    fun m hm => ?_⟩
  rw [List.mem_singleton.mp hm]
  rfl

theorem pauseComposition_ok {comp : Json} (happly : kube.apply = true)
    (h : Runs (pauseComposition kube component comp) (.ok ()) t) :
    PausedIn kube component comp t := by
  obtain ⟨isPaused, t₁, t₂, rfl, h₁, h₂⟩ := runs_bind_ok h
  obtain ⟨hpaused, rfl⟩ := eval_ok h₁
  cases isPaused with
  | true => exact .inl hpaused
  | false =>
    obtain ⟨name, t₃, t₄, rfl, h₃, h₄⟩ := runs_bind_ok h₂
    obtain ⟨hname, rfl⟩ := eval_ok h₃
    obtain ⟨a, p, ha, hrc, rfl⟩ := change_ok happly h₄
    obtain ⟨n, hn, rfl⟩ := Option.map_eq_some_iff.mp ha
    obtain rfl : name = .str n := by
      cases name <;> simp_all [Json.asStr]
    exact .inr ⟨n, hname, p, by simp, hrc⟩

theorem awaitStopped_ok (h : Runs (awaitStopped kube entry) (.ok ()) t) :
    Reads kube ["pod", entry.pod] .null t := by
  obtain ⟨t₁, t₂, rfl, h₂⟩ := waitFor_ok h
  obtain ⟨j, t₃, t₄, rfl, h₃, h₄⟩ := runs_bind_ok h₂
  have hnone : j.isNone = true := (Except.ok.inj (runs_pure h₄).1).symm
  obtain rfl : j = .null := by
    cases j <;> simp_all [Json.isNone]
  exact (get_reads h₃).mono fun e he => by simp [he]

theorem holdAtZero_ok (h : Runs (holdAtZero kube entry) (.ok ()) t) : HeldAtZero kube entry t := by
  obtain ⟨_, t₁, t₂, rfl, h₁, h₂⟩ := runs_bind_ok h
  obtain ⟨_, rfl⟩ := runs_emit h₁
  obtain ⟨sts, t₃, t₄, rfl, h₃, h₄⟩ := runs_bind_ok h₂
  obtain ⟨held, t₅, t₆, rfl, h₅, h₆⟩ := runs_bind_ok h₄
  obtain ⟨hheld, rfl⟩ := eval_ok h₅
  split at h₆
  · rename_i hzero
    refine ⟨[], t₃ ++ ([] ++ t₆), sts, held, rfl, ?_, hheld, hzero⟩
    exact (get_reads h₃).mono fun e he => List.mem_append_left _ he
  · cases (runs_stop h₆).1

theorem ensureClaim_ok {storageClass size : String} (happly : kube.apply = true)
    (h : Runs (ensureClaim kube entry storageClass size) (.ok ()) t) :
    ClaimThere kube entry storageClass size t := by
  obtain ⟨pvc, t₁, t₂, rfl, h₁, h₂⟩ := runs_bind_ok h
  split at h₂
  · obtain ⟨p, hp, hrc⟩ := change_succeeds happly h₂
    exact .inr ⟨p, List.mem_append_right _ hp, hrc⟩
  · rename_i hsome
    refine .inl ⟨pvc, (get_reads h₁).mono fun e he => List.mem_append_left _ he, ?_⟩
    simpa using hsome

theorem measureSource_ok {marker : String} {found : Found} {src : Dict String Int}
    (h : Runs (measureSource kube component entry marker found) (.ok src) t) :
    ∃ log, HelperSucceeded kube (probePod entry marker found) log t ∧
      parseInventory log "src." = some src := by
  rcases runs_mapStop h with ⟨e, he, _⟩ | ⟨a, ha, hrun⟩
  · cases he
  · cases ha
    obtain ⟨log, t₁, t₂, rfl, h₁, h₂⟩ := runs_bind_ok hrun
    obtain ⟨hparse, rfl⟩ := eval_ok h₂
    rw [List.append_nil]
    exact ⟨log, runHelper_ok h₁, hparse⟩

theorem copyState_ok {found : Found} {dst : Dict String Int}
    (h : Runs (copyState kube entry found) (.ok dst) t) :
    ∃ line log t', t = .print line :: t' ∧ HelperSucceeded kube (copyPod entry found) log t' ∧
      parseInventory log "dst." = some dst := by
  obtain ⟨_, t₁, t₂, rfl, h₁, h₂⟩ := runs_bind_ok h
  obtain ⟨_, rfl⟩ := runs_emit h₁
  obtain ⟨log, t₃, t₄, rfl, h₃, h₄⟩ := runs_bind_ok h₂
  obtain ⟨hparse, rfl⟩ := eval_ok h₄
  rw [List.append_nil]
  exact ⟨_, log, t₃, rfl, runHelper_ok h₃, hparse⟩

/-- What the copy leaves, from the probe to the comparison. -/
theorem verifiedCopy_ok {storageClass size marker : String} {found : Found}
    (happly : kube.apply = true)
    (h : Runs (verifiedCopy kube component entry storageClass size marker found) (.ok ()) t) :
    ∃ s₅ s₆ s₇ rest srcLog dstLog, t = s₅ ++ s₆ ++ s₇ ++ rest ∧
      HelperSucceeded kube (probePod entry marker found) srcLog s₅ ∧
      ClaimThere kube entry storageClass size s₆ ∧
      HelperSucceeded kube (copyPod entry found) dstLog s₇ ∧ InventoriesMatch srcLog dstLog := by
  obtain ⟨src, t₁, u₁, rfl, h₁, k₁⟩ := runs_bind_ok h
  obtain ⟨srcLog, hprobe, hsrc⟩ := measureSource_ok h₁
  obtain ⟨files, t₂, u₂, rfl, h₂, k₂⟩ := runs_bind_ok k₁
  obtain ⟨hfiles, rfl⟩ := eval_ok h₂
  obtain ⟨bytes, t₃, u₃, rfl, h₃, k₃⟩ := runs_bind_ok k₂
  obtain ⟨hbytes, rfl⟩ := eval_ok h₃
  obtain ⟨_, t₄, u₄, rfl, _, k₄⟩ := runs_bind_ok k₃
  obtain ⟨_, t₅, u₅, rfl, h₅, k₅⟩ := runs_bind_ok k₄
  obtain ⟨dst, t₆, u₆, rfl, h₆, k₆⟩ := runs_bind_ok k₅
  obtain ⟨line, dstLog, t₇, rfl, hcopy, hdst⟩ := copyState_ok h₆
  obtain ⟨dstFiles, hdstFiles, hdstBytes, hmatch⟩ := compareInventories_ok k₆
  have hclaim : ClaimThere kube entry storageClass size (t₄ ++ t₅ ++ [.print line]) := by
    rcases ensureClaim_ok happly h₅ with ⟨pvc, hreads, hnone⟩ | ⟨p, hp, hrc⟩
    · exact .inl ⟨pvc, hreads.mono fun e he => by simp [he], hnone⟩
    · exact .inr ⟨p, by simp [hp], hrc⟩
  exact ⟨t₁, t₄ ++ t₅ ++ [.print line], t₇, u₆, srcLog, dstLog, by simp, hprobe, hclaim, hcopy,
    src, dst, files, bytes, dstFiles, hsrc, hdst, hfiles, hbytes, hdstFiles, hdstBytes, hmatch⟩

end Steps

/-! ## The delete -/

/-- The last step is one delete, with a line before it and nothing but a line
after it. -/
theorem deleteStatefulSet_trace {kube : Kube} {entry : Entry} {found : Found}
    {r : Except Stop Unit} {t : List Event} (happly : kube.apply = true)
    (h : Runs (deleteStatefulSet kube entry found) r t) :
    ∃ line proc v, t = .print line :: .kubectl kube.base
        ["delete", "statefulset", entry.statefulset, "--wait=true"] none proc :: v ∧
      ∀ x ∈ v, ¬ isDelete x = true := by
  rcases runs_bind h with ⟨_, _, herr⟩ | ⟨_, v₁, v₂, rfl, hchange, hlast⟩
  · obtain ⟨proc, rfl⟩ := change_trace happly herr
    exact ⟨_, proc, [], rfl, by simp⟩
  · obtain ⟨proc, rfl⟩ := change_trace happly hchange
    obtain ⟨_, rfl⟩ := runs_emit hlast
    refine ⟨_, proc, _, rfl, fun x hx => ?_⟩
    rw [List.mem_singleton.mp hx]
    exact Bool.false_ne_true

/-- The delete comes after every milestone. -/
theorem prepare_delete {kube : Kube} {component : String} {entry : Entry}
    {storageClass size : String} {r : Except Stop Unit} {t : List Event}
    (h : Runs (prepare kube component entry storageClass size) r t) {pre post : List Event}
    {e : Event} (hsplit : t = pre ++ e :: post) (he : isDelete e = true) :
    kube.apply = true ∧ CopyVerified kube component entry storageClass size pre := by
  have hprint : ∀ line, ¬ isDelete (.print line) = true := fun _ => Bool.false_ne_true
  have hsleep : ∀ n, ¬ isDelete (.sleep n) = true := fun _ => Bool.false_ne_true
  have hget : ∀ args proc, ¬ isDelete (.kubectl kube.base (getArgs args) none proc) = true :=
    fun _ _ => Bool.false_ne_true
  have hmem : e ∈ t := hsplit ▸ by simp
  obtain ⟨marker, t₀, u₀, ht₀, _, h₀, k₀, hmem₀⟩ :=
    runs_bind_past (D := (isDelete · = true)) (only_eval _) h hmem he
  obtain ⟨hmarker, rfl⟩ := eval_ok h₀
  obtain ⟨f, t₁, u₁, rfl, q₁, h₁, k₁, hmem₁⟩ :=
    runs_bind_past (D := (isDelete · = true)) (only_entryChecks hprint hget) k₀ hmem₀ he
  cases f with
  | none =>
    obtain ⟨_, rfl⟩ := runs_pure k₁
    exact absurd hmem₁ List.not_mem_nil
  | some found =>
    obtain ⟨_, t₂, u₂, rfl, q₂, h₂, k₂, hmem₂⟩ := runs_bind_past (D := (isDelete · = true))
      (only_pauseComposition hprint (fun _ _ _ => Bool.false_ne_true) _) k₁ hmem₁ he
    obtain ⟨_, t₃, u₃, rfl, q₃, h₃, k₃, hmem₃⟩ := runs_bind_past (D := (isDelete · = true))
      (only_scaleToZero hprint fun _ _ => Bool.false_ne_true) k₂ hmem₂ he
    by_cases happly : kube.apply = true
    · refine ⟨happly, ?_⟩
      rw [if_pos happly] at k₃
      obtain ⟨_, t₄, u₄, rfl, q₄, h₄, k₄, hmem₄⟩ := runs_bind_past (D := (isDelete · = true))
        (only_awaitStopped hsleep hget) k₃ hmem₃ he
      obtain ⟨_, t₅, u₅, rfl, q₅, h₅, k₅, hmem₅⟩ := runs_bind_past (D := (isDelete · = true))
        (only_holdAtZero hsleep hget) k₄ hmem₄ he
      obtain ⟨_, t₆, u₆, rfl, q₆, h₆, k₆, hmem₆⟩ := runs_bind_past (D := (isDelete · = true))
        (only_verifiedCopy hprint hsleep hget (fun _ _ => Bool.false_ne_true)
          (fun _ _ => Bool.false_ne_true) (fun _ _ => Bool.false_ne_true) _ _ _ _) k₅ hmem₅ he
      obtain ⟨line, proc, v, rfl, hv⟩ := deleteStatefulSet_trace happly k₆
      -- the trace before the one delete, cut into the segments of the steps
      have hcut : (t₁ ++ t₂ ++ t₃ ++ t₄ ++ t₅ ++ t₆ ++ [.print line]) ++ .kubectl kube.base
          ["delete", "statefulset", entry.statefulset, "--wait=true"] none proc :: v =
          pre ++ e :: post := by
        rw [← hsplit, ht₀]
        simp
      have hfree : ∀ x ∈ t₁ ++ t₂ ++ t₃ ++ t₄ ++ t₅ ++ t₆ ++ [.print line],
          ¬ isDelete x = true := by
        intro x hx
        simp only [List.mem_append, List.mem_singleton] at hx
        rcases hx with (((((hx | hx) | hx) | hx) | hx) | hx) | rfl
        · exact q₁ x hx
        · exact q₂ x hx
        · exact q₃ x hx
        · exact q₄ x hx
        · exact q₅ x hx
        · exact q₆ x hx
        · exact hprint _
      have hpre := (split_unique (D := (isDelete · = true)) hfree hv hcut he).1
      obtain ⟨s₅, s₆, s₇, rest, srcLog, dstLog, rfl, hprobed, hclaim, hcopied, hcompared⟩ :=
        verifiedCopy_ok happly h₆
      have hpaused := (pauseComposition_ok happly h₂).mono fun x hx => List.mem_append_right t₁ hx
      have hfound := (entryChecks_ok h₁).mono fun x hx => List.mem_append_left t₂ hx
      exact ⟨t₁ ++ t₂, t₃, t₄, t₅, s₅, s₆, s₇, rest ++ [.print line], marker, found, srcLog,
        dstLog, by rw [hpre]; simp, hmarker, hfound, hpaused, change_succeeds happly h₃,
        awaitStopped_ok h₄, holdAtZero_ok h₅, mountsReadOnly_probePod entry marker found, hprobed,
        hclaim, hcopied, hcompared⟩
    · -- without `--apply` the plan is printed and nothing else
      rw [if_neg happly] at k₃
      have hplan : Only (fun e => ¬ isDelete e = true)
          (printPlan entry storageClass size marker found) :=
        only_printPlan hprint storageClass size marker found
      exact absurd he (hplan _ _ k₃ e hmem₃)

/-! ## The unpause -/

/-- The StatefulSet has a claim template for the volume. -/
def CarriesTemplate (entry : Entry) (sts : Json) : Prop :=
  ∃ templates, claimTemplates sts = some templates ∧
    (templates.any fun t => t.eqStr entry.volume) = true

/-- What a `get` of these arguments was answered with. -/
def answerOf (kube : Kube) (args : List String) : Event → Option (Option Json)
  | .kubectl base args' _ proc =>
    if base = kube.base ∧ args' = getArgs args then some (proc.bind Proc.answer) else none
  | _ => none

/-- What the `get`s of these arguments in the trace were answered with, in order. -/
def answers (kube : Kube) (args : List String) (t : List Event) : List (Option Json) :=
  t.filterMap (answerOf kube args)

/-- The one read of the StatefulSet found none, or there were two: the first found one and the
second carries the template. -/
def TemplateSeen (kube : Kube) (entry : Entry) (t : List Event) : Prop :=
  answers kube ["statefulset", entry.statefulset] t = [some .null] ∨
    ∃ first sts, answers kube ["statefulset", entry.statefulset] t = [some first, some sts] ∧
      first.isNone = false ∧ CarriesTemplate entry sts

/-- What `finish` has seen before it removes the pause. -/
structure ReadyToUnpause (kube : Kube) (component : String) (entry : Entry) (version : String)
    (t : List Event) : Prop where
  claim : ∃ pvc, Reads kube ["pvc", entry.claim] pvc t ∧ pvc.isNone = false
  version : ∃ listing comp label, Reads kube [compositionResource component] listing t ∧
    compositionOf listing = some comp ∧ versionLabel comp = some label ∧
    label.eqStr (wantedLabel version) = true
  template : TemplateSeen kube entry t

theorem requireClaim_ok {kube : Kube} {entry : Entry} {t : List Event}
    (h : Runs (requireClaim kube entry) (.ok ()) t) :
    ∃ pvc, Reads kube ["pvc", entry.claim] pvc t ∧ pvc.isNone = false := by
  obtain ⟨pvc, t₁, t₂, rfl, h₁, h₂⟩ := runs_bind_ok h
  split at h₂
  · cases (runs_stop h₂).1
  · rename_i hsome
    exact ⟨pvc, (get_reads h₁).mono fun e he => List.mem_append_left _ he, by simpa using hsome⟩

/-- A `get` of something else is no answer. -/
theorem answerOf_get (kube : Kube) (args args' : List String) (proc : Option Proc) :
    answerOf kube args (.kubectl kube.base (getArgs args') none proc) =
      if args' = args then some (proc.bind Proc.answer) else none := by
  simp [answerOf, getArgs]

theorem answers_get (kube : Kube) (args : List String) (proc : Option Proc) :
    answers kube args [.kubectl kube.base (getArgs args) none proc] = [proc.bind Proc.answer] := by
  simp [answers, answerOf_get]

theorem answers_append (kube : Kube) (args : List String) (t u : List Event) :
    answers kube args (t ++ u) = answers kube args t ++ answers kube args u :=
  List.filterMap_append

theorem answers_of_only {α : Type} {kube : Kube} {args : List String} {m : Sh α}
    (hm : Only (fun e => answerOf kube args e = none) m) {r : Except Stop α} {t : List Event}
    (h : Runs m r t) : answers kube args t = [] :=
  List.filterMap_eq_nil_iff.mpr (hm r t h)

theorem requireTemplate_ok {kube : Kube} {entry : Entry} {t : List Event}
    (h : Runs (requireTemplate kube entry) (.ok ()) t) : TemplateSeen kube entry t := by
  obtain ⟨present, t₁, t₂, rfl, h₁, h₂⟩ := runs_bind_ok h
  obtain ⟨p₁, rfl, hp₁⟩ := get_ok h₁
  split at h₂
  · rename_i hnone
    obtain ⟨_, rfl⟩ := runs_pure h₂
    obtain rfl : present = .null := by
      cases present <;> simp_all [Json.isNone]
    refine .inl ?_
    rw [List.append_nil, answers_get, Option.bind_some, hp₁]
  · rename_i hsome
    obtain ⟨sts, t₃, t₄, rfl, h₃, h₄⟩ := runs_bind_ok h₂
    obtain ⟨p₂, rfl, hp₂⟩ := get_ok h₃
    obtain ⟨templates, t₅, t₆, rfl, h₅, h₆⟩ := runs_bind_ok h₄
    obtain ⟨htemplates, rfl⟩ := eval_ok h₅
    split at h₆
    · rename_i hany
      obtain ⟨_, rfl⟩ := runs_pure h₆
      refine .inr ⟨present, sts, ?_, by simpa using hsome, templates, htemplates, hany⟩
      rw [List.append_nil, List.append_nil, answers_append, answers_get, answers_get,
        Option.bind_some, Option.bind_some, hp₁, hp₂]
      rfl
    · cases (runs_stop h₆).1

theorem requireVersion_ok {comp : Json} {version : String} {t : List Event}
    (h : Runs (requireVersion comp version) (.ok ()) t) :
    t = [] ∧ ∃ label, versionLabel comp = some label ∧
      label.eqStr (wantedLabel version) = true := by
  obtain ⟨label, t₁, t₂, rfl, h₁, h₂⟩ := runs_bind_ok h
  obtain ⟨hlabel, rfl⟩ := eval_ok h₁
  split at h₂
  · rename_i heq
    obtain ⟨_, rfl⟩ := runs_pure h₂
    exact ⟨rfl, label, hlabel, heq⟩
  · obtain ⟨_, t₃, t₄, rfl, _, h₄⟩ := runs_bind_ok h₂
    cases (runs_stop h₄).1

/-- The unpause, where it is issued, is one line and one command. -/
theorem unpause_trace {kube : Kube} {component : String} {comp : Json} {r : Except Stop Unit}
    {t : List Event} (h : Runs (unpause kube component comp) r t) {e : Event} (he : e ∈ t)
    (hun : isUnpause e = true) :
    ∃ line args proc, t = [.print line, .kubectl kube.base args none proc] := by
  have hlift := runs_bind_past (D := (isUnpause · = true)) (only_eval _) h he hun
  obtain ⟨isPaused, t₁, t₂, rfl, _, h₁, h₂, he₂⟩ := hlift
  obtain ⟨_, rfl⟩ := eval_ok h₁
  cases isPaused with
  | false =>
    obtain ⟨_, rfl⟩ := runs_pure h₂
    exact absurd he₂ List.not_mem_nil
  | true =>
    obtain ⟨name, t₃, t₄, rfl, _, h₃, h₄, he₄⟩ :=
      runs_bind_past (D := (isUnpause · = true)) (only_eval _) h₂ he₂ hun
    obtain ⟨_, rfl⟩ := eval_ok h₃
    by_cases happly : kube.apply = true
    · cases hn : name.asStr with
      | none =>
        rw [hn] at h₄
        exact absurd hun (only_change (P := fun e => ¬ isUnpause e = true)
          (fun _ => Bool.false_ne_true) (fun _ a ha => by cases ha) _ _ h₄ e he₄)
      | some n =>
        rw [hn] at h₄
        obtain ⟨proc, rfl⟩ := change_trace happly h₄
        exact ⟨_, _, proc, rfl⟩
    · exact absurd hun (only_change (P := fun e => ¬ isUnpause e = true)
        (fun _ => Bool.false_ne_true) (fun h => absurd h happly) _ _ h₄ e he₄)

/-- The unpause comes after every check. -/
theorem finish_unpause {kube : Kube} {component : String} {entry : Entry} {version : String}
    {r : Except Stop Unit} {t : List Event} (h : Runs (finish kube component entry version) r t)
    {pre post : List Event} {e : Event} (hsplit : t = pre ++ e :: post)
    (he : isUnpause e = true) : ReadyToUnpause kube component entry version pre := by
  have hprint : ∀ line, ¬ isUnpause (.print line) = true := fun _ => Bool.false_ne_true
  have hsleep : ∀ n, ¬ isUnpause (.sleep n) = true := fun _ => Bool.false_ne_true
  have hget : ∀ args proc, ¬ isUnpause (.kubectl kube.base (getArgs args) none proc) = true :=
    fun _ _ => Bool.false_ne_true
  have hmem : e ∈ t := hsplit ▸ by simp
  obtain ⟨comp, t₁, u₁, ht₁, q₁, h₁, k₁, hmem₁⟩ :=
    runs_bind_past (D := (isUnpause · = true)) (only_composition hget) h hmem he
  obtain ⟨_, t₂, u₂, rfl, q₂, h₂, k₂, hmem₂⟩ :=
    runs_bind_past (D := (isUnpause · = true)) (only_requireClaim hget) k₁ hmem₁ he
  obtain ⟨_, t₃, u₃, rfl, q₃, h₃, k₃, hmem₃⟩ :=
    runs_bind_past (D := (isUnpause · = true)) (only_requireTemplate hget) k₂ hmem₂ he
  obtain ⟨_, t₄, u₄, rfl, _, h₄, k₄, hmem₄⟩ :=
    runs_bind_past (D := (isUnpause · = true)) (only_requireVersion _ _) k₃ hmem₃ he
  obtain ⟨rfl, label, hlabel, hwanted⟩ := requireVersion_ok h₄
  -- what follows the unpause waits and prints
  have hrest : Only (fun e => ¬ isUnpause e = true) (if kube.apply then (do
      waitFor (entry.pod ++ " Ready on claim " ++ entry.claim) (podReady kube entry) 1800
      print ("finished. " ++ entry.pod ++ " is Ready on claim " ++ entry.claim ++ "."))
    else print ("  PLAN wait for " ++ entry.pod ++ " Ready on claim " ++ entry.claim)) :=
    only_ite
      (fun _ => only_bind (only_waitFor (only_podReady hget) hsleep) fun _ => only_print hprint _)
      fun _ => only_print hprint _
  obtain ⟨line, args, proc, v, rfl, hv⟩ : ∃ line args proc v,
      u₄ = .print line :: .kubectl kube.base args none proc :: v ∧
        ∀ x ∈ v, ¬ isUnpause x = true := by
    rcases runs_bind k₄ with ⟨_, _, herr⟩ | ⟨_, v₁, v₂, rfl, hun, hlast⟩
    · obtain ⟨line, args, proc, rfl⟩ := unpause_trace herr hmem₄ he
      exact ⟨line, args, proc, [], rfl, by simp⟩
    · have hquiet := hrest _ _ hlast
      have hmem' := (List.mem_append.mp hmem₄).resolve_right fun hx => hquiet e hx he
      obtain ⟨line, args, proc, rfl⟩ := unpause_trace hun hmem' he
      exact ⟨line, args, proc, v₂, rfl, hquiet⟩
  have hcut : (t₁ ++ t₂ ++ t₃ ++ [.print line]) ++ .kubectl kube.base args none proc :: v =
      pre ++ e :: post := by
    rw [← hsplit, ht₁]
    simp
  have hfree : ∀ x ∈ t₁ ++ t₂ ++ t₃ ++ [.print line], ¬ isUnpause x = true := by
    intro x hx
    simp only [List.mem_append, List.mem_singleton] at hx
    rcases hx with ((hx | hx) | hx) | rfl
    · exact q₁ x hx
    · exact q₂ x hx
    · exact q₃ x hx
    · exact hprint _
  obtain rfl := (split_unique (D := (isUnpause · = true)) hfree hv hcut he).1
  refine ⟨?_, ?_, ?_⟩
  · obtain ⟨pvc, hreads, hsome⟩ := requireClaim_ok h₂
    exact ⟨pvc, hreads.mono fun x hx => by simp [hx], hsome⟩
  · obtain ⟨listing, hreads, hcomp⟩ := composition_ok h₁
    exact ⟨listing, comp, label, hreads.mono fun x hx => by simp [hx], hcomp, hlabel, hwanted⟩
  · have hcomposition : answers kube ["statefulset", entry.statefulset] t₁ = [] := by
      refine answers_of_only (only_bind (only_get fun proc => ?_) fun _ => ?_) h₁
      · rw [answerOf_get, if_neg (by simp)]
      · exact only_bind (only_eval _) fun _ => only_bind (only_eval _) fun _ =>
          only_ite (fun _ => only_stop _) fun _ => only_eval _
    have hclaim : answers kube ["statefulset", entry.statefulset] t₂ = [] := by
      refine answers_of_only (only_bind (only_get fun proc => ?_) fun _ => ?_) h₂
      · rw [answerOf_get, if_neg (by simp)]
      · exact only_ite (fun _ => only_stop _) fun _ => only_pure _
    have hseen := requireTemplate_ok h₃
    rwa [TemplateSeen, answers_append, answers_append, answers_append, hcomposition, hclaim,
      List.nil_append, List.nil_append, show answers kube _ [.print line] = [] from rfl,
      List.append_nil]

/-! ## Every run -/

/-- `prepare` deletes the StatefulSet only under `--apply` and after every
milestone of a verified copy, in order; without `--apply` both phases only
read; and `finish` removes the pause only after it has seen the claim, the
wanted version label, and a StatefulSet whose only read found none or whose
second read carries the claim template. -/
theorem migration_is_guarded (kube : Kube) (component : String) (entry : Entry)
    (storageClass size version : String) :
    (∀ r t, Runs (prepare kube component entry storageClass size) r t →
      ∀ pre e post, t = pre ++ e :: post → isDelete e = true →
        kube.apply = true ∧ CopyVerified kube component entry storageClass size pre) ∧
    (kube.apply = false → ∀ r t, Runs (prepare kube component entry storageClass size) r t ∨
      Runs (finish kube component entry version) r t → ∀ e ∈ t, isRead e = true) ∧
    (∀ r t, Runs (finish kube component entry version) r t →
      ∀ pre e post, t = pre ++ e :: post → isUnpause e = true →
        ReadyToUnpause kube component entry version pre) := by
  refine ⟨?_, ?_, ?_⟩
  · intro r t h pre e post hsplit he
    exact prepare_delete h hsplit he
  · rintro hplan r t (h | h)
    · exact prepare_plan_reads hplan component entry storageClass size r t h
    · exact finish_plan_reads hplan component entry version r t h
  · intro r t h pre e post hsplit he
    exact finish_unpause h hsplit he

/-! ## Runs on mariadb -/

def mariadbKube : Kube := ⟨"gke", "openstack", true⟩

def mariadbEntry : Entry := ⟨"mariadb", "mariadb-server", "mysql-data"⟩

/-- A command that succeeds without output. -/
def succeeded : Proc := ⟨0, "", "", none⟩

/-- A read answered with a document. -/
def answered (j : Json) : Proc := ⟨0, j.dumps, "", some j⟩

def notFound : Proc := ⟨1, "", "Error from server (NotFound)", none⟩

/-- The mariadb Composition, alone in its listing. -/
def mariadbListing (annotations : List (String × Json)) : Json :=
  .obj [("items", .arr [.obj [("metadata", .obj [("name", .str "mariadb"),
    ("labels", .obj [("krateo.io/composition-version", .str "v0-3-36")]),
    ("annotations", .obj annotations)])]])]

/-- The StatefulSet 0.3.35 shipped. -/
def mariadbStatefulSet (replicas : Int) : Json :=
  .obj [("spec", .obj [("replicas", .num replicas), ("template", .obj [("spec", .obj [
    ("volumes", .arr [.obj [("name", .str "mysql-data"),
      ("hostPath", .obj [("path", .str "/tmp/mysql-data")])]]),
    ("containers", .arr [.obj [("image", .str "mariadb:11")]])])])])]

/-- The StatefulSet 0.3.36 ships. -/
def claimingStatefulSet : Json :=
  .obj [("spec", .obj [("volumeClaimTemplates",
    .arr [.obj [("metadata", .obj [("name", .str "mysql-data")])]])])]

/-- A helper pod that succeeds with this log. -/
def helperProcs (log : String) : List Proc :=
  let done := answered (.obj [("status", .obj [("phase", .str "Succeeded")])])
  [succeeded, succeeded, done, done, ⟨0, log, "", none⟩, succeeded]

/-- A cluster on which `prepare --apply` goes through. -/
def mariadbSupply : Supply where
  procs :=
    [answered (mariadbListing []), answered (mariadbStatefulSet 1),
      answered (.obj [("spec", .obj [("nodeName", .str "node-1")])]), succeeded, succeeded,
      notFound, answered (mariadbStatefulSet 0)]
    ++ helperProcs "src.files=3\nsrc.bytes=10\n" ++ [notFound, succeeded]
    ++ helperProcs "dst.files=4\ndst.bytes=10\n" ++ [succeeded]
  clock := [0, 0, 1, 1, 2, 2]

/-- The run ends with the delete, and the delete with a verified copy before
it. -/
theorem mariadb_deleted_after_copy :
    ∃ t pre e post, Runs (prepare mariadbKube "mariadb" mariadbEntry "" "20Gi") (.ok ()) t ∧
      t = pre ++ e :: post ∧ isDelete e = true ∧
      CopyVerified mariadbKube "mariadb" mariadbEntry "" "20Gi" pre := by
  have hrun : (prepare mariadbKube "mariadb" mariadbEntry "" "20Gi" mariadbSupply).1 = .ok () := rfl
  have hany : (prepare mariadbKube "mariadb" mariadbEntry "" "20Gi" mariadbSupply).2.1.any
      isDelete = true := rfl
  obtain ⟨e, hmem, he⟩ := List.any_eq_true.mp hany
  obtain ⟨pre, post, hsplit⟩ := List.append_of_mem hmem
  have hruns : Runs (prepare mariadbKube "mariadb" mariadbEntry "" "20Gi") (.ok ())
      (prepare mariadbKube "mariadb" mariadbEntry "" "20Gi" mariadbSupply).2.1 :=
    ⟨mariadbSupply, _, Prod.ext hrun rfl⟩
  exact ⟨_, pre, e, post, hruns, hsplit, he,
    ((migration_is_guarded mariadbKube "mariadb" mariadbEntry "" "20Gi" "0.3.36").1 _ _ hruns
      pre e post hsplit he).2⟩

/-- Every StatefulSet that `finish` reads before it removes the pause carries
the claim template. -/
def UnpausesOnlyClaimed (kube : Kube) (component : String) (entry : Entry) (version : String) :
    Prop :=
  ∀ r t, Runs (finish kube component entry version) r t → ∀ pre e post, t = pre ++ e :: post →
    isUnpause e = true → ∀ sts, Reads kube ["statefulset", entry.statefulset] sts pre →
      sts.isNone = false → CarriesTemplate entry sts

/-- The StatefulSet is replaced between the two reads: the first one carries no
template and the pause is removed all the same. -/
theorem unpauses_past_first_read :
    ¬ UnpausesOnlyClaimed mariadbKube "mariadb" mariadbEntry "0.3.36" := by
  let listing := answered (mariadbListing [( pauseAnnotation, .str "true")])
  let claim := answered (.obj [("kind", .str "PersistentVolumeClaim")])
  let before := answered (mariadbStatefulSet 1)
  let supply : Supply := ⟨[listing, claim, before, answered claimingStatefulSet, succeeded], []⟩
  have hrun : Runs (finish mariadbKube "mariadb" mariadbEntry "0.3.36") (.error .killed)
      ([.kubectl mariadbKube.base (getArgs ["mariadbs.composition.krateo.io"]) none (some listing),
        .kubectl mariadbKube.base (getArgs ["pvc", mariadbEntry.claim]) none (some claim),
        .kubectl mariadbKube.base (getArgs ["statefulset", "mariadb-server"]) none (some before),
        .kubectl mariadbKube.base (getArgs ["statefulset", "mariadb-server"]) none
          (some (answered claimingStatefulSet)),
        .print "  DO   unpause Composition mariadb"] ++
        .kubectl mariadbKube.base ["annotate", "mariadbs.composition.krateo.io", "mariadb",
          "krateo.io/paused-"] none (some succeeded) :: []) :=
    ⟨supply, ⟨[], []⟩, rfl⟩
  intro h
  obtain ⟨templates, htemplates, hany⟩ := h _ _ hrun _ _ _ rfl rfl (mariadbStatefulSet 1)
    ⟨before, by simp [mariadbEntry], rfl⟩ rfl
  have hnone : claimTemplates (mariadbStatefulSet 1) = some [] := rfl
  rw [hnone] at htemplates
  cases htemplates
  exact absurd hany (by decide)

end OpenstackBlueprint.Theorems.MigrateOrder
