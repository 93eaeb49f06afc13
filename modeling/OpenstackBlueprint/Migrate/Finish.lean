import OpenstackBlueprint.Migrate.Prepare

/-!
# `finish`

After the upgrade: check the claim, the StatefulSet and the Composition's
version label, remove the pause, and wait for the pod to be Ready on the claim.
The StatefulSet is read twice: the first read only asks whether there is one.
-/

namespace OpenstackBlueprint.Migrate

open Kit Kit.Script

/-- The claim has to exist. -/
def requireClaim (kube : Kube) (entry : Entry) : Sh Unit := do
  let pvc ← kube.get ["pvc", entry.claim]
  if pvc.isNone then
    refuse ("claim " ++ entry.claim ++ " does not exist: run prepare first")
  else
    return ()

/-- A StatefulSet, where there is one, has to claim the volume. -/
def requireTemplate (kube : Kube) (entry : Entry) : Sh Unit := do
  let present ← kube.get ["statefulset", entry.statefulset]
  if present.isNone then
    return ()
  else
    -- the answer that is judged is the second one
    let sts ← kube.get ["statefulset", entry.statefulset]
    let templates ← eval (claimTemplates sts)
    if templates.any fun t => t.eqStr entry.volume then
      return ()
    else
      refuse (entry.statefulset ++ " exists again without a claim template: something recreated " ++
        "it from the old chart while it was meant to be paused")

/-- `(comp["metadata"].get("labels") or {}).get("krateo.io/composition-version")`. -/
def versionLabel (comp : Json) : Option Json := do
  let labels ← (← comp.index "metadata").get "labels"
  (labels.orElse (.obj [])).get "krateo.io/composition-version"

/-- `"v" + version.replace(".", "-")`. -/
def wantedLabel (version : String) : String :=
  "v" ++ String.ofList (version.toList.map fun c => if c == '.' then '-' else c)

/-- The Composition has to be at the wanted version. -/
def requireVersion (comp : Json) (version : String) : Sh Unit := do
  let label ← eval (versionLabel comp)
  if label.eqStr (wantedLabel version) then
    return ()
  else
    let name ← eval (metadataName comp)
    refuse ("Composition " ++ name.pyStr ++ " is labelled " ++ label.pyStr ++ ", not " ++
      wantedLabel version ++ ". " ++
      "Apply the new CompositionDefinition first. If it is applied and this " ++
      "stays, its definition does not approve migration (upgradePolicy Paused, " ++
      "or Manual without krateo.io/upgrade-to-version), so this component will " ++
      "keep the old chart and its node path: see the README.")

/-- Remove the pause annotation from a paused Composition. -/
def unpause (kube : Kube) (component : String) (comp : Json) : Sh Unit := do
  if ← eval (paused comp) then
    let name ← eval (metadataName comp)
    kube.change ("unpause Composition " ++ name.pyStr)
      (name.asStr.map fun n =>
        ["annotate", compositionResource component, n, pauseAnnotation ++ "-"])
      none
  else
    return ()

/-- `[v["persistentVolumeClaim"]["claimName"] for v in p["spec"].get("volumes") or []
if "persistentVolumeClaim" in v]`. -/
def podClaims (p : Json) : Option (List Json) := do
  let volumes ← (← p.index "spec").get "volumes"
  ((← (volumes.orElse (.arr [])).elems).filter fun v => v.hasKey "persistentVolumeClaim").mapM
    fun v => do (← v.index "persistentVolumeClaim").index "claimName"

/-- `{c["type"]: c["status"] for c in p["status"].get("conditions") or []}`, as
the status of type Ready: the last one counts. -/
def readyStatus (p : Json) : Option (Option Json) := do
  let conditions ← (← p.index "status").get "conditions"
  (← (conditions.orElse (.arr [])).elems).foldlM (fun status c => do
    let type ← c.index "type"
    let value ← c.index "status"
    return if type.eqStr "Ready" then some value else status) none

/-- `ready` of `finish`. -/
def podReady (kube : Kube) (entry : Entry) : Sh Bool := do
  let p ← kube.get ["pod", entry.pod]
  if p.truthy then
    let claims ← eval (podClaims p)
    let status ← eval (readyStatus p)
    return (claims.any fun c => c.eqStr entry.claim) && status.any fun s => s.eqStr "True"
  else
    return false

/-- `finish`. -/
def finish (kube : Kube) (component : String) (entry : Entry) (version : String) : Sh Unit := do
  let comp ← composition kube component
  requireClaim kube entry
  requireTemplate kube entry
  requireVersion comp version
  unpause kube component comp
  if kube.apply then
    waitFor (entry.pod ++ " Ready on claim " ++ entry.claim) (podReady kube entry) 1800
    print ("finished. " ++ entry.pod ++ " is Ready on claim " ++ entry.claim ++ ".")
  else
    print ("  PLAN wait for " ++ entry.pod ++ " Ready on claim " ++ entry.claim)

/-! ## `main` -/

inductive Phase
  | prepare
  | finish
  deriving DecidableEq, Repr

/-- `main`, after its arguments are parsed. -/
def main (durable : List Entry) (phase : Phase) (kube : Kube)
    (component storageClass size version : String) : Sh Unit := do
  let entry ← entryFor durable component
  match phase with
  | .prepare => prepare kube component entry storageClass size
  | .finish => finish kube component entry version

end OpenstackBlueprint.Migrate
