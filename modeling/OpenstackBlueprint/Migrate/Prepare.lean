import OpenstackBlueprint.Migrate.Kube

/-!
# `prepare`

Pause the Composition, stop the StatefulSet, prove that the node path holds
state, copy it into a claim, compare, and delete the StatefulSet. The function
is cut at its own paragraphs: the entry checks (`entryChecks`), stopping the
server (`pauseComposition`, `scaleToZero`, `holdAtZero`), and what only `--apply`
reaches (`measureSource`, `ensureClaim`, `copyState`, `compareInventories`).
-/

namespace OpenstackBlueprint.Migrate

open Kit Kit.Script

/-! ## Entries and claims -/

/-- An entry of hack/durable-state.yaml. -/
structure Entry where
  component : String
  statefulset : String
  volume : String

/-- `entry_for`, over the `durable` list of the listing. -/
def entryFor (durable : List Entry) (component : String) : Sh Entry :=
  match durable.find? fun e => e.component == component with
  | some e => pure e
  | none => refuse (component ++ " is not listed in hack/durable-state.yaml")

/-- `claim = f"{volume}-{name}-0"`. -/
def Entry.claim (entry : Entry) : String := entry.volume ++ "-" ++ entry.statefulset ++ "-0"

/-- The pod of the StatefulSet, `f"{name}-0"`. -/
def Entry.pod (entry : Entry) : String := entry.statefulset ++ "-0"

/-- `MARKERS[component]`. -/
def markers (component : String) : Option String :=
  if component == "mariadb" then some "grastate.dat"
  else if component == "rabbitmq" then some "mnesia"
  else none

/-! ## Helper pods -/

/-- The arguments of `helper_pod`. -/
structure HelperPod where
  name : String
  node : Json
  image : Json
  volumes : List Json
  mounts : List Json
  script : String

/-- `helper_pod`: pinned to the node by affinity. -/
def HelperPod.json (pod : HelperPod) : Json :=
  .obj [
    ("apiVersion", .str "v1"),
    ("kind", .str "Pod"),
    ("metadata", .obj [
      ("name", .str pod.name),
      ("labels", .obj [("app.kubernetes.io/managed-by", .str "migrate-to-pvc")])]),
    ("spec", .obj [
      ("restartPolicy", .str "Never"),
      ("affinity", .obj [("nodeAffinity", .obj [
        ("requiredDuringSchedulingIgnoredDuringExecution", .obj [
          ("nodeSelectorTerms", .arr [.obj [("matchExpressions", .arr [.obj [
            ("key", .str "kubernetes.io/hostname"),
            ("operator", .str "In"),
            ("values", .arr [pod.node])]])]])])])]),
      ("tolerations", .arr [.obj [("operator", .str "Exists")]]),
      ("containers", .arr [.obj [
        ("name", .str "copy"),
        ("image", pod.image),
        ("command", .arr [.str "/bin/sh", .str "-ec", .str pod.script]),
        ("securityContext", .obj [("runAsUser", .num 0)]),
        ("volumeMounts", .arr pod.mounts)]]),
      ("volumes", .arr pod.volumes)])]

/-- `done` of `run_helper`. -/
def podDone (kube : Kube) (name : String) : Sh Bool := do
  let p ← kube.get ["pod", name]
  if p.truthy then
    let phase ← eval (do (← p.index "status").get "phase")
    return phase.eqStr "Succeeded" || phase.eqStr "Failed"
  else
    return false

/-- `run_helper`: the log of a pod that ended Succeeded. -/
def runHelper (kube : Kube) (pod : HelperPod) (timeout : Nat) : Sh String := do
  let _ ← kube.run ["delete", "pod", pod.name, "--ignore-not-found", "--wait=true"] none true
  let _ ← kube.run ["apply", "-f", "-"] (some pod.json.dumps) true
  waitFor ("pod " ++ pod.name) (podDone kube pod.name) timeout
  let p ← kube.get ["pod", pod.name]
  let phase ← eval (do (← p.index "status").index "phase")
  let log ← kube.run ["logs", pod.name] none false
  let _ ← kube.run ["delete", "pod", pod.name, "--wait=true"] none true
  if phase.eqStr "Succeeded" then
    return log.stdout
  else
    refuse ("pod " ++ pod.name ++ " ended " ++ phase.pyStr ++ ":\n" ++ log.stdout)

/-- `INVENTORY.format(d=d, p=p)`. -/
def inventory (d p : String) : String :=
  "printf '" ++ p ++ "files=%s\\n' \"$(find " ++ d ++ " -mindepth 1 | wc -l)\"; " ++
  "printf '" ++ p ++ "bytes=%s\\n' \"$(find " ++ d ++ " -type f -exec cat \x7b\x7d + | wc -c)\""

/-- `parse_inventory`. -/
def parseInventory (text pre : String) : Option (Dict String Int) :=
  (splitLines text).foldlM (fun out line =>
    if startsWith pre line then
      let (k, v) := partition '=' (String.ofList (line.toList.drop pre.length))
      (pyInt (strip v)).map (out.set k)
    else some out) Dict.empty

/-- An inventory as an f-string writes it. -/
def inventoryText (d : Dict String Int) : String :=
  (Json.obj (d.entries.map fun e => (e.1, .num e.2))).pyStr

/-! ## The entry checks -/

/-- `[t["metadata"]["name"] for t in sts["spec"].get("volumeClaimTemplates") or []]`. -/
def claimTemplates (sts : Json) : Option (List Json) := do
  let templates ← (← sts.index "spec").get "volumeClaimTemplates"
  (← (templates.orElse (.arr [])).elems).mapM metadataName

/-- `next((v for v in volumes if v["name"] == volume), None)`. -/
def findVolume (volume : String) : List Json → Option (Option Json)
  | [] => some none
  | v :: rest => do
    if (← v.index "name").eqStr volume then some (some v) else findVolume volume rest

/-- `sts["spec"]["template"]["spec"]`. -/
def podSpec (sts : Json) : Option Json := do
  (← (← sts.index "spec").index "template").index "spec"

/-- The volume of the StatefulSet's pod template, `source`. -/
def sourceVolume (volume : String) (sts : Json) : Option (Option Json) := do
  let volumes ← (← podSpec sts).get "volumes"
  findVolume volume (← (volumes.orElse (.arr [])).elems)

/-- The refusal of a replica count other than 1. -/
def replicasText (entry : Entry) (replicas : Json) : String :=
  entry.statefulset ++ " has " ++ replicas.pyStr ++ " replicas, so its state is on " ++
    replicas.pyStr ++ " nodes; this script moves one"

/-- The checks on the StatefulSet alone, up to the replica count. `none` when
it already claims the volume; otherwise the node path. -/
def statefulSetChecks (entry : Entry) (sts : Json) : Sh (Option Json) := do
  let templates ← eval (claimTemplates sts)
  if templates.any fun t => t.eqStr entry.volume then
    print (entry.statefulset ++ " already claims " ++ entry.volume ++ ": nothing to migrate")
    return none
  else
    let source ← eval (sourceVolume entry.volume sts)
    if source.any fun v => v.hasKey "hostPath" then
      let path ← eval (do (← (← source).index "hostPath").index "path")
      let replicas ← eval (do (← sts.index "spec").getD "replicas" (.num 1))
      if replicas.eqInt 1 then
        return some path
      else
        refuse (replicasText entry replicas)
    else
      refuse (entry.statefulset ++ " volume " ++ entry.volume ++ " is not a hostPath (" ++
        (source.getD .null).pyStr ++ "); this script moves only the shape 0.3.35 shipped")

/-- What the entry checks found. -/
structure Found where
  comp : Json
  path : Json
  node : Json
  image : Json

/-- `prepare` up to its first change. -/
def entryChecks (kube : Kube) (component : String) (entry : Entry) : Sh (Option Found) := do
  let comp ← composition kube component
  let sts ← kube.get ["statefulset", entry.statefulset]
  if sts.isNone then
    -- gone: prepared before, or never there
    let pvc ← kube.get ["pvc", entry.claim]
    if pvc.truthy then
      refuse ("StatefulSet " ++ entry.statefulset ++ " is gone and claim " ++ entry.claim ++
        " exists: prepare has already run. Upgrade, then run finish.")
    else
      refuse ("StatefulSet " ++ entry.statefulset ++ " does not exist and there is no claim " ++
        entry.claim)
  else
    match ← statefulSetChecks entry sts with
    | none => return none
    | some path =>
      let pod ← kube.get ["pod", entry.pod]
      let node ← eval (do (← (pod.orElse (.obj [])).getD "spec" (.obj [])).get "nodeName")
      if node.truthy then
        let image ← eval (do (← (← (← podSpec sts).index "containers").first).index "image")
        print (component ++ ": " ++ entry.statefulset ++ " keeps " ++ path.pyStr ++ " on node " ++
          node.pyStr ++ "; target claim " ++ entry.claim)
        return some ⟨comp, path, node, image⟩
      else
        refuse ("pod " ++ entry.pod ++ " is not scheduled, so the node holding " ++ path.pyStr ++
          " is unknown")

/-! ## Stopping the server -/

/-- Pause the Composition unless it was read as paused. -/
def pauseComposition (kube : Kube) (component : String) (comp : Json) : Sh Unit := do
  if ← eval (paused comp) then
    return ()
  else
    let name ← eval (metadataName comp)
    kube.change ("pause Composition " ++ name.pyStr ++ " (" ++ pauseAnnotation ++ ")")
      (name.asStr.map fun n =>
        ["annotate", compositionResource component, n, pauseAnnotation ++ "=true", "--overwrite"])
      none

/-- Scale the StatefulSet to 0. -/
def scaleToZero (kube : Kube) (entry : Entry) : Sh Unit :=
  kube.change ("scale " ++ entry.statefulset ++ " to 0")
    (some ["scale", "statefulset", entry.statefulset, "--replicas=0"]) none

/-- Wait for the pod to stop. -/
def awaitStopped (kube : Kube) (entry : Entry) : Sh Unit :=
  waitFor ("pod " ++ entry.pod ++ " to stop")
    (do return (← kube.get ["pod", entry.pod]).isNone) 600

/-- Wait past one resync, and refuse if something scaled the StatefulSet back. -/
def holdAtZero (kube : Kube) (entry : Entry) : Sh Unit := do
  sleep resyncGuard
  let sts ← kube.get ["statefulset", entry.statefulset]
  let held ← eval (do (← sts.index "spec").get "replicas")
  if held.eqInt 0 then
    return ()
  else
    refuse (entry.statefulset ++ " was scaled back to " ++ held.pyStr ++
      " while paused: something is still reconciling it, so the copy would race a running server")

/-! ## Probe, claim, copy -/

/-- `probe_volumes`. -/
def probeVolumes (path : Json) : List Json :=
  [.obj [("name", .str "src"),
    ("hostPath", .obj [("path", path), ("type", .str "Directory")])]]

/-- `probe_mounts`: the node path is mounted read-only. -/
def probeMounts : List Json :=
  [.obj [("name", .str "src"), ("mountPath", .str "/src"), ("readOnly", .bool true)]]

/-- `probe`. -/
def probePod (entry : Entry) (marker : String) (found : Found) : HelperPod where
  name := entry.statefulset ++ "-migrate-probe"
  node := found.node
  image := found.image
  volumes := probeVolumes found.path
  mounts := probeMounts
  script := "test -e /src/" ++ marker ++ " || \x7b echo 'no " ++ marker ++ " in " ++
    found.path.pyStr ++ "'; exit 3; \x7d; " ++ inventory "/src" "src."

/-- `copy`. -/
def copyPod (entry : Entry) (found : Found) : HelperPod where
  name := entry.statefulset ++ "-migrate-copy"
  node := found.node
  image := found.image
  volumes := probeVolumes found.path ++ [.obj [("name", .str "dst"),
    ("persistentVolumeClaim", .obj [("claimName", .str entry.claim)])]]
  mounts := probeMounts ++ [.obj [("name", .str "dst"), ("mountPath", .str "/dst")]]
  script := "if [ -n \"$(ls -A /dst | grep -v '^lost+found$')\" ]; then " ++
    "echo 'claim is not empty: a previous copy stopped part way. Delete the claim, " ++
    "then run prepare again'; exit 4; fi; " ++
    "cp -a /src/. /dst/; sync; " ++ inventory "/dst" "dst."

/-- `pvc`. -/
def claimDoc (entry : Entry) (storageClass size : String) : Json :=
  .obj [
    ("apiVersion", .str "v1"),
    ("kind", .str "PersistentVolumeClaim"),
    ("metadata", .obj [
      ("name", .str entry.claim),
      ("labels", .obj [("app.kubernetes.io/managed-by", .str "migrate-to-pvc")])]),
    ("spec", .obj ([
      ("accessModes", .arr [.str "ReadWriteOnce"]),
      ("resources", .obj [("requests", .obj [("storage", .str size)])])] ++
      if storageClass == "" then [] else [("storageClassName", .str storageClass)]))]

/-- The text a refusal of the probe is raised again with. -/
def noStateText (component : String) (entry : Entry) (message : String) : String :=
  message ++ "\nThe node path holds no " ++ component ++ " state, so there is nothing to " ++
    "migrate: this install lost its data before this script ran. The " ++
    "Composition is left paused and " ++ entry.statefulset ++ " at 0."

/-- Run the probe and read its inventory; a refusal is raised again with a
text. -/
def measureSource (kube : Kube) (component : String) (entry : Entry) (marker : String)
    (found : Found) : Sh (Dict String Int) :=
  mapStop
    (fun s => match s with
      | .refusal message => .refusal (noStateText component entry message)
      | s => s)
    (do
      let log ← runHelper kube (probePod entry marker found) 600
      eval (parseInventory log "src."))

/-- Create the claim unless it exists. -/
def ensureClaim (kube : Kube) (entry : Entry) (storageClass size : String) : Sh Unit := do
  let pvc ← kube.get ["pvc", entry.claim]
  if pvc.isNone then
    kube.change ("create claim " ++ entry.claim) (some ["apply", "-f", "-"])
      (some (claimDoc entry storageClass size).dumps)
  else
    return ()

/-- Run the copy and read its inventory. -/
def copyState (kube : Kube) (entry : Entry) (found : Found) : Sh (Dict String Int) := do
  print ("  DO   copy " ++ found.path.pyStr ++ " into " ++ entry.claim)
  let log ← runHelper kube (copyPod entry found) copyPodTimeout
  eval (parseInventory log "dst.")

/-- `lost_found`. -/
def lostFound (dstFiles srcFiles : Int) : Int := if dstFiles == srcFiles + 1 then 1 else 0

/-- Refuse unless the counts agree, up to one entry for `lost+found`. -/
def compareInventories (src dst : Dict String Int) (srcFiles srcBytes : Int) : Sh Unit := do
  let differs := "copy differs: source " ++ inventoryText src ++ ", claim " ++ inventoryText dst ++
    ". The StatefulSet is kept, at 0, and the Composition paused, so nothing has been lost."
  let dstFiles ← eval (dst.get? "files")
  -- `or` stops at the first difference, so the bytes are read only after the files
  if dstFiles - lostFound dstFiles srcFiles == srcFiles then
    let dstBytes ← eval (dst.get? "bytes")
    if dstBytes == srcBytes then
      print ("  OK   claim matches: " ++ toString (dstFiles - lostFound dstFiles srcFiles) ++
        " entries, " ++ toString dstBytes ++ " bytes")
    else
      refuse differs
  else
    refuse differs

/-! ## `prepare` -/

/-- What `prepare` prints where `--apply` is not given. -/
def printPlan (entry : Entry) (storageClass size marker : String) (found : Found) : Sh Unit := do
  print ("  PLAN prove " ++ found.path.pyStr ++ " on " ++ found.node.pyStr ++ " holds " ++ marker ++
    ", and count its files and bytes")
  print ("  PLAN create claim " ++ entry.claim ++ " (" ++ size ++ ", class " ++
    (if storageClass == "" then "cluster default" else storageClass) ++ ")")
  print ("  PLAN copy " ++ found.path.pyStr ++ " into " ++ entry.claim ++ " on " ++
    found.node.pyStr ++ ", and compare counts")
  print ("  PLAN delete StatefulSet " ++ entry.statefulset ++ "; leave " ++ found.path.pyStr ++
    " on " ++ found.node.pyStr ++ " in place")

/-- The last step: delete the StatefulSet. -/
def deleteStatefulSet (kube : Kube) (entry : Entry) (found : Found) : Sh Unit := do
  kube.change ("delete StatefulSet " ++ entry.statefulset ++ ", keeping claim " ++ entry.claim)
    (some ["delete", "statefulset", entry.statefulset, "--wait=true"]) none
  print ("prepared. " ++ found.path.pyStr ++ " stays on " ++ found.node.pyStr ++
    " until you delete it. Now apply the 0.3.36 CompositionDefinition, then run finish.")

/-- The copy, from the probe to the comparison. -/
def verifiedCopy (kube : Kube) (component : String) (entry : Entry)
    (storageClass size marker : String) (found : Found) : Sh Unit := do
  let src ← measureSource kube component entry marker found
  let srcFiles ← eval (src.get? "files")
  let srcBytes ← eval (src.get? "bytes")
  print ("  OK   " ++ found.path.pyStr ++ " holds " ++ marker ++ ": " ++ toString srcFiles ++
    " entries, " ++ toString srcBytes ++ " bytes")
  ensureClaim kube entry storageClass size
  let dst ← copyState kube entry found
  compareInventories src dst srcFiles srcBytes

/-- `prepare`. -/
def prepare (kube : Kube) (component : String) (entry : Entry) (storageClass size : String) :
    Sh Unit := do
  let marker ← eval (markers component)
  match ← entryChecks kube component entry with
  | none => return ()
  | some found =>
    pauseComposition kube component found.comp
    scaleToZero kube entry
    if kube.apply then
      awaitStopped kube entry
      holdAtZero kube entry
      verifiedCopy kube component entry storageClass size marker found
      deleteStatefulSet kube entry found
    else
      printPlan entry storageClass size marker found

end OpenstackBlueprint.Migrate
