import OpenstackBlueprint.Kit.Dict
import OpenstackBlueprint.Kit.Python
import OpenstackBlueprint.Kit.Text

/-!
# The config-file gate

`validate-config-file-refs.py` takes the paths that the start scripts of a
rendered chart name, and asks of each whether the container that reads it is
given the file. `delivered` says which files a container is given by its
ConfigMap and Secret volumes.

Texts are searched for paths with regular expressions; `flagRefs` and `wsgiRefs`
are `FLAG_RE.findall` and `WSGI_RE.findall`, and `decode` is base64 and UTF-8 with
`none` for an exception.
-/

namespace OpenstackBlueprint.Gates.ConfigFiles

open Kit

/-! ## The render -/

/-- What a volume takes its files from. -/
inductive SourceKind
  | configMap
  | secret
  deriving DecidableEq

/-- A rendered ConfigMap or Secret. `moreKeys` are the keys of `binaryData` or
`stringData`, which the gate does not read. -/
structure SourceDoc where
  kind : SourceKind
  name : String
  data : Dict String String
  moreKeys : List String

/-- An entry of a volume's `items`. -/
structure Item where
  key : String
  path : String

/-- A ConfigMap or Secret with the `items` taken from it, none for all, or another
kind of volume. -/
inductive Source
  | object (kind : SourceKind) (name : String) (items : List Item)
  | other

structure Volume where
  name : String
  source : Source

/-- A mount; an absent `subPath` is empty. -/
structure VolumeMount where
  name : String
  mountPath : String
  subPath : String

structure Container where
  name : String
  command : List String
  volumeMounts : List VolumeMount

structure PodSpec where
  volumes : List Volume
  initContainers : List Container
  containers : List Container

/-- A rendered object. -/
inductive Doc
  | source (d : SourceDoc)
  | workload (kind name : String) (spec : PodSpec)
  | other (kind : String)

/-- The ConfigMaps and Secrets of a render. -/
def sources (docs : List Doc) : List SourceDoc :=
  docs.filterMap fun
    | .source d => some d
    | _ => none

/-- `workloads(docs)`. -/
def workloads (docs : List Doc) : List (String × String × PodSpec × Container) :=
  docs.flatMap fun
    | .workload kind name spec =>
      (spec.initContainers ++ spec.containers).map fun c => (kind, name, spec, c)
    | _ => []

/-! ## payloads -/

/-- The texts of one object. -/
def body (decode : String → Option String) (d : SourceDoc) : Dict String String :=
  Dict.ofList (d.data.entries.filterMap fun e =>
    match d.kind with
    | .configMap => some e
    | .secret => (decode e.2).map fun text => (e.1, text))

/-- Name to key to text. -/
abbrev Payloads := Dict String (Dict String String)

/-- `payloads(docs)`: one table for ConfigMaps and Secrets. -/
def payloads (decode : String → Option String) (docs : List Doc) : Payloads :=
  Dict.ofList ((sources docs).map fun d => (d.name, body decode d))

/-! ## delivered -/

/-- What the volume of a mount is filled from. -/
def sourceOf (spec : PodSpec) (m : VolumeMount) : Source :=
  (((Dict.ofList (spec.volumes.map fun v => (v.name, v))).get? m.name).map Volume.source).getD .other

/-- `src_name`. -/
def Source.name : Source → Option String
  | object _ name _ => if name = "" then none else some name
  | other => none

/-- `keys`: the keys of the items, or those of the payload. -/
def Source.keys (cms : Payloads) : Source → List String
  | object _ name items =>
    if items.isEmpty then ((cms.get? name).map Dict.keys).getD []
    else (items.map Item.key).filter (· ≠ "")
  | other => []

/-- The files of one mount. -/
def mountFiles (cms : Payloads) (spec : PodSpec) (m : VolumeMount) : List String :=
  let mp := rstripSlash m.mountPath
  let src := sourceOf spec m
  if mp = "" ∨ src.name = none then []
  else if m.subPath ≠ "" then if m.subPath ∈ src.keys cms then [mp] else []
  else (src.keys cms).map fun k => mp ++ "/" ++ k

/-- The directory a mount of unknown contents gives. -/
def mountDir (spec : PodSpec) (m : VolumeMount) : Option String :=
  let mp := rstripSlash m.mountPath
  if mp ≠ "" ∧ (sourceOf spec m).name = none then some mp else none

/-- `delivered(spec, container, cms)`: the files and the opaque directories. -/
def delivered (spec : PodSpec) (container : Container) (cms : Payloads) :
    List String × List String :=
  (container.volumeMounts.flatMap (mountFiles cms spec),
    container.volumeMounts.filterMap (mountDir spec))

/-! ## The references of a container -/

/-- `covered(path, files, opaque)`. -/
def covered (path : String) (given : List String × List String) : Bool :=
  given.1.contains (rstripSlash path) || given.2.contains (rstripSlash path)

/-- `script_for(container, cms)`. -/
def scriptFor (container : Container) (cms : Payloads) : List String :=
  (container.command.filter (startsWith "/" ·)).flatMap fun token =>
    cms.values.filterMap fun texts => texts.get? (basename token)

/-- `written_in_pod(path, spec, cms)`. -/
def writtenInPod (path : String) (spec : PodSpec) (cms : Payloads) : Bool :=
  (spec.initContainers ++ spec.containers).any fun c =>
    (scriptFor c cms).any fun text => (splitLines text).any fun line =>
      hasSubstring path line && !hasSubstring "--config-file" line &&
        !hasSubstring "--config-dir" line && !hasSubstring "--log-config-append" line

/-- `refs`: the paths in the start script and in the uwsgi files that are mounted. -/
def refs (flagRefs wsgiRefs : String → List String) (container : Container) (cms : Payloads) :
    List String :=
  sortAlpha (uniq ((scriptFor container cms).flatMap flagRefs ++
    (container.volumeMounts.filter fun m => endsWith ".ini" m.subPath).flatMap fun m =>
      (cms.values.filterMap fun texts => texts.get? m.subPath).flatMap wsgiRefs))

/-- What the loop over the references accepts. -/
def accepted (allowed : List (String × String)) (c : String) (spec : PodSpec) (cms : Payloads)
    (given : List String × List String) (r : String) : Bool :=
  covered r given ||
    ((given.2.any fun d => startsWith (d ++ "/") r) && writtenInPod r spec cms) ||
    allowed.contains (c, r)

/-- The problems of a chart. -/
def problems (flagRefs wsgiRefs : String → List String) (decode : String → Option String)
    (allowed : List (String × String)) (c : String) (docs : List Doc) : List String :=
  let cms := payloads decode docs
  (workloads docs).flatMap fun (kind, wname, spec, container) =>
    ((refs flagRefs wsgiRefs container cms).filter fun r =>
      !accepted allowed c spec cms (delivered spec container cms) r).map fun r =>
        c ++ ": " ++ kind ++ "/" ++ wname ++ " container " ++ container.name ++ " reads " ++ r ++
          ", which the chart does not deliver"

end OpenstackBlueprint.Gates.ConfigFiles
