import OpenstackBlueprint.HelmToolkit.Dependencies
import OpenstackBlueprint.Kit.Python

/-!
# The environment of an init container, and the roles of its service account

What the two snippets write for the dependencies of a component. The init container
gets them as comma separated lists in its environment, services as
`namespace:name`. The service account gets a role in every namespace it waits in, with
the kinds of objects it has to read there.

`validate-readiness-deadlock.py` reads the environment back with `entrypoint_waits`.
Pods and custom resources travel as JSON; that text is a parameter here and is not
read back.
-/

namespace OpenstackBlueprint.HelmToolkit

open OpenstackBlueprint.Kit

/-- An entry of `endpoints`. A value that is null is missing; `service` is the name in the map of
that key, which may be empty. -/
structure Endpoint where
  inNamespace : Option String
  hosts : Dict String String
  service : Option String

/-- What the templates read besides the dependencies: the release, `endpoints`, and the fields and
the texts of the maps in lists. -/
structure Context (F : Type) where
  releaseNamespace : String
  endpoints : Dict String Endpoint
  service : F → String
  endpoint : F → String
  print : F → String
  toJson : List (Item F) → String

variable {F : Type}

/-! ## Service names -/

/-- Groups of digits with dots between them, at the start; `n` more groups follow the first. -/
def dotted : Nat → List Char → Bool
  | 0, cs => !(cs.takeWhile Char.isDigit).isEmpty
  | n + 1, cs =>
    !(cs.takeWhile Char.isDigit).isEmpty &&
      match cs.dropWhile Char.isDigit with
      | '.' :: rest => dotted n rest
      | _ => false

/-- `regexMatch "[0-9]+\\.[0-9]+\\.[0-9]+\\.[0-9]+" s`. -/
def looksLikeAddress (s : String) : Bool := s.toList.tails.any (dotted 3)

/-- `index .hosts endpoint | default .hosts.default`. -/
def Endpoint.host (ep : Endpoint) (endpoint : String) : Option String :=
  match ep.hosts.get? endpoint with
  | some host => if host = "" then ep.hosts.get? "default" else some host
  | none => ep.hosts.get? "default"

namespace Context

variable (ctx : Context F)

/-- `.namespace | default .Release.Namespace`. -/
def namespaceOf (ep : Endpoint) : String :=
  match ep.inNamespace with
  | some ns => orDefault ctx.releaseNamespace ns
  | none => ctx.releaseNamespace

/-- `service_name_endpoint_with_namespace_lookup`: the namespace and the name, none for an endpoint
that is not defined. A host that is missing, or an address without `service`, fails. -/
def lookup (type endpoint : String) : Option (Option (String × String)) :=
  match ctx.endpoints.get? (replace '-' '_' type) with
  | none => some none
  | some ep => do
    let host ← ep.host endpoint
    if looksLikeAddress host then
      let name ← ep.service
      return some (ctx.namespaceOf ep, if name = "" then replace '-' '_' type else name)
    else return some (ctx.namespaceOf ep, host)

/-- Its text: nothing at all for an endpoint that is not defined. -/
def serviceText : Option (String × String) → String
  | none => ""
  | some (ns, name) => ns ++ ":" ++ name

/-- One item of `comma_joined_service_list`; only a map has a `service`. -/
def serviceItem : Item F → Option String
  | .name _ => none
  | .entry m => (ctx.lookup (ctx.service m) (ctx.endpoint m)).map serviceText

/-- `helm-toolkit.utils.comma_joined_service_list`. -/
def commaJoinedServiceList (services : List (Item F)) : Option String :=
  (services.mapM ctx.serviceItem).map (join ',')

/-- An item as the template prints it. -/
def text : Item F → String
  | .name s => s
  | .entry m => ctx.print m

/-- `helm-toolkit.utils.joinListWithComma`. -/
def joinListWithComma (items : List (Item F)) : String := join ',' (items.map ctx.text)

/-! ## The environment -/

/-- The variables for the jobs. The first job tells whether they are given by name. -/
def jobsEnv : List (Item F) → List (String × String)
  | [] => []
  | .name job :: rest => [("DEPENDENCY_JOBS", ctx.joinListWithComma (.name job :: rest))]
  | jobs => [("DEPENDENCY_JOBS_JSON", ctx.toJson jobs)]

/-- `if $list` the list as JSON, else nothing. -/
def jsonEnv (items : List (Item F)) : String := if items.isEmpty then "" else ctx.toJson items

/-- The variables that depend on `deps`. -/
def initEnv (deps : Option (Deps F)) : Option (List (String × String)) := do
  let services ← ctx.commaJoinedServiceList (listOf deps "services")
  return [("DEPENDENCY_SERVICE", services)] ++ ctx.jobsEnv (listOf deps "jobs") ++
    [("DEPENDENCY_DAEMONSET", ctx.joinListWithComma (listOf deps "daemonset")),
      ("DEPENDENCY_CONTAINER", ctx.joinListWithComma (listOf deps "container")),
      ("DEPENDENCY_POD_JSON", ctx.jsonEnv (listOf deps "pod")),
      ("DEPENDENCY_CUSTOM_RESOURCE", ctx.jsonEnv (listOf deps "custom_resources"))]

end Context

/-! ## Reading it back -/

/-- `t.split(":")[-1]`. -/
def lastPiece (t : String) : String := (splitList ':' t).getLastD ""

/-- `[t.strip() for t in value.split(",") if t.strip()]`. -/
def waitItems (value : String) : List String := compact ((splitList ',' value).map strip)

/-- The Services and jobs of `entrypoint_waits`. -/
def entrypointWaits (env : List (String × String)) : List String × List String :=
  (sortAlpha (uniq (env.flatMap fun e =>
      if e.1 = "DEPENDENCY_SERVICE" then (waitItems e.2).map lastPiece else [])),
    sortAlpha (uniq (env.flatMap fun e =>
      if e.1 = "DEPENDENCY_JOBS" then waitItems e.2 else [])))

/-! ## Roles -/

/-- The kinds of dependencies a role is written for. -/
inductive RoleKind
  | services
  | jobs
  | daemonsets
  | pods
  | secrets
deriving DecidableEq

/-- `allNamespace`: the kinds for each namespace, the last one first. -/
abbrev NamespaceKinds := Dict String (List RoleKind)

namespace NamespaceKinds

/-- The kinds of a namespace. -/
def kinds (all : NamespaceKinds) (ns : String) : List RoleKind := (all.get? ns).getD []

/-- A kind more. -/
def add (all : NamespaceKinds) (ns : String) (kind : RoleKind) : NamespaceKinds :=
  all.set ns (kind :: all.kinds ns)

end NamespaceKinds

namespace Context

variable (ctx : Context F)

/-- The namespace a service account reads a service in. The type is looked up as it is, and an
endpoint that is not defined is taken to be in the namespace of the release. -/
def roleNamespace (m : F) : String :=
  match ctx.endpoints.get? (ctx.service m) with
  | some ep => ctx.namespaceOf ep
  | none => ctx.releaseNamespace

/-- One service; only a map has a `service`. -/
def addService (all : NamespaceKinds) : Item F → Option NamespaceKinds
  | .name _ => none
  | .entry m =>
    if .services ∈ all.kinds (ctx.roleNamespace m) then some all
    else some (all.add (ctx.roleNamespace m) .services)

/-- The kind of a list that is in the namespace of the release. -/
def localKind (key : String) : Option RoleKind :=
  if key = "jobs" then some .jobs
  else if key = "daemonset" then some .daemonsets
  else if key = "pod" then some .pods
  else if key = "secret" then some .secrets
  else none

/-- One key of the dependencies; an empty list is no reason for a role. -/
def addKey (all : NamespaceKinds) (e : String × Option (List (Item F))) :
    Option NamespaceKinds :=
  if e.1 = "services" then (e.2.getD []).foldlM ctx.addService all
  else
    match localKind e.1 with
    | some kind =>
      if (e.2.getD []).isEmpty then some all else some (all.add ctx.releaseNamespace kind)
    | none => some all

/-- The kinds the service account writes roles for. -/
def roleKinds (deps : Option (Deps F)) : Option NamespaceKinds :=
  match deps with
  | none => some Dict.empty
  | some deps => (sortedItems deps).foldlM ctx.addKey Dict.empty

end Context

/-- `helm-toolkit.snippets.kubernetes_pod_rbac_roles`: the resources of one kind. -/
def RoleKind.resources : RoleKind → List String
  | .services => ["services", "endpoints", "endpointslices"]
  | .jobs => ["jobs", "pods"]
  | .daemonsets => ["daemonsets", "pods"]
  | .pods => ["pods"]
  | .secrets => ["secrets"]

/-- The resources a role lists in a namespace. -/
def NamespaceKinds.resources (all : NamespaceKinds) (ns : String) : List String :=
  (all.kinds ns).flatMap RoleKind.resources

end OpenstackBlueprint.HelmToolkit
