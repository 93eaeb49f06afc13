import OpenstackBlueprint.Kit.Dict
import OpenstackBlueprint.Kit.TSys
import OpenstackBlueprint.Kit.Text

/-!
# What a pod waits for (helm-toolkit)

The init container of a pod waits for the dependencies that the chart's values list
for its component: static ones, those of a local image registry, those of the job
that sets up RabbitMQ, and those targeted at a network backend.

The templates put these together with `set` on the values themselves, which all
templates of a chart share. A Go map is a reference: `deps` may be a map of its own or
`dependencies.static.<component>` itself, and what is merged into it is then there
for every template rendered later. `Values` therefore holds the maps by address, and
every helper is a function on it. A helper that fails ends the rendering: `none`.

A list is never changed in place (`append` copies), so lists are values. The maps in
lists are references as well: a merged list holds the maps of the lists it was made
of, and the init container sets the namespace of the custom resources it waits for in
place. `Values` holds what each of these maps contains.
-/

namespace OpenstackBlueprint.HelmToolkit

open OpenstackBlueprint.Kit

/-- An item of a list of dependencies: a name or a map. -/
inductive Item (M : Type)
  | name (s : String)
  | entry (m : M)
deriving DecidableEq

/-- An item with another map. -/
def Item.map {M N : Type} (f : M → N) : Item M → Item N
  | .name s => .name s
  | .entry m => .entry (f m)

/-- A map of dependencies. Each key holds a list or null. -/
abbrev Deps (M : Type) := Dict String (Option (List (Item M)))

/-- Other maps in the lists. -/
def Deps.map {M N : Type} (f : M → N) (deps : Deps M) : Deps N :=
  deps.mapValues fun _ => Option.map (List.map (Item.map f))

/-- The items under a key, none where there is no list. -/
def listOf {M : Type} (deps : Option (Deps M)) (key : String) : List (Item M) :=
  (deps.bind (·.get? key)).join.getD []

/-- A map in a list, by reference: the key of the list, and which one it is of all the maps in
lists under that key. -/
structure Ref where
  key : String
  index : Nat
deriving DecidableEq

/-- Where a map is: in `dependencies`, or made by a template. -/
inductive Addr
  | static (component : String)
  | localImageRegistry
  | jobRabbitInit (component : String)
  | targeted (mixin key : String)
  | fresh (n : Nat)
deriving DecidableEq

/-- What the helpers read of the chart's values, a flag where it has a value; what each map in a
list contains; and what one contains after `set . "namespace" $envAll.Release.Namespace`. -/
structure Chart (F : Type) where
  localRegistryActive : Bool
  manifests : Dict String Bool
  static : Dict String (Option (Deps Ref))
  localImageRegistry : Option (Deps Ref)
  jobRabbitInit : Dict String (Option (Deps Ref))
  targeted : Dict String (Dict String (Option (Deps Ref)))
  content : Ref → F
  setNamespace : F → F
  setNamespace_idem : ∀ m, setNamespace (setNamespace m) = setNamespace m

/-- The shared values: the map at each address, null or missing where there is none, what the maps
in lists contain, and `pod_dependency`. -/
structure Values (F : Type) where
  heap : Addr → Option (Deps Ref)
  content : Ref → F
  next : Nat
  podDependency : Option Addr

variable {F : Type} [DecidableEq F]

/-- The values a chart is rendered with. -/
def Chart.values (chart : Chart F) : Values F where
  heap
    | .static component => (chart.static.get? component).join
    | .localImageRegistry => chart.localImageRegistry
    | .jobRabbitInit component => (chart.jobRabbitInit.get? component).join
    | .targeted mixin key => ((chart.targeted.get? mixin).bind (·.get? key)).join
    | .fresh _ => none
  content := chart.content
  next := 0
  podDependency := none

/-! ## Merging -/

section Merge

variable {M : Type} (same : Item M → Item M → Bool)

/-- `helm-toolkit.utils._merge` of what two maps hold under a key; `uniq` keeps the first of the
items that are the same. -/
def mergeValue : Option (List (Item M)) → Option (List (Item M)) → Option (List (Item M))
  | some target, some source => some ((target ++ source).eraseDupsBy same)
  | _, source => source

/-- One entry of the source. -/
def mergeEntry (target : Deps M) (e : String × Option (List (Item M))) : Deps M :=
  match target.get? e.1 with
  | none => target.set e.1 e.2
  | some value => target.set e.1 (mergeValue same value e.2)

/-- `helm-toolkit.utils._merge` of two maps. `range` goes over the entries the source has at
the start, also when the target is the same map. -/
def mergeDeps (target source : Deps M) : Deps M := source.entries.foldl (mergeEntry same) target

end Merge

namespace Values

/-- A new `dict`, and its address. -/
def alloc (v : Values F) : Values F × Addr :=
  ({ v with heap := Function.update v.heap (.fresh v.next) (some Dict.empty), next := v.next + 1 },
    .fresh v.next)

/-- Items are compared by what they contain. -/
def same (v : Values F) (x y : Item Ref) : Bool := x.map v.content = y.map v.content

/-- `helm-toolkit.utils._merge`: only a map takes in a map. -/
def mergeInto (v : Values F) (target source : Addr) : Values F :=
  match v.heap target, v.heap source with
  | some t, some s =>
    { v with heap := Function.update v.heap target (some (mergeDeps v.same t s)) }
  | _, _ => v

/-- `helm-toolkit.utils.merge`. -/
def merge (v : Values F) (target : Addr) (sources : List Addr) : Values F :=
  sources.foldl (fun v source => v.mergeInto target source) v

end Values

/-! ## Jobs that are not rendered -/

/-- The manifest flag of a job: its name without the chart's prefix. -/
def manifestKey (job : String) : Option String :=
  match splitList '-' job with
  | _ :: part :: parts => some ("job_" ++ join '_' (part :: parts))
  | _ => none

/-- Whether a job is waited for. -/
def jobEnabled (manifests : Dict String Bool) (job : String) : Bool :=
  match manifestKey job with
  | none => true
  | some key => (manifests.get? key).getD true

section Filter

variable {M : Type}

/-- The loop of the filter; `splitList` fails on what is not a string. -/
def filterJobNames (manifests : Dict String Bool) : List (Item M) → Option (List (Item M))
  | [] => some []
  | .entry _ :: _ => none
  | .name job :: rest => do
    let jobs ← filterJobNames manifests rest
    return if jobEnabled manifests job then .name job :: jobs else jobs

/-- `helm-toolkit.utils.dependency_jobs_filter`, of the map it changes. The first job tells
whether jobs are given by name. -/
def dependencyJobsFilter (manifests : Dict String Bool) (deps : Deps M) : Option (Deps M) :=
  match deps.get? "jobs" with
  | some (some (.name job :: rest)) => do
    return deps.set "jobs" (some (← filterJobNames manifests (.name job :: rest)))
  | _ => some deps

end Filter

/-- The filter on the map at an address. -/
def Values.filterJobs (v : Values F) (manifests : Dict String Bool) (deps : Addr) :
    Option (Values F) :=
  match v.heap deps with
  | none => some v
  | some d => do
    return { v with heap := Function.update v.heap deps (some (← dependencyJobsFilter manifests d)) }

/-! ## Custom resources -/

/-- `range $deps.custom_resources`: `set` fails on what is not a map. -/
def Values.setNamespaces (setNamespace : F → F) : List (Item Ref) → Values F → Option (Values F)
  | [], v => some v
  | .name _ :: _, _ => none
  | .entry m :: rest, v =>
    setNamespaces setNamespace rest
      { v with content := Function.update v.content m (setNamespace (v.content m)) }

/-! ## The snippets -/

/-- `index .Values.pod_dependency`, which fails on null, or `index .Values.dependencies.static
component`. -/
def Values.source (v : Values F) (component : String) : Option Addr :=
  if component = "pod_dependency" then v.podDependency.filter fun a => (v.heap a).isSome
  else some (.static component)

/-- Whether a component waits for the local registry. -/
def Chart.usesRegistry (chart : Chart F) (component : String) : Bool :=
  chart.localRegistryActive && component ≠ "image_repo_sync"

/-- Whether the dependencies of the RabbitMQ job are merged. -/
def Chart.usesRabbitInit (chart : Chart F) : Bool :=
  (chart.manifests.get? "job_rabbit_init").getD false && !chart.jobRabbitInit.entries.isEmpty

/-- The first lines of both snippets: `deps` is a new map, or the source itself. -/
def Chart.ownDeps (chart : Chart F) (component : String) (v : Values F) :
    Option (Values F × Addr × Addr) := do
  let source ← v.source component
  let (v, deps) := v.alloc
  if chart.usesRegistry component then
    return (v.merge deps [source, .localImageRegistry], source, deps)
  else return (v, source, source)

/-- The dependencies at an address as a template prints them. -/
def Values.print (v : Values F) (deps : Addr) : Option (Deps F) :=
  (v.heap deps).map (Deps.map v.content)

/-- `helm-toolkit.snippets.kubernetes_entrypoint_init_container`: the values afterwards, and the
dependencies it renders. -/
def Chart.initContainer (chart : Chart F) (component : String) (v : Values F) :
    Option (Values F × Option (Deps F)) := do
  let (v, source, deps) ← chart.ownDeps component v
  let v := if chart.usesRabbitInit then v.merge deps [source, .jobRabbitInit component] else v
  let v ← v.filterJobs chart.manifests deps
  let v ← v.setNamespaces chart.setNamespace (listOf (v.heap deps) "custom_resources")
  return (v, v.print deps)

/-- `helm-toolkit.snippets.kubernetes_pod_rbac_serviceaccount`: the values afterwards, and the
dependencies it writes roles for. -/
def Chart.serviceAccount (chart : Chart F) (component : String) (v : Values F) :
    Option (Values F × Option (Deps F)) := do
  let (v, _, deps) ← chart.ownDeps component v
  let v ← v.filterJobs chart.manifests deps
  return (v, v.print deps)

/-! ## The resolver -/

/-- `dependencyMixinParam`. -/
inductive Mixin
  | none
  | one (name : String)
  | many (names : List String)
deriving DecidableEq

/-- `if ( index .Values.dependencies.dynamic.targeted name )`. -/
def Chart.hasTargeted (chart : Chart F) (name : String) : Bool :=
  match chart.targeted.get? name with
  | some section' => !section'.entries.isEmpty
  | none => false

/-- The loop over several mixins. After the first merge `__deps` is `pod_dependency` itself. -/
def Chart.mixMany (chart : Chart F) (key : String) (pod : Addr) :
    Values F → Addr → List String → Values F
  | v, _, [] => v
  | v, deps, name :: names =>
    if chart.hasTargeted name then
      chart.mixMany key pod (v.merge pod [deps, .targeted name key]) pod names
    else chart.mixMany key pod v deps names

/-- What the resolver makes `pod_dependency`, and the values then. -/
def Chart.mixed (chart : Chart F) (mixin : Mixin) (key : String) (v : Values F) :
    Values F × Addr :=
  match mixin with
  | .none => (v, .static key)
  | .one name =>
    if name = "" then (v, .static key)
    else
      let (v, pod) := v.alloc
      if chart.hasTargeted name then (v.merge pod [.static key, .targeted name key], pod)
      else (v, .static key)
  | .many names =>
    if names.isEmpty then (v, .static key)
    else
      let (v, pod) := v.alloc
      (chart.mixMany key pod v (.static key) names, pod)

/-- `helm-toolkit.utils.dependency_resolver`. -/
def Chart.dependencyResolver (chart : Chart F) (mixin : Mixin) (key : String) (v : Values F) :
    Option (Values F) :=
  let (v, pod) := chart.mixed mixin key v
  { v with podDependency := some pod }.filterJobs chart.manifests pod

/-! ## Rendering -/

/-- One snippet included by some template of the chart. -/
inductive Snippet (chart : Chart F) (v : Values F) : Values F → Prop
  | initContainer (component : String) (v' : Values F) (deps : Option (Deps F))
      (h : chart.initContainer component v = some (v', deps)) : Snippet chart v v'
  | serviceAccount (component : String) (v' : Values F) (deps : Option (Deps F))
      (h : chart.serviceAccount component v = some (v', deps)) : Snippet chart v v'

/-- One helper called by some template of the chart. -/
inductive Render (chart : Chart F) (v : Values F) : Values F → Prop
  | snippet (v' : Values F) (h : Snippet chart v v') : Render chart v v'
  | dependencyResolver (mixin : Mixin) (key : String) (v' : Values F)
      (h : chart.dependencyResolver mixin key v = some v') : Render chart v v'

/-- Rendering a chart: any templates, in any order. -/
def Chart.rendering (chart : Chart F) : TSys (Values F) where
  init v := v = chart.values
  step := Render chart

end OpenstackBlueprint.HelmToolkit
