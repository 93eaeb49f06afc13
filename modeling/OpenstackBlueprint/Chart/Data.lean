import OpenstackBlueprint.Kit.Rbac

/-!
# Data model of the umbrella chart

What `compositions.yaml` and `_helpers.tpl` read: the chart's values, the
release, and the cluster. Optional fields of a live object stay optional,
because the templates reach through them in different ways and an absent
`status` is not an empty one.

A template either yields a value or aborts the whole render (`TplError`).
`lookup` aborts at a group/version no CRD serves and on every API error but
NotFound; it never answers "empty" for "refused".
-/

namespace OpenstackBlueprint.Chart

open Kit

/-! ## Values and release -/

/-- `tier` of a component. -/
inductive Tier
  | identity
  | compute
  deriving DecidableEq, Repr

/-- `profile`, an enumeration in values.schema.json. -/
inductive Profile
  | identity
  | full
  | fullStrict
  deriving DecidableEq, Repr

/-- An entry of `components`. -/
structure Component where
  name : String
  kind : String
  deps : List String
  tier : Tier
  requiresProvisioning : Bool
  deriving DecidableEq, Repr

/-- `a` declares `b` as a dependency. -/
def DependsOn (comps : List Component) (a b : String) : Prop :=
  ∃ c ∈ comps, c.name = a ∧ b ∈ c.deps

/-- An entry of `dependencyRelaxations`. The templates read only the edge; its
`issue` and `cycle` texts are for the gates. -/
structure Relaxation where
  component : String
  dependency : String
  deriving DecidableEq, Repr

/-- An entry of `nodeLabelPreconditions`. -/
structure NodeLabelPrecondition where
  key : String
  value : String
  components : List String
  deriving DecidableEq, Repr

/-- A value of `componentValues`, passed through to the Composition's spec. -/
inductive Yaml
  | null
  | bool (b : Bool)
  | int (n : Int)
  | str (s : String)
  | seq (items : List Yaml)
  | map (fields : List (String × Yaml))
  deriving Repr

/-- The values the templates read. `enabled` and the lists are empty when the
values leave them null. -/
structure Values where
  chartVersion : String
  profile : Profile
  enabled : List String
  components : List Component
  dependencyRelaxations : List Relaxation
  nodeLabelPreconditions : List NodeLabelPrecondition
  componentValues : List (String × List (String × Yaml))

/-- The root context `$`: the values and `.Release.Namespace`, with the service
account the controller renders as. -/
structure Top where
  values : Values
  releaseNamespace : String
  serviceAccount : String

/-! ## The cluster -/

structure CrdVersion where
  name : String
  served : Bool
  deriving DecidableEq, Repr

/-- A CustomResourceDefinition: `spec.group`, `spec.names.kind` and
`spec.versions`. -/
structure Crd where
  group : String
  kind : String
  versions : List CrdVersion
  deriving DecidableEq, Repr

/-- An entry of `status.conditions`. -/
structure Condition where
  type : Option String
  status : Option String
  reason : Option String
  deriving DecidableEq, Repr

structure Status where
  conditions : Option (List Condition)
  deriving DecidableEq, Repr

/-- A Composition object. The API server stores one object for each kind,
namespace and name, whatever version it is read through. -/
structure Composition where
  kind : String
  ns : String
  name : String
  annotations : Option (List (String × String))
  status : Option Status
  deriving DecidableEq, Repr

structure Node where
  labels : List (String × String)
  deriving DecidableEq, Repr

/-- The part of the cluster one render reads. `clusterRole` and
`clusterRoleBinding` look the RBAC objects up by name; `nodesReadable` says
whether some other binding already lets the render identity list nodes. -/
structure Cluster where
  crds : List Crd
  compositions : List Composition
  nodes : List Node
  clusterRole : String → Option ClusterRole
  clusterRoleBinding : String → Option ClusterRoleBinding
  nodesReadable : Bool

/-! ## Template evaluation -/

/-- Why a render aborts. -/
inductive TplError
  /-- nil pointer evaluating interface {}.`field` -/
  | nilPointer (field : String)
  /-- no matches for kind `kind` in version `apiVersion` -/
  | noMatch (apiVersion kind : String)
  /-- `resource` is forbidden -/
  | forbidden (resource : String)
  /-- index out of range: `i` -/
  | indexOutOfRange (i : Nat)
  /-- the template called `fail` -/
  | fail (message : String)
  deriving DecidableEq, Repr

/-- A template evaluation. -/
abbrev Tpl := Except TplError

/-- The group of every component CRD. -/
def compositionGroup : String := "composition.krateo.io"

/-- The CRD list registers `kind` at `version` and serves it. -/
def Serves (crds : List Crd) (kind version : String) : Prop :=
  ∃ crd ∈ crds, crd.group = compositionGroup ∧ crd.kind = kind ∧
    ∃ v ∈ crd.versions, v.name = version ∧ v.served = true

instance (crds : List Crd) (kind version : String) : Decidable (Serves crds kind version) :=
  inferInstanceAs (Decidable (∃ crd ∈ crds, _ ∧ _ ∧ ∃ v ∈ crd.versions, _ ∧ _))

namespace Cluster

/-- The object of this kind and name in this namespace. -/
def find? (cl : Cluster) (kind ns name : String) : Option Composition :=
  cl.compositions.find? fun o => o.kind == kind && o.ns == ns && o.name == name

/-- `lookup apiVersion kind ns name` of one Composition: an error at a version
nothing serves, nothing when there is no such object. -/
def lookup (cl : Cluster) (apiVersion kind ns name : String) : Tpl (Option Composition) :=
  if cl.crds.any fun crd => crd.group == compositionGroup && crd.kind == kind &&
      crd.versions.any fun v => v.served && compositionGroup ++ "/" ++ v.name == apiVersion
  then .ok (cl.find? kind ns name)
  else .error (.noMatch apiVersion kind)

theorem lookup_of_serves {cl : Cluster} {kind version : String}
    (h : Serves cl.crds kind version) (ns name : String) :
    cl.lookup (compositionGroup ++ "/" ++ version) kind ns name = .ok (cl.find? kind ns name) := by
  obtain ⟨crd, hcrd, hgroup, hkind, v, hv, hname, hserved⟩ := h
  unfold lookup
  rw [if_pos]
  refine List.any_eq_true.mpr ⟨crd, hcrd, ?_⟩
  simp only [hgroup, hkind, beq_self_eq_true, Bool.true_and]
  refine List.any_eq_true.mpr ⟨v, hv, ?_⟩
  simp [hserved, hname]

theorem find?_some {cl : Cluster} {kind ns name : String} {o : Composition}
    (h : cl.find? kind ns name = some o) :
    o ∈ cl.compositions ∧ o.kind = kind ∧ o.ns = ns ∧ o.name = name := by
  refine ⟨List.mem_of_find?_eq_some h, ?_⟩
  have := List.find?_some h
  simpa [and_assoc] using this

end Cluster

end OpenstackBlueprint.Chart
