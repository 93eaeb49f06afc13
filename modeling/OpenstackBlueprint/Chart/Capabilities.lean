import OpenstackBlueprint.Kit.Rbac

/-!
# Capabilities of the service contract

`capability-clusterroles.yaml` renders one ClusterRole for every capability.
`capability-abac-policies.yaml` renders, for a capability with enforcement
`abac`, a ValidatingAdmissionPolicy and its binding, and derives what the
policy matches from the same rules. The two vocabularies differ: RBAC speaks of
verbs, admission of operations.

A capability carries what values.schema.json asks of it, so that only admitted
capabilities can be built.
-/

namespace OpenstackBlueprint.Chart

open Kit

/-! ## The contract -/

/-- The verbs values.schema.json enumerates. -/
inductive Verb
  | get
  | list
  | watch
  | create
  | update
  | patch
  | delete
  | deletecollection
  | all
  deriving DecidableEq, Repr

/-- As the values spell it. -/
def Verb.text : Verb → String
  | .get => "get"
  | .list => "list"
  | .watch => "watch"
  | .create => "create"
  | .update => "update"
  | .patch => "patch"
  | .delete => "delete"
  | .deletecollection => "deletecollection"
  | .all => "*"

inductive Enforcement
  | rbac
  | acr
  | crossOrg
  | abac
  deriving DecidableEq, Repr

def Enforcement.text : Enforcement → String
  | .rbac => "rbac"
  | .acr => "acr"
  | .crossOrg => "cross-org"
  | .abac => "abac"

/-- `policyRule` of the schema. -/
structure CapabilityRule where
  apiGroups : List String
  resources : List String
  resourceNames : List String
  verbs : List Verb
  apiGroups_ne : apiGroups ≠ []
  resources_ne : resources ≠ []
  resources_named : ∀ r ∈ resources, r ≠ ""
  resourceNames_named : ∀ n ∈ resourceNames, n ≠ ""
  verbs_ne : verbs ≠ []

/-- `abac` of a capability; its `match.kinds` is read by no template. -/
structure Abac where
  celExpression : String
  message : Option String

/-- `capability` of the schema. -/
structure Capability where
  name : String
  title : String
  description : Option String
  enforcement : Enforcement
  requiresAcr : Option String
  crossOrgRole : Option String
  aggregateTo : List String
  rules : List CapabilityRule
  abac : Option Abac
  rules_ne : rules ≠ []
  abac_required : enforcement = .abac → abac ≠ none

/-- The part of `serviceContract` the two templates read, with
`.Release.Service`. -/
structure ServiceContract where
  serviceName : String
  capabilities : List Capability
  releaseService : String

/-! ## `capability-clusterroles.yaml` -/

/-- A rendered ClusterRole. -/
structure ClusterRoleDoc where
  name : String
  labels : List (String × String)
  annotations : List (String × String)
  rules : List PolicyRule

/-- `toYaml` of one rule. -/
def CapabilityRule.policyRule (r : CapabilityRule) : PolicyRule where
  apiGroups := r.apiGroups
  resources := r.resources
  resourceNames := r.resourceNames
  verbs := r.verbs.map Verb.text

/-- `printf "%s-%s" service.name .name`. -/
def capabilityName (contract : ServiceContract) (cap : Capability) : String :=
  contract.serviceName ++ "-" ++ cap.name

/-- An annotation written under `with`: absent or empty values write none. -/
def withAnnotation (key : String) (value : Option String) : List (String × String) :=
  match value with
  | some v => if v == "" then [] else [(key, v)]
  | none => []

/-- The ClusterRole of one capability. -/
def capabilityClusterRole (contract : ServiceContract) (cap : Capability) : ClusterRoleDoc where
  name := capabilityName contract cap
  labels :=
    [("krateo.io/capability", "true"), ("krateo.io/capability-id", capabilityName contract cap),
      ("app.kubernetes.io/name", contract.serviceName),
      ("app.kubernetes.io/managed-by", contract.releaseService)]
    ++ cap.aggregateTo.map fun role => ("rbac.krateo.io/aggregate-to-" ++ role, "true")
  annotations :=
    [("krateo.io/title", cap.title), ("krateo.io/enforcement", cap.enforcement.text)]
    ++ withAnnotation "krateo.io/description" cap.description
    ++ withAnnotation "krateo.io/requires-acr" cap.requiresAcr
    ++ withAnnotation "krateo.io/cross-org-role" cap.crossOrgRole
  rules := cap.rules.map CapabilityRule.policyRule

/-! ## `capability-abac-policies.yaml` -/

/-- A rendered ValidatingAdmissionPolicy together with its binding. -/
structure AbacPolicyDoc where
  name : String
  labels : List (String × String)
  annotations : List (String × String)
  failurePolicy : String
  resourceRules : List ResourceRule
  expression : String
  message : Option String
  bindingPolicyName : String
  validationActions : List String

/-- The `if`/`else if` chain over one verb: what it appends to `$ops`. -/
def appendOp (ops : List String) (verb : Verb) : List String :=
  match verb with
  | .create => ops ++ ["CREATE"]
  | .update | .patch => ops ++ ["UPDATE"]
  | .delete => ops ++ ["DELETE"]
  | _ => ops

/-- `$ops`, accumulated over all rules of the capability. -/
def capabilityOps (cap : Capability) : List String :=
  cap.rules.foldl (fun ops r => r.verbs.foldl appendOp ops) []

/-- The resource rules of the policy: the rules' own groups and resources, each
with all of `$ops`. -/
def abacResourceRules (cap : Capability) : List ResourceRule :=
  cap.rules.map fun r =>
    { apiGroups := r.apiGroups
      operations := sortAlpha (uniq (capabilityOps cap))
      resources := r.resources }

/-- The policy of one capability, for enforcement `abac` only. -/
def capabilityAbacPolicy (contract : ServiceContract) (cap : Capability) :
    Option AbacPolicyDoc :=
  if cap.enforcement = .abac then
    cap.abac.map fun abac =>
      { name := capabilityName contract cap
        labels := [("krateo.io/capability", "true"),
          ("app.kubernetes.io/name", contract.serviceName),
          ("app.kubernetes.io/managed-by", contract.releaseService)]
        annotations := [("krateo.io/title", cap.title),
          ("krateo.io/enforcement", cap.enforcement.text)]
        failurePolicy := "Fail"
        resourceRules := abacResourceRules cap
        expression := abac.celExpression
        message := abac.message.filter fun m => !(m == "")
        bindingPolicyName := capabilityName contract cap
        validationActions := ["Deny"] }
  else none

/-! ## What `$ops` holds -/

end OpenstackBlueprint.Chart
