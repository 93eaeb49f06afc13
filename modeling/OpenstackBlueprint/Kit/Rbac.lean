import OpenstackBlueprint.Kit.Text

/-!
# Kubernetes authorization and admission matching

Two vocabularies for "which requests is this about", each as the API server
evaluates it.

* **RBAC** (`PolicyRule.allows`): a request is allowed by a rule that covers its
  verb, its API group, its resource and its name. A rule with `resourceNames`
  covers no request without a name. The resource `*` covers every resource and
  every subresource; `*/scale` covers that subresource of every resource.
* **Admission** (`ResourceRule.covers`): a rule is split at the first `/` into a
  resource and a subresource, and each half matches by `*` or by equality. The
  resource `*` therefore covers no subresource; `*/*` covers everything.
-/

namespace OpenstackBlueprint.Kit

/-! ## RBAC -/

/-- A rule of a ClusterRole. -/
structure PolicyRule where
  apiGroups : List String
  resources : List String
  resourceNames : List String
  verbs : List String
  deriving DecidableEq, Repr

/-- The attributes of a request that authorization reads. `subresource` and
`name` are empty when the request has none. -/
structure Attributes where
  verb : String
  apiGroup : String
  resource : String
  subresource : String
  name : String
  deriving DecidableEq, Repr

/-- A request with the verb may name an object: a `create` does so on a subresource
only, a `deletecollection` never. -/
def NamesObject (verb subresource : String) : Prop :=
  verb ≠ "deletecollection" ∧ (verb = "create" → subresource ≠ "")

/-- `pods/log` for a subresource request, `pods` otherwise. -/
def Attributes.combinedResource (a : Attributes) : String :=
  if a.subresource == "" then a.resource else a.resource ++ "/" ++ a.subresource

/-- An item of a rule's list covers a value by being it or by being `*`. -/
def listCovers (l : List String) (value : String) : Bool :=
  l.contains "*" || l.contains value

namespace PolicyRule

def verbMatches (r : PolicyRule) (a : Attributes) : Bool := listCovers r.verbs a.verb

def apiGroupMatches (r : PolicyRule) (a : Attributes) : Bool := listCovers r.apiGroups a.apiGroup

def resourceMatches (r : PolicyRule) (a : Attributes) : Bool :=
  r.resources.any fun rule =>
    rule == "*" || rule == a.combinedResource ||
      (!(a.subresource == "") && rule == "*/" ++ a.subresource)

/-- A rule with `resourceNames` is about those objects only: a request without
a name is none of them. -/
def resourceNameMatches (r : PolicyRule) (a : Attributes) : Bool :=
  r.resourceNames.isEmpty || (!(a.name == "") && r.resourceNames.contains a.name)

/-- The rule allows the request. -/
def allows (r : PolicyRule) (a : Attributes) : Bool :=
  r.verbMatches a && r.apiGroupMatches a && r.resourceMatches a && r.resourceNameMatches a

end PolicyRule

structure ClusterRole where
  rules : List PolicyRule
  deriving DecidableEq, Repr

structure RoleRef where
  kind : String
  name : String
  deriving DecidableEq, Repr

structure Subject where
  kind : String
  name : String
  ns : String
  deriving DecidableEq, Repr

structure ClusterRoleBinding where
  roleRef : RoleRef
  subjects : List Subject
  deriving DecidableEq, Repr

/-- Who sends a request. -/
structure UserInfo where
  name : String
  groups : List String
  deriving DecidableEq, Repr

/-- The identity of a service account. -/
def serviceAccountUser (ns account : String) : UserInfo where
  name := "system:serviceaccount:" ++ ns ++ ":" ++ account
  groups := ["system:serviceaccounts", "system:serviceaccounts:" ++ ns, "system:authenticated"]

/-- A subject names the user directly, through a group, or as a service
account. -/
def Subject.appliesTo (s : Subject) (u : UserInfo) : Bool :=
  if s.kind == "User" then s.name == u.name
  else if s.kind == "Group" then u.groups.contains s.name
  else if s.kind == "ServiceAccount" then
    u.name == "system:serviceaccount:" ++ s.ns ++ ":" ++ s.name
  else false

/-- A cluster-wide binding allows the request through the ClusterRole it
refers to. `roles` looks a ClusterRole up by name. -/
def ClusterRoleBinding.allows (roles : String → Option ClusterRole)
    (b : ClusterRoleBinding) (u : UserInfo) (a : Attributes) : Bool :=
  b.subjects.any (·.appliesTo u) && b.roleRef.kind == "ClusterRole" &&
    match roles b.roleRef.name with
    | some role => role.rules.any (·.allows a)
    | none => false

theorem Subject.appliesTo_group {s : Subject} {u : UserInfo} (hkind : s.kind = "Group")
    (hname : s.name ∈ u.groups) : s.appliesTo u = true := by
  simp [Subject.appliesTo, hkind, hname]

/-! ## Admission -/

/-- The write operations admission distinguishes. -/
inductive Operation
  | create
  | update
  | delete
  deriving DecidableEq, Repr

/-- As `operations` lists them. -/
def Operation.text : Operation → String
  | .create => "CREATE"
  | .update => "UPDATE"
  | .delete => "DELETE"

/-- The operation a verb is admitted as; reads are not admitted. -/
def Operation.ofVerb (verb : String) : Option Operation :=
  if verb == "create" then some .create
  else if verb == "update" || verb == "patch" then some .update
  else if verb == "delete" || verb == "deletecollection" then some .delete
  else none

/-- One entry of `matchConstraints.resourceRules`; `apiVersions` is `*`. -/
structure ResourceRule where
  apiGroups : List String
  operations : List String
  resources : List String
  deriving DecidableEq, Repr

/-- The two halves of a resource pattern, split at the first `/`. -/
def splitResource (pattern : String) : String × String :=
  (String.ofList (pattern.toList.takeWhile (· != '/')),
    String.ofList ((pattern.toList.dropWhile (· != '/')).drop 1))

/-- A resource pattern covers a resource and subresource. -/
def patternCovers (pattern resource subresource : String) : Bool :=
  let (res, sub) := splitResource pattern
  (res == "*" || res == resource) && (sub == "*" || sub == subresource)

/-- The rule is about this operation on this resource. -/
def ResourceRule.covers (r : ResourceRule) (apiGroup resource subresource : String)
    (op : Operation) : Bool :=
  listCovers r.apiGroups apiGroup && listCovers r.operations op.text &&
    r.resources.any (patternCovers · resource subresource)

/-! ## Resource patterns -/

end OpenstackBlueprint.Kit
