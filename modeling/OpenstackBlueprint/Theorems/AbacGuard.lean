import OpenstackBlueprint.Chart.Capabilities

/-!
# When an abac capability is guarded

An abac capability grants verbs through its ClusterRole and guards them with a
ValidatingAdmissionPolicy derived from the same rules. Two translations leave a
granted write without a guard:

* `*` and `deletecollection` are in the schema's verb enumeration but in no
  branch of the chain that fills `$ops`;
* the resource `*` grants every subresource under RBAC and matches none of them
  under admission.

The policy covers every write the role grants exactly when other rules of the
capability make up for both.
-/

namespace OpenstackBlueprint.Theorems.AbacGuard

open Chart Kit

/-- A role grants an operation on a resource: some request for it, about an
object or a collection, is allowed. A resource name holds no `/`. -/
def Grants (rules : List PolicyRule) (apiGroup resource subresource : String)
    (op : Operation) : Prop :=
  ∃ verb name, Operation.ofVerb verb = some op ∧ (name ≠ "" → NamesObject verb subresource) ∧
    ∃ r ∈ rules, r.allows ⟨verb, apiGroup, resource, subresource, name⟩ = true

/-- Every write the capability's ClusterRole grants is matched by the resource
rules of its policy. -/
def Guarded (contract : ServiceContract) (cap : Capability) : Prop :=
  ∀ policy, capabilityAbacPolicy contract cap = some policy →
    ∀ apiGroup resource subresource op, '/' ∉ resource.toList →
      Grants (capabilityClusterRole contract cap).rules apiGroup resource subresource op →
      ∃ r ∈ policy.resourceRules, r.covers apiGroup resource subresource op = true

end OpenstackBlueprint.Theorems.AbacGuard
