import Mathlib

/-!
# DaemonSet overrides (`_daemonset_overrides.tpl`)

`helm-toolkit.utils.daemonset_overrides` renders one DaemonSet as several: one for
each host with its own configuration, one for each label with its own, and a
default one. Node affinity keeps them apart. A host is kept away from the labels
and the default; a label is kept away from the labels defined after it, which
take precedence, and from the hosts.

The configurations are merged by a function of the template engine, a parameter
here.
-/

namespace OpenstackBlueprint.HelmToolkit

/-- The `label` of an override: a key and the values it stands for. -/
structure Label where
  key : String
  values : List String
deriving DecidableEq

/-- One item of `labels`. -/
structure LabelData (C : Type) where
  label : Label
  conf : C
deriving DecidableEq

/-- One item of `hosts`. -/
structure HostData (C : Type) where
  name : String
  conf : C
deriving DecidableEq

/-- The overrides of one DaemonSet. -/
structure Overrides (C : Type) where
  hosts : List (HostData C)
  labels : List (LabelData C)

/-- The operators the template writes. -/
inductive Operator
  | isIn
  | notIn
deriving DecidableEq

/-- One item of `matchExpressions`. -/
structure MatchExpression where
  key : String
  operator : Operator
  values : List String
deriving DecidableEq

/-- One item of `__daemonset_list`. -/
structure Daemonset (C : Type) where
  name : String
  matchExpressions : Option (List MatchExpression)
  conf : C

/-! ## The template -/

section Template

variable {C : Type} [DecidableEq C] (mergeOverwrite : C → C → C) (conf : C)

/-- Schedule to this host, or to any other. -/
def hostExpression (operator : Operator) (host : HostData C) : MatchExpression :=
  ⟨"kubernetes.io/hostname", operator, [host.name]⟩

/-- Schedule to the nodes of this label, or to any other. -/
def labelExpression (operator : Operator) (label : LabelData C) : MatchExpression :=
  ⟨label.label.key, operator, label.label.values⟩

/-- The DaemonSet of a host. -/
def hostDaemonset (host : HostData C) : Daemonset C where
  name := if 20 < host.name.length then String.ofList (host.name.toList.take 20) else host.name
  matchExpressions := some [hostExpression .isIn host]
  conf := mergeOverwrite conf host.conf

/-- The DaemonSet of a label, with the labels that are left after it. -/
def labelDaemonset (hosts : List (HostData C)) (others : List (LabelData C))
    (label : LabelData C) : Daemonset C where
  name := label.label.key
  matchExpressions := some (labelExpression .isIn label :: others.map (labelExpression .notIn) ++
    hosts.map (hostExpression .notIn))
  conf := mergeOverwrite conf label.conf

/-- The loop over the labels. `without` takes every item equal to the current one off
`__label_list`, for this label and for the ones after it. -/
def labelDaemonsets (hosts : List (HostData C)) (labelList : List (LabelData C)) :
    List (LabelData C) → List (Daemonset C)
  | [] => []
  | label :: rest =>
    let others := labelList.filter fun other => other ≠ label
    labelDaemonset mergeOverwrite conf hosts others label :: labelDaemonsets hosts others rest

/-- The default DaemonSet: away from every host and label with its own. -/
def defaultDaemonset (overrides : Overrides C) : Daemonset C where
  name := "default"
  matchExpressions := some (overrides.hosts.map (hostExpression .notIn) ++
    overrides.labels.map (labelExpression .notIn))
  conf := conf

/-- The DaemonSets of one set of overrides. -/
def overriddenDaemonsets (overrides : Overrides C) : List (Daemonset C) :=
  overrides.hosts.map (hostDaemonset mergeOverwrite conf) ++
    labelDaemonsets mergeOverwrite conf overrides.hosts overrides.labels overrides.labels ++
    [defaultDaemonset conf overrides]

/-- `helm-toolkit.utils.daemonset_overrides`: the DaemonSets rendered for the chart's
`conf` without its `overrides`. -/
def daemonsetOverrides (overrides : List (String × Overrides C)) (rootName : String) :
    List (Daemonset C) :=
  match overrides.lookup rootName with
  | none => [{ name := "default", matchExpressions := none, conf := conf }]
  | some overrides => overriddenDaemonsets mergeOverwrite conf overrides

end Template

/-! ## Scheduling -/

/-- The labels of a node. -/
abbrev NodeLabels := String → Option String

/-- How the scheduler reads one expression: `NotIn` also holds where the key is missing. -/
def MatchExpression.holds (e : MatchExpression) (node : NodeLabels) : Bool :=
  match e.operator, node e.key with
  | .isIn, some value => e.values.contains value
  | .isIn, none => false
  | .notIn, some value => !e.values.contains value
  | .notIn, none => true

/-- Whether the affinity of a DaemonSet admits a node. A node selector term without expressions
matches no node. -/
def Daemonset.admits {C : Type} (d : Daemonset C) (node : NodeLabels) : Bool :=
  match d.matchExpressions with
  | none => true
  | some expressions => !expressions.isEmpty && expressions.all (·.holds node)

end OpenstackBlueprint.HelmToolkit
