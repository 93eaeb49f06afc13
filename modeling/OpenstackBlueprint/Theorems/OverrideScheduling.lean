import OpenstackBlueprint.HelmToolkit.DaemonsetOverrides

/-!
# One DaemonSet for each node

What the overrides are for: on every node exactly one of the rendered DaemonSets
runs, with the configuration of the node's host override if there is one, else of
the last label override that selects the node, else the chart's own
(`one_daemonset_per_node`). Labels may overlap in any way, also on the same key;
repeating an item breaks it, since the template drops every copy of an item
from the list it keeps the labels apart with. An entry without a host and a label
breaks it too: its default gets an empty list of expressions and runs nowhere.
-/

namespace OpenstackBlueprint.HelmToolkit

variable {C : Type}

/-! ## What is meant -/

/-- The node carries one of the values of the label. -/
def LabelData.selects (label : LabelData C) (node : NodeLabels) : Bool :=
  (labelExpression .isIn label).holds node

/-- The node is this host. -/
def HostData.selects (host : HostData C) (node : NodeLabels) : Bool :=
  (hostExpression .isIn host).holds node

/-- The override that takes precedence on a node, if any. -/
def precedent (overrides : Overrides C) (node : NodeLabels) : Option C :=
  match overrides.hosts.find? (·.selects node) with
  | some host => some host.conf
  | none => (overrides.labels.reverse.find? (·.selects node)).map (·.conf)

/-- The configuration meant for a node. -/
def nodeConf (mergeOverwrite : C → C → C) (conf : C) (overrides : List (String × Overrides C))
    (rootName : String) (node : NodeLabels) : C :=
  match (overrides.lookup rootName).bind (precedent · node) with
  | some override => mergeOverwrite conf override
  | none => conf

/-! ## Expressions -/

@[simp] theorem holds_notIn_label (label : LabelData C) (node : NodeLabels) :
    (labelExpression .notIn label).holds node = !label.selects node := by
  unfold LabelData.selects MatchExpression.holds labelExpression
  cases node label.label.key <;> simp

@[simp] theorem holds_notIn_host (host : HostData C) (node : NodeLabels) :
    (hostExpression .notIn host).holds node = !host.selects node := by
  unfold HostData.selects MatchExpression.holds hostExpression
  cases node "kubernetes.io/hostname" <;> simp

/-- A node is one host. -/
theorem name_eq_of_selects {a b : HostData C} {node : NodeLabels} (ha : a.selects node = true)
    (hb : b.selects node = true) : a.name = b.name := by
  unfold HostData.selects MatchExpression.holds hostExpression at ha hb
  cases hnode : node "kubernetes.io/hostname" with
  | none => simp [hnode] at ha
  | some value =>
    simp only [hnode, List.contains_cons, List.contains_nil, Bool.or_false, beq_iff_eq] at ha hb
    rw [← ha, hb]

section Lists

variable (mergeOverwrite : C → C → C) (conf : C) (node : NodeLabels)

@[simp] theorem admits_hostDaemonset (host : HostData C) :
    (hostDaemonset mergeOverwrite conf host).admits node = host.selects node := by
  simp [Daemonset.admits, hostDaemonset, HostData.selects]

/-- A label's DaemonSet runs where the label selects, no later label does, and no host. -/
theorem admits_labelDaemonset (hosts : List (HostData C)) (others : List (LabelData C))
    (label : LabelData C) :
    (labelDaemonset mergeOverwrite conf hosts others label).admits node =
      (label.selects node && others.all (fun other => !other.selects node) &&
        hosts.all fun host => !host.selects node) := by
  simp [Daemonset.admits, labelDaemonset, LabelData.selects, Bool.and_assoc, Function.comp_def]

/-- The default runs away from every host and label, of which there has to be one. -/
theorem admits_defaultDaemonset {overrides : Overrides C}
    (hsome : overrides.hosts ≠ [] ∨ overrides.labels ≠ []) :
    (defaultDaemonset conf overrides).admits node =
      (overrides.hosts.all (fun host => !host.selects node) &&
        overrides.labels.all fun label => !label.selects node) := by
  have hexpressions : (overrides.hosts.map (hostExpression .notIn) ++
      overrides.labels.map (labelExpression .notIn)).isEmpty = false := by
    rw [List.isEmpty_eq_false_iff, ne_eq, List.append_eq_nil_iff, List.map_eq_nil_iff,
      List.map_eq_nil_iff, not_and_or]
    exact hsome
  simp [Daemonset.admits, defaultDaemonset, hexpressions, Function.comp_def]

/-- Among the hosts, the node's own runs. -/
theorem admitted_hosts {hosts : List (HostData C)} (hnodup : (hosts.map (·.name)).Nodup) :
    ((hosts.map (hostDaemonset mergeOverwrite conf)).filter (·.admits node)).map (·.conf) =
      ((hosts.find? (·.selects node)).map fun host => mergeOverwrite conf host.conf).toList := by
  induction hosts with
  | nil => rfl
  | cons host rest ih =>
    obtain ⟨hfresh, hrest⟩ := List.nodup_cons.mp hnodup
    rw [List.map_cons, List.filter_cons, List.find?_cons, admits_hostDaemonset]
    cases hselects : host.selects node with
    | false =>
      simp only [Bool.false_eq_true, if_false]
      exact ih hrest
    | true =>
      -- no other host has this name
      have hnone : rest.find? (·.selects node) = none := by
        rw [List.find?_eq_none]
        intro other hother hsel
        exact hfresh (List.mem_map.mpr ⟨other, hother, name_eq_of_selects hsel hselects⟩)
      simp only [if_true, List.map_cons, ih hrest, hnone]
      rfl

variable [DecidableEq C]

/-- Distinct labels are kept apart from exactly the labels after them. -/
theorem labelDaemonsets_cons {hosts : List (HostData C)} {label : LabelData C}
    {rest : List (LabelData C)} (hnodup : (label :: rest).Nodup) :
    labelDaemonsets mergeOverwrite conf hosts (label :: rest) (label :: rest) =
      labelDaemonset mergeOverwrite conf hosts rest label ::
        labelDaemonsets mergeOverwrite conf hosts rest rest := by
  have hothers : (label :: rest).filter (fun other => other ≠ label) = rest := by
    rw [List.filter_cons_of_neg (by simp), List.filter_eq_self]
    intro other hother
    simp only [decide_eq_true_eq]
    rintro rfl
    exact (List.nodup_cons.mp hnodup).1 hother
  rw [labelDaemonsets, hothers]

/-- Among the labels, the last one that selects the node runs, away from the hosts. -/
theorem admitted_labels {hosts : List (HostData C)} {labels : List (LabelData C)}
    (hnodup : labels.Nodup) (hhosts : hosts.find? (·.selects node) = none) :
    ((labelDaemonsets mergeOverwrite conf hosts labels labels).filter (·.admits node)).map (·.conf) =
      ((labels.reverse.find? (·.selects node)).map
        fun label => mergeOverwrite conf label.conf).toList := by
  have hall : hosts.all (fun host => !host.selects node) = true := by
    simpa using List.find?_eq_none.mp hhosts
  induction labels with
  | nil => rfl
  | cons label rest ih =>
    have hrest := ih (List.nodup_cons.mp hnodup).2
    rw [labelDaemonsets_cons mergeOverwrite conf hnodup, List.filter_cons, admits_labelDaemonset,
      hall, Bool.and_true, List.reverse_cons, List.find?_append]
    cases hlater : rest.reverse.find? (·.selects node) with
    | some later =>
      -- a later label selects the node too
      have hmem : later ∈ rest := List.mem_reverse.mp (List.mem_of_find?_eq_some hlater)
      have hselects : later.selects node = true :=
        List.find?_some (p := fun label : LabelData C => label.selects node) hlater
      have hnot : rest.all (fun other => !other.selects node) = false := by
        rw [List.all_eq_false]
        exact ⟨later, hmem, by simp [hselects]⟩
      rw [hlater] at hrest
      simp only [hnot, Bool.and_false, Bool.false_eq_true, if_false, hrest, Option.some_or]
    | none =>
      have hnone : rest.all (fun other => !other.selects node) = true := by
        simpa using List.find?_eq_none.mp hlater
      rw [hlater] at hrest
      rw [hnone, Bool.and_true, Option.none_or, List.find?_cons]
      cases hselects : label.selects node with
      | false => simpa using hrest
      | true => simpa [labelDaemonset] using hrest

/-- On a host with its own DaemonSet no label's runs. -/
theorem admitted_labels_on_host {hosts : List (HostData C)} {host : HostData C}
    (hmem : host ∈ hosts) (hselects : host.selects node = true)
    (labelList labels : List (LabelData C)) :
    (labelDaemonsets mergeOverwrite conf hosts labelList labels).filter (·.admits node) = [] := by
  have hnot : hosts.all (fun host => !host.selects node) = false := by
    rw [List.all_eq_false]
    exact ⟨host, hmem, by simp [hselects]⟩
  induction labels generalizing labelList with
  | nil => rfl
  | cons label rest ih =>
    simp only [labelDaemonsets]
    rw [List.filter_cons_of_neg, ih]
    simp [admits_labelDaemonset, hnot]

end Lists

/-- On every node exactly one DaemonSet runs, with the configuration meant for the node. An entry
of overrides has a host or a label. -/
theorem one_daemonset_per_node [DecidableEq C] (mergeOverwrite : C → C → C) (conf : C)
    (overrides : List (String × Overrides C)) (rootName : String)
    (hsome : ∀ o, overrides.lookup rootName = some o → o.hosts ≠ [] ∨ o.labels ≠ [])
    (hhosts : ∀ o, overrides.lookup rootName = some o → (o.hosts.map (·.name)).Nodup)
    (hlabels : ∀ o, overrides.lookup rootName = some o → o.labels.Nodup) (node : NodeLabels) :
    ((daemonsetOverrides mergeOverwrite conf overrides rootName).filter (·.admits node)).map
      (·.conf) = [nodeConf mergeOverwrite conf overrides rootName node] := by
  unfold daemonsetOverrides nodeConf
  cases hlookup : overrides.lookup rootName with
  | none => rfl
  | some o =>
    simp only [Option.bind_some, overriddenDaemonsets, precedent, List.filter_append,
      List.map_append, List.filter_singleton, admits_defaultDaemonset conf node (hsome o hlookup),
      admitted_hosts mergeOverwrite conf node (hhosts o hlookup)]
    cases hhost : o.hosts.find? (·.selects node) with
    | some host =>
      have hmem := List.mem_of_find?_eq_some hhost
      have hselects : host.selects node = true :=
        List.find?_some (p := fun host : HostData C => host.selects node) hhost
      have hnot : o.hosts.all (fun host => !host.selects node) = false := by
        rw [List.all_eq_false]
        exact ⟨host, hmem, by simp [hselects]⟩
      rw [admitted_labels_on_host mergeOverwrite conf node hmem hselects, hnot]
      rfl
    | none =>
      have hall : o.hosts.all (fun host => !host.selects node) = true := by
        simpa using List.find?_eq_none.mp hhost
      rw [admitted_labels mergeOverwrite conf node (hlabels o hlookup) hhost, hall]
      cases hlabel : o.labels.reverse.find? (·.selects node) with
      | some label =>
        have hnot : o.labels.all (fun label => !label.selects node) = false := by
          rw [List.all_eq_false]
          refine ⟨label, List.mem_reverse.mp (List.mem_of_find?_eq_some hlabel), ?_⟩
          simpa using List.find?_some (p := fun label : LabelData C => label.selects node) hlabel
        rw [hnot]
        rfl
      | none =>
        have hnone : o.labels.all (fun label => !label.selects node) = true := by
          simpa using List.find?_eq_none.mp hlabel
        rw [hnone]
        rfl

/-- Two overlapping labels and a host: the host wins, then the later label. -/
def computeOverrides : List (String × Overrides (List String)) :=
  [("nova_compute",
    { hosts := [⟨"compute-0", ["host"]⟩]
      labels := [⟨⟨"cpu", ["amd", "intel"]⟩, ["cpu"]⟩, ⟨⟨"cpu", ["amd"]⟩, ["amd"]⟩] })]

/-- The labels of a node with an AMD processor. -/
def amdNode : NodeLabels := fun key =>
  if key = "cpu" then some "amd" else if key = "kubernetes.io/hostname" then some "compute-1"
  else none

theorem one_daemonset_per_node_amd :
    ((daemonsetOverrides (· ++ ·) [] computeOverrides "nova_compute").filter
      (·.admits amdNode)).map (·.conf) = [["amd"]] := by
  have h := one_daemonset_per_node (· ++ ·) [] computeOverrides "nova_compute"
    (by rintro o ⟨⟩; simp) (by rintro o ⟨⟩; decide) (by rintro o ⟨⟩; decide) amdNode
  exact h.trans (by decide)

end OpenstackBlueprint.HelmToolkit
