import OpenstackBlueprint.Chart.Gate

/-!
# Node helpers (`_helpers.tpl`)

`osh.nodeReadGranted` decides whether the render may list nodes, from the
ClusterRole and ClusterRoleBinding an administrator applies.
`osh.requireNodeLabels` refuses a render whose selected components want a node
label no node carries. A refused list is an error, not an empty list, which is
why the first guards the second.
-/

namespace OpenstackBlueprint.Chart

open Kit

/-! ## The node-read guard -/

/-- `osh.nodeReaderName`. -/
def oshNodeReaderName : String := "krateo-openstack-node-reader"

/-- The group of every service account of a namespace. -/
def serviceAccountsGroup (ns : String) : String := "system:serviceaccounts:" ++ ns

/-- The test of `osh.nodeReadGranted` on one rule. -/
def coversNodeList (r : PolicyRule) : Bool :=
  (r.apiGroups.contains "" || r.apiGroups.contains "*") &&
    (r.resources.contains "nodes" || r.resources.contains "*") &&
    (r.verbs.contains "list" || r.verbs.contains "*")

/-- The test of `osh.nodeReadGranted` on one subject. -/
def bindsServiceAccounts (ns : String) (s : Subject) : Bool :=
  s.kind == "Group" && s.name == serviceAccountsGroup ns

/-- `$canList`: some rule of the node-reader role passes. -/
def nodeReaderCanList (cl : Cluster) : String :=
  ((cl.clusterRole oshNodeReaderName).elim [] (·.rules)).foldl
    (fun canList r => if coversNodeList r then "true" else canList) ""

/-- `$bound`: the node-reader binding refers to that role and some subject
passes. -/
def nodeReaderBound (top : Top) (cl : Cluster) : String :=
  match cl.clusterRoleBinding oshNodeReaderName with
  | some b =>
    if b.roleRef.name == oshNodeReaderName && b.roleRef.kind == "ClusterRole" then
      b.subjects.foldl
        (fun bound s => if bindsServiceAccounts top.releaseNamespace s then "true" else bound) ""
    else ""
  | none => ""

/-- `osh.nodeReadGranted`. -/
def oshNodeReadGranted (top : Top) (cl : Cluster) : String :=
  if nodeReaderCanList cl == "true" && nodeReaderBound top cl == "true" then "true" else ""

/-- An unnamed list of nodes at cluster scope. -/
def listNodes : Attributes where
  verb := "list"
  apiGroup := ""
  resource := "nodes"
  subresource := ""
  name := ""

/-- The node-reader binding lets this user list nodes. -/
def nodeReaderAllows (cl : Cluster) (user : UserInfo) : Bool :=
  (cl.clusterRoleBinding oshNodeReaderName).any (·.allows cl.clusterRole user listNodes)

/-- `lookup "v1" "Node" "" ""`. -/
def lookupNodes (top : Top) (cl : Cluster) : Tpl (List Node) :=
  -- the API server's decision: some other grant, or the node-reader binding
  if cl.nodesReadable ||
      nodeReaderAllows cl (serviceAccountUser top.releaseNamespace top.serviceAccount)
  then .ok cl.nodes
  else .error (.forbidden "nodes")

/-! ## The node-label precondition -/

/-- `osh.nodeLabelsWanted`. -/
def oshNodeLabelsWanted (top : Top) (sel : List String) : String :=
  join ' ' (sortAlpha (uniq (top.values.nodeLabelPreconditions.flatMap fun p =>
    (p.components.filter (sel.contains ·)).map fun _ => p.key ++ "=" ++ p.value)))

/-- Some node carries `key` with `value`; an absent label reads as `<nil>`. -/
def labelCarried (nodes : List Node) (key value : String) : Bool :=
  nodes.any fun n => tplString (n.labels.lookup key) == value

/-- `osh.nodeLabelsMissing`. A token is split at `=` and indexed twice. -/
def oshNodeLabelsMissing (top : Top) (sel : List String) (nodes : List Node) : Tpl String := do
  let missing ← (compact (splitList ' ' (oshNodeLabelsWanted top sel))).filterM fun t =>
    match splitList '=' t with
    | key :: value :: _ => .ok !(labelCarried nodes key value)
    | _ => .error (.indexOutOfRange 1)
  return join ' ' missing

/-- The selected components that want the label `t`, sorted. -/
def labelWantedBy (top : Top) (sel : List String) (t : String) : List String :=
  sortAlpha (top.values.nodeLabelPreconditions.flatMap fun p =>
    if p.key ++ "=" ++ p.value == t then p.components.filter (sel.contains ·) else [])

/-- `join ", "`. -/
def commaJoin (l : List String) : String := String.intercalate ", " l

/-- `osh.nodeLabelMessage`. -/
def oshNodeLabelMessage (top : Top) (sel : List String) (missing : String)
    (nodes : List Node) : String :=
  let tokens := compact (splitList ' ' missing)
  let lines :=
    ["", "node labels missing: none of the " ++ toString nodes.length ++
      " node(s) this release can see carries " ++ toString tokens.length ++
      " label(s) that the selected OpenStack components schedule their pods on.", ""]
    ++ tokens.map (fun t =>
      "    " ++ t ++ "  <- wanted by: " ++ commaJoin (labelWantedBy top sel t))
    ++ ["", "Label the nodes that should run those components and this render proceeds by itself on the next reconcile, with nothing to re-run:",
      "", "    kubectl label --overwrite nodes --all " ++ join ' ' tokens,
      "", "Label individual nodes instead if only some of them should run OpenStack, or deselect the components listed above through spec.enabled / spec.profile.",
      "", "Nothing in the charts creates these labels. This render is refused rather than allowed to proceed because the resulting symptom is not reliably visible: a Deployment, StatefulSet or Job leaves a Pending pod saying \"node(s) didn't match Pod's node affinity/selector\", which names neither the label nor the chart, while a DaemonSet creates NO POD AT ALL -- desiredNumberScheduled=0, no Pending pod, no event. A 4-node profile=full install whose nodes carried only openstack-control-plane ran 227 pods and had no nova-compute, no libvirt and no openvswitch, with nothing anywhere reporting a problem."]
  String.intercalate "\n" lines

/-- `osh.requireNodeLabels`: fails when nodes are visible and one of the wanted
labels is carried by none of them. -/
def oshRequireNodeLabels (top : Top) (sel : List String) (nodes : List Node) : Tpl Unit := do
  if nodes.length > 0 then
    let missing ← oshNodeLabelsMissing top sel nodes
    if !(missing == "") then
      throw (.fail (oshNodeLabelMessage top sel missing nodes))

end OpenstackBlueprint.Chart
