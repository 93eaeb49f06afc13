import OpenstackBlueprint.Gates.SameNode

/-!
# What the same-node gate passes

A run that returns 0 has looked at the pairs within each chart only. Of the
mismatches it lets through all are declared if and only if those between two
charts are, and every dependency can be read if and only if those of the waiters
without a node selector can (`undeclared_caught_iff`). A declared entry that
describes no pair any more is reported only while other pairs of its names are
found, and only if no other entry of its names is declared before it
(`stale_reported_iff`).
-/

namespace OpenstackBlueprint.Theorems.SameNodeGate

open Kit Gates.SameNode

variable {loads : String → Option Value} {declFile : String} {decl : Option (List RawEntry)}
  {charts : Charts}

/-! ## Undeclared mismatches -/

/-- The chart renders the workload. -/
def Renders (charts : Charts) (c : String) (w : Workload) : Prop :=
  ∃ docs, charts.get? c = some (some docs) ∧ w ∈ workloads docs

/-- The requested labels, at least one, are among the labels. -/
def Includes (labels : Labels) (want : List (String × Value)) : Prop :=
  want ≠ [] ∧ ∀ f ∈ want, ∃ s, f.2 = .str s ∧ labels.get? f.1 = some s

/-- The workload `w` of the chart `c` waits for `t` of the chart `c'` on its own node,
and the two are scheduled by different node selectors. -/
structure Mismatch (loads : String → Option Value) (charts : Charts) (c : String) (w : Workload)
    (c' : String) (t : Workload) : Prop where
  waiter : Renders charts c w
  target : Renders charts c' t
  request : ∃ req want, Requests loads w req ∧ requiresSameNode req = true ∧
    requestedLabels req = .obj want ∧ Includes t.labels want
  differ : w.selector.same t.selector = false

/-- Waiter and target as a pair. -/
def pairOf (w t : Workload) : Pair := ⟨w.name, w.selector, t.name, t.selector⟩

/-- The declaration has an entry of the pair, with both node selectors. -/
def Declared (decl : Option (List RawEntry)) (c : String) (p : Pair) : Prop :=
  ∃ r ∈ decl.getD [], ∃ e, checkEntry r = .ok e ∧ e.Matches c p

theorem hasLabel_of_includes {labels : Labels} {want : List (String × Value)}
    (h : Includes labels want) : (want.all fun f => hasLabel labels f.1 f.2) = true := by
  rw [List.all_eq_true]
  intro f hf
  obtain ⟨s, hs, hget⟩ := h.2 f hf
  unfold hasLabel
  rw [hget, hs]
  exact beq_self_eq_true s

theorem mem_requestPairs {index : List Workload} {w t : Workload} {req want : List (String × Value)}
    (ht : t ∈ index) (hrequires : requiresSameNode req = true)
    (hlabels : requestedLabels req = .obj want) (hincludes : Includes t.labels want) :
    ∃ ps, requestPairs index w (.obj req) = some ps ∧ pairOf w t ∈ ps := by
  have htruthy : (Value.obj want).truthy = true := by
    simpa [Value.truthy] using hincludes.1
  have hempty : want.isEmpty = false := by simpa using hincludes.1
  unfold requestPairs Value.orElse
  dsimp only
  rw [if_pos hrequires, hlabels, if_pos htruthy]
  refine ⟨_, rfl, List.mem_map.mpr ⟨t, List.mem_filter.mpr ⟨ht, ?_⟩, rfl⟩⟩
  rw [hempty, hasLabel_of_includes hincludes]
  rfl

section Returned

variable (hmapped : ∀ c docs, charts.get? c = some (some docs) →
  ∀ w ∈ workloads docs, ∀ req, Requests loads w req → LabelsMapped req)

include hmapped

theorem derived_of_valuePairs {c : String} {docs : List Doc}
    (hdocs : charts.get? c = some (some docs)) {w : Workload} (hw : w ∈ workloads docs)
    {value : String} (hvalue : value ∈ w.dependencies) {ps : List Pair}
    (hps : valuePairs loads (workloads docs) w value = some ps) {p : Pair} (hp : p ∈ ps) :
    Derived loads charts c p := by
  obtain ⟨pairs, hpairs⟩ := Option.isSome_iff_exists.mp (pairsIn_isSome.mpr (hmapped c docs hdocs))
  exact ⟨docs, pairs, hdocs, hpairs, (mem_pairsIn hpairs).mpr ⟨w, hw, value, hvalue, ps, hps, hp⟩⟩

/-- A mismatch within a chart is derived from its render. -/
theorem derived_of_mismatch {c : String} {w t : Workload} (h : Mismatch loads charts c w c t) :
    Derived loads charts c (pairOf w t) := by
  obtain ⟨docs, hdocs, hw⟩ := h.waiter
  obtain ⟨docs', hdocs', ht⟩ := h.target
  rw [hdocs] at hdocs'
  obtain rfl : docs = docs' := Option.some.inj (Option.some.inj hdocs')
  obtain ⟨req, want, ⟨value, hvalue, reqs, hloads, hreq⟩, hrequires, hlabels, hincludes⟩ := h.request
  have hvalues : valuePairs loads (workloads docs) w value =
      collect (requestPairs (workloads docs) w) reqs := by
    unfold valuePairs
    rw [hloads]
  have hsome : (collect (requestPairs (workloads docs) w) reqs).isSome := by
    rw [collect_isSome]
    intro r hr
    rw [requestPairs_isSome (List.ne_nil_of_mem hw)]
    rintro fields rfl
    exact hmapped c docs hdocs w hw fields ⟨value, hvalue, reqs, hloads, hr⟩
  obtain ⟨ps, hps⟩ := Option.isSome_iff_exists.mp hsome
  refine derived_of_valuePairs hmapped hdocs hw hvalue (hvalues.trans hps) ((mem_collect hps).mpr ?_)
  exact ⟨_, hreq, mem_requestPairs ht hrequires hlabels hincludes⟩

/-- A value that cannot be read is derived as a pair of its own. -/
theorem derived_of_unparseable {c : String} {w : Workload} (hw : Renders charts c w)
    {value : String} (hvalue : value ∈ w.dependencies) (hloads : loads value = none) :
    Derived loads charts c ⟨w.name, w.selector, unparseable, .empty⟩ := by
  obtain ⟨docs, hdocs, hw⟩ := hw
  have hps : valuePairs loads (workloads docs) w value =
      some [⟨w.name, w.selector, unparseable, .empty⟩] := by
    unfold valuePairs
    rw [hloads]
  exact derived_of_valuePairs hmapped hdocs hw hvalue hps List.mem_cons_self

end Returned

/-- A run that returns 0 has found every derived pair with differing selectors
declared. -/
theorem declared_of_returned {problems : List Problem} {lines : List String}
    (h : main loads declFile decl charts = .returned 0 problems lines) :
    (∀ c docs, charts.get? c = some (some docs) →
      ∀ w ∈ workloads docs, ∀ req, Requests loads w req → LabelsMapped req) ∧
    ∀ c p, Derived loads charts c p → p.waiterSelector.same p.targetSelector = false →
      Declared decl c p := by
  obtain ⟨raw, entries, rfl, hentries, hinspect⟩ := main_eq_returned h
  obtain ⟨hinspectable, hreported⟩ := inspect_spec.2 _ _ _ hinspect
  refine ⟨hinspectable.mapped, ?_⟩
  intro c p hderived hdiffer
  have hnone : problems = [] := by
    by_contra hne
    have hcode := hreported.code
    rw [if_neg hne] at hcode
    cases hcode
  have hkey : p.key c ∈ (declare entries).keys := by
    by_contra hkey
    obtain ⟨q, hq⟩ := Option.isSome_iff_exists.mp (problemOf_isSome.mpr ⟨hdiffer, hkey⟩)
    have hmem := (hreported.problem q).mpr ⟨c, p, hderived, hq⟩
    rw [hnone] at hmem
    exact absurd hmem List.not_mem_nil
  obtain ⟨e, he, heq⟩ := mem_keys_declare.mp hkey
  obtain ⟨r, hr, hcheck⟩ := (mem_mapM_ok hentries).mp he
  exact ⟨r, hr, e, hcheck, key_eq_iff.mp heq⟩

theorem same_empty_iff {d : Labels} : d.same .empty = true ↔ d.entries = [] := by
  constructor
  · intro h
    have hlength := (Bool.and_eq_true_iff.mp h).1
    exact List.length_eq_zero_iff.mp (eq_of_beq hlength)
  · intro h
    unfold Dict.same
    rw [h]
    rfl

/-- In a run that returns 0, every mismatch is declared and every dependency is
readable if and only if the mismatches between two charts are declared and the
workloads without a node selector carry no unreadable dependency. -/
theorem undeclared_caught_iff {problems : List Problem} {lines : List String}
    (h : main loads declFile decl charts = .returned 0 problems lines) :
    ((∀ c w c' t, Mismatch loads charts c w c' t → Declared decl c (pairOf w t)) ∧
      ∀ c w, Renders charts c w → ∀ value ∈ w.dependencies, (loads value).isSome) ↔
    ((∀ c w c' t, c' ≠ c → Mismatch loads charts c w c' t → Declared decl c (pairOf w t)) ∧
      ∀ c w, Renders charts c w → w.selector.entries = [] →
        ∀ value ∈ w.dependencies, (loads value).isSome) := by
  obtain ⟨hmapped, hdeclared⟩ := declared_of_returned h
  constructor
  · rintro ⟨hall, hread⟩
    exact ⟨fun c w c' t _ => hall c w c' t, fun c w hw _ => hread c w hw⟩
  · rintro ⟨hcross, hread⟩
    refine ⟨?_, ?_⟩
    · intro c w c' t hmismatch
      by_cases hc : c' = c
      · subst hc
        exact hdeclared _ _ (derived_of_mismatch hmapped hmismatch) hmismatch.differ
      · exact hcross c w c' t hc hmismatch
    · intro c w hw value hvalue
      by_cases hempty : w.selector.entries = []
      · exact hread c w hw hempty value hvalue
      · rw [Option.isSome_iff_ne_none]
        intro hloads
        -- the entry of such a pair would need an empty target selector
        have hdiffer : w.selector.same .empty = false := by
          rw [← Bool.not_eq_true, same_empty_iff]
          exact hempty
        obtain ⟨r, -, e, hcheck, hmatches⟩ :=
          hdeclared _ _ (derived_of_unparseable hmapped hw hvalue hloads) hdiffer
        exact (selectors_of_checkEntry hcheck).2 (same_empty_iff.mp hmatches.targetSelector)

/-- The value of libvirt's `DEPENDENCY_POD_JSON`. -/
def ovsAgentRequest : String :=
  "[\x7b\"labels\":\x7b\"application\":\"neutron\"\x7d,\"requireSameNode\":true\x7d]"

/-- `json.loads` on that value. -/
def ovsAgentLoads (value : String) : Option Value :=
  if value = ovsAgentRequest then
    some (.arr [.obj [("labels", .obj [("application", .str "neutron")]),
      ("requireSameNode", .bool true)]])
  else none

/-- libvirt waits for the ovs agent of its own node. -/
def libvirt : Workload where
  kind := .daemonSet
  name := "libvirt"
  podLabels := some (.ofList [("application", "libvirt")])
  nodeSelector := some (.ofList [("openstack-compute-node", "enabled")])
  initContainers := [[⟨"DEPENDENCY_POD_JSON", some ovsAgentRequest⟩]]

def ovsAgent : Workload where
  kind := .daemonSet
  name := "neutron-ovs-agent-default"
  podLabels := some (.ofList [("application", "neutron")])
  nodeSelector := some (.ofList [("openvswitch", "enabled")])
  initContainers := []

/-- The two are rendered by two charts. -/
def twoCharts : Charts :=
  .ofList [("libvirt", some [.workload libvirt]), ("neutron", some [.workload ovsAgent])]

theorem twoCharts_mismatch :
    Mismatch ovsAgentLoads twoCharts "libvirt" libvirt "neutron" ovsAgent where
  waiter := ⟨_, by rfl, List.mem_cons_self⟩
  target := ⟨_, by rfl, List.mem_cons_self⟩
  request := by
    refine ⟨_, _, ⟨ovsAgentRequest, List.mem_cons_self, _, if_pos rfl, List.mem_cons_self⟩, by rfl,
      by rfl, by simp, ?_⟩
    intro f hf
    rw [List.mem_singleton.mp hf]
    exact ⟨"neutron", rfl, by rfl⟩
  differ := by rfl

/-- The gate passes two charts of which one waits for a pod of the other that is
scheduled by another node label. -/
theorem cross_chart_mismatch_passes :
    ¬ ∀ (loads : String → Option Value) (declFile : String) (decl : Option (List RawEntry))
      (charts : Charts) (problems : List Problem) (lines : List String),
      main loads declFile decl charts = .returned 0 problems lines →
      (∀ c w c' t, Mismatch loads charts c w c' t → Declared decl c (pairOf w t)) ∧
        ∀ c w, Renders charts c w → ∀ value ∈ w.dependencies, (loads value).isSome := by
  intro h
  obtain ⟨hdeclared, -⟩ := h ovsAgentLoads "hack/node-colocation.yaml" (some []) twoCharts [] _
    (by rfl)
  obtain ⟨r, hr, -⟩ := hdeclared _ _ _ _ twoCharts_mismatch
  exact absurd hr List.not_mem_nil

/-- The dhcp agent waits for the ovs agent of its own node. -/
def dhcpAgent : Workload where
  kind := .daemonSet
  name := "neutron-dhcp-agent-default"
  podLabels := some (.ofList [("application", "neutron-dhcp")])
  nodeSelector := some (.ofList [("openstack-control-plane", "enabled")])
  initContainers := [[⟨"DEPENDENCY_POD_JSON", some ovsAgentRequest⟩]]

/-- Both agents are rendered by one chart. -/
def neutronChart : Charts := .ofList [("neutron", some [.workload dhcpAgent, .workload ovsAgent])]

/-- The declaration of the two agents. -/
def dhcpAgentEntry : RawEntry where
  component := some "neutron"
  waiter := some "neutron-dhcp-agent-default"
  target := some "neutron-ovs-agent-default"
  waiterSelector := some (.mapping (.ofList [("openstack-control-plane", "enabled")]))
  targetSelector := some (.mapping (.ofList [("openvswitch", "enabled")]))
  requiredRelation := some "every control-plane node carries openvswitch=enabled"
  why := some "the dhcp agent waits for an ovs agent on its own node"
  text := "(neutron)"

theorem neutronChart_docs {c : String} {docs : List Doc}
    (h : neutronChart.get? c = some (some docs)) :
    c = "neutron" ∧ docs = [.workload dhcpAgent, .workload ovsAgent] := by
  have hmem := (Dict.get?_ofList (by simp)).mp h
  simpa using List.mem_singleton.mp hmem

/-- The gate passes the chart with its declaration, and every mismatch is declared. -/
theorem dhcpAgent_declared :
    (∃ lines, main ovsAgentLoads "hack/node-colocation.yaml" (some [dhcpAgentEntry]) neutronChart =
      .returned 0 [] lines) ∧
    ∀ c w c' t, Mismatch ovsAgentLoads neutronChart c w c' t →
      Declared (some [dhcpAgentEntry]) c (pairOf w t) := by
  obtain ⟨lines, hmain⟩ : ∃ lines, main ovsAgentLoads "hack/node-colocation.yaml"
      (some [dhcpAgentEntry]) neutronChart = .returned 0 [] lines := ⟨_, by rfl⟩
  refine ⟨⟨lines, hmain⟩, ((undeclared_caught_iff hmain).mpr ⟨?_, ?_⟩).1⟩
  · rintro c w c' t hne ⟨⟨docs, hdocs, -⟩, ⟨docs', hdocs', -⟩, -, -⟩
    exact absurd ((neutronChart_docs hdocs').1.trans (neutronChart_docs hdocs).1.symm) hne
  · rintro c w ⟨docs, hdocs, hw⟩ hempty
    rw [(neutronChart_docs hdocs).2] at hw
    have hnonempty : ∀ w ∈ workloads [.workload dhcpAgent, .workload ovsAgent],
        w.selector.entries ≠ [] := by decide
    exact absurd hempty (hnonempty w hw)

/-! ## Stale declarations -/

variable {raw : List RawEntry} {entries : List Entry}

/-- The entry describes a pair that is derived from the renders. -/
def Fresh (loads : String → Option Value) (charts : Charts) (e : Entry) : Prop :=
  ∃ c p, Derived loads charts c p ∧ e.Matches c p

/-- The entry has the names of the pair. -/
def SameNames (e : Entry) (c : String) (p : Pair) : Prop :=
  e.component = c ∧ e.waiter = p.waiter ∧ e.target = p.target

/-- The problem says that the declaration of these names is out of date, and quotes the node
selectors of the entry. -/
def CallsStale (q : Problem) (e : Entry) : Prop :=
  ∃ c p was, q = .relabelled c p was ∧ SameNames e c p ∧ was.key = e.key

/-- Of the declared entries with its names the entry is the first, repetitions of it apart. -/
def FirstOfNames (entries : List Entry) (e : Entry) : Prop :=
  ∃ first, (entries.find? fun d => d.key.names = e.key.names) = some first ∧ first.key = e.key

/-- `main` returns 0 or 1, 0 only if every entry is fresh, and otherwise 1 with a line
for each entry that is not. -/
def StaleReported (loads : String → Option Value) (declFile : String) (raw : List RawEntry)
    (charts : Charts) (entries : List Entry) : Prop :=
  ∃ code problems lines, main loads declFile (some raw) charts = .returned code problems lines ∧
    (code = 0 ∨ code = 1) ∧ (code = 0 → ∀ e ∈ entries, Fresh loads charts e) ∧
    ∀ e ∈ entries, ¬ Fresh loads charts e →
      code = 1 ∧ ∃ q ∈ problems, CallsStale q e ∧ "  " ++ q.text ∈ lines

/-- Some chart renders, the labels of every request are a mapping, pairs of the names
of every entry are still found, and when the entry is not fresh it is the first of
its names and one of those pairs is undeclared and has differing selectors. -/
structure NamesFound (loads : String → Option Value) (charts : Charts) (entries : List Entry) :
    Prop where
  rendered : ∃ c docs, charts.get? c = some (some docs)
  mapped : ∀ c docs, charts.get? c = some (some docs) →
    ∀ w ∈ workloads docs, ∀ req, Requests loads w req → LabelsMapped req
  names : ∀ e ∈ entries, ∃ c p, Derived loads charts c p ∧ SameNames e c p
  undeclared : ∀ e ∈ entries, ¬ Fresh loads charts e → FirstOfNames entries e ∧
    ∃ c p, Derived loads charts c p ∧ SameNames e c p ∧
      p.waiterSelector.same p.targetSelector = false ∧ ∀ e' ∈ entries, ¬ e'.Matches c p

theorem names_eq_iff {e : Entry} {c : String} {p : Pair} :
    (p.key c).names = e.key.names ↔ SameNames e c p := by
  unfold Key.names Pair.key Entry.key SameNames
  simp only [Prod.mk.injEq]
  exact ⟨fun h => ⟨h.1.symm, h.2.1.symm, h.2.2.symm⟩, fun h => ⟨h.1.symm, h.2.1.symm, h.2.2.symm⟩⟩

theorem inspectable_iff {charts : Charts} :
    Inspectable loads charts (declare entries) ↔
      (∃ c docs, charts.get? c = some (some docs)) ∧
      (∀ c docs, charts.get? c = some (some docs) →
        ∀ w ∈ workloads docs, ∀ req, Requests loads w req → LabelsMapped req) ∧
      ∀ e ∈ entries, ∃ c p, Derived loads charts c p ∧ SameNames e c p := by
  have hnames : (∀ k ∈ (declare entries).keys, ∃ c p, Derived loads charts c p ∧
      (p.key c).names = k.names) ↔
      ∀ e ∈ entries, ∃ c p, Derived loads charts c p ∧ SameNames e c p := by
    simp only [mem_keys_declare, forall_exists_index, and_imp, forall_apply_eq_imp_iff₂,
      names_eq_iff]
  rw [← hnames]
  exact ⟨fun h => ⟨h.rendered, h.mapped, h.names⟩, fun h => ⟨h.1, h.2.1, h.2.2⟩⟩

/-- The line about a pair quotes the first declared entry of its names. -/
theorem find?_declare (entries : List Entry) (names : String × String × String) :
    (((declare entries).entries.find? fun d => d.1.names = names).map fun d => d.2.key) =
      (entries.find? fun e => e.key.names = names).map Entry.key := by
  have hvalue : ∀ d, ((declare entries).entries.find? fun d => d.1.names = names) = some d →
      d.2.key = d.1 := by
    intro d hd
    obtain ⟨e, -, rfl⟩ := List.mem_map.mp
      (Dict.mem_of_mem_entries_ofList (List.mem_of_find?_eq_some hd))
    rfl
  have hkeys := Dict.find?_keys_ofList (entries.map fun e => (e.key, e)) fun k => k.names = names
  unfold Dict.keys at hkeys
  rw [List.map_map, List.find?_map, List.find?_map] at hkeys
  refine Eq.trans (Option.map_congr fun d hd => ?_) hkeys
  exact hvalue d hd

/-- A problem calls an entry stale when it is about an undeclared pair of its
names, of which the entry is the first. -/
theorem callsStale_iff {e : Entry} {c : String} {p : Pair} :
    (∃ q, problemOf (declare entries) (c, p) = some q ∧ CallsStale q e) ↔
      SameNames e c p ∧ p.waiterSelector.same p.targetSelector = false ∧
        (∀ e' ∈ entries, ¬ e'.Matches c p) ∧ FirstOfNames entries e := by
  have hkey : p.key c ∉ (declare entries).keys ↔ ∀ e' ∈ entries, ¬ e'.Matches c p := by
    simp only [mem_keys_declare, key_eq_iff, not_exists, not_and]
  have hfirst := find?_declare entries (p.key c).names
  rw [← hkey]
  constructor
  · rintro ⟨q, hq, c', p', was, rfl, hnames, hwas⟩
    obtain ⟨hdiffer, hnone⟩ := problemOf_isSome.mp (Option.isSome_of_eq_some hq)
    unfold problemOf at hq
    rw [if_neg (by simp [hdiffer]), if_neg hnone] at hq
    split at hq
    · rename_i d hd
      obtain ⟨rfl, rfl, rfl⟩ := Problem.relabelled.inj (Option.some.inj hq)
      dsimp only at hd
      rw [hd, Option.map_some, names_eq_iff.mpr hnames] at hfirst
      obtain ⟨first, hfind, hfirstKey⟩ := Option.map_eq_some_iff.mp hfirst.symm
      exact ⟨hnames, hdiffer, hnone, first, hfind, hfirstKey.trans hwas⟩
    · cases hq
  · rintro ⟨hnames, hdiffer, hnone, first, hfind, hfirstKey⟩
    rw [names_eq_iff.mpr hnames, hfind, Option.map_some] at hfirst
    obtain ⟨d, hd, hdkey⟩ := Option.map_eq_some_iff.mp hfirst
    refine ⟨.relabelled c p d.2, ?_, c, p, d.2, rfl, hnames, hdkey.trans hfirstKey⟩
    unfold problemOf
    rw [if_neg (by simp [hdiffer]), if_neg hnone, names_eq_iff.mpr hnames, hd]

/-- With a well-formed declaration, stale entries are reported if and only if the
names of every entry are still found and an entry that is not fresh is the first of its
names, with an undeclared pair of differing selectors. -/
theorem stale_reported_iff (hentries : raw.mapM checkEntry = .ok entries) :
    StaleReported loads declFile raw charts entries ↔ NamesFound loads charts entries := by
  constructor
  · rintro ⟨code, problems, lines, hmain, -, -, hstale⟩
    obtain ⟨raw', entries', hraw, hentries', hinspect⟩ := main_eq_returned hmain
    obtain rfl := Option.some.inj hraw
    rw [hentries] at hentries'
    obtain rfl := Except.ok.inj hentries'
    obtain ⟨hinspectable, hreported⟩ := inspect_spec.2 _ _ _ hinspect
    obtain ⟨hrendered, hmapped, hnames⟩ := inspectable_iff.mp hinspectable
    refine ⟨hrendered, hmapped, hnames, ?_⟩
    intro e he hfresh
    obtain ⟨-, q, hq, hcalls, -⟩ := hstale e he hfresh
    obtain ⟨c, p, hderived, hproblem⟩ := (hreported.problem q).mp hq
    obtain ⟨hnames, hdiffer, hnone, hfirst⟩ := callsStale_iff.mp ⟨q, hproblem, hcalls⟩
    exact ⟨hfirst, c, p, hderived, hnames, hdiffer, hnone⟩
  · intro h
    obtain ⟨code, problems, lines, hinspect⟩ :=
      inspect_spec.1 (inspectable_iff.mpr ⟨h.rendered, h.mapped, h.names⟩)
    have hreported := (inspect_spec.2 _ _ _ hinspect).2
    have hmain : main loads declFile (some raw) charts = .returned code problems lines := by
      obtain ⟨c, docs, hc⟩ := h.rendered
      have hcharts : charts.entries.isEmpty = false := by
        rw [List.isEmpty_eq_false_iff]
        exact List.ne_nil_of_mem (Dict.mem_entries_of_get? hc)
      unfold main
      dsimp only
      rw [hentries]
      dsimp only
      rw [hcharts]
      exact hinspect
    have hstale : ∀ e ∈ entries, ¬ Fresh loads charts e →
        code = 1 ∧ ∃ q ∈ problems, CallsStale q e ∧ "  " ++ q.text ∈ lines := by
      intro e he hfresh
      obtain ⟨hfirst, c, p, hderived, hnames, hdiffer, hnone⟩ := h.undeclared e he hfresh
      obtain ⟨q, hproblem, hcalls⟩ := callsStale_iff.mpr ⟨hnames, hdiffer, hnone, hfirst⟩
      have hq : q ∈ problems := (hreported.problem q).mpr ⟨c, p, hderived, hproblem⟩
      refine ⟨?_, q, hq, hcalls, hreported.printed q hq⟩
      rw [hreported.code, if_neg (List.ne_nil_of_mem hq)]
    refine ⟨code, problems, lines, hmain, ?_, ?_, hstale⟩
    · rw [hreported.code]
      split
      · exact .inl rfl
      · exact .inr rfl
    · rintro rfl e he
      by_contra hfresh
      cases (hstale e he hfresh).1

/-- The entry of the two agents, checked. -/
def dhcpAgentDeclared : Entry where
  component := "neutron"
  waiter := "neutron-dhcp-agent-default"
  target := "neutron-ovs-agent-default"
  waiterSelector := .ofList [("openstack-control-plane", "enabled")]
  targetSelector := .ofList [("openvswitch", "enabled")]
  requiredRelation := "every control-plane node carries openvswitch=enabled"
  why := "the dhcp agent waits for an ovs agent on its own node"

theorem dhcpAgent_derived :
    Derived ovsAgentLoads neutronChart "neutron" (pairOf dhcpAgent ovsAgent) :=
  ⟨_, _, by rfl, by rfl, List.mem_cons_self⟩

theorem dhcpAgentDeclared_fresh : Fresh ovsAgentLoads neutronChart dhcpAgentDeclared :=
  ⟨_, _, dhcpAgent_derived, rfl, rfl, rfl, by rfl, by rfl⟩

/-- The gate reports nothing stale about the chart with its declaration. -/
theorem dhcpAgent_not_stale :
    StaleReported ovsAgentLoads "hack/node-colocation.yaml" [dhcpAgentEntry] neutronChart
      [dhcpAgentDeclared] := by
  have hfresh : ∀ e ∈ [dhcpAgentDeclared], Fresh ovsAgentLoads neutronChart e := by
    intro e he
    rw [List.mem_singleton.mp he]
    exact dhcpAgentDeclared_fresh
  refine (stale_reported_iff (by rfl)).mpr ⟨⟨"neutron", _, by rfl⟩, ?_, ?_, ?_⟩
  · rintro c docs hdocs w hw req ⟨value, hvalue, reqs, hloads, hreq⟩
    have hreqs : reqs = [.obj [("labels", .obj [("application", .str "neutron")]),
        ("requireSameNode", .bool true)]] := by
      unfold ovsAgentLoads at hloads
      split at hloads
      · exact (Value.arr.inj (Option.some.inj hloads)).symm
      · cases hloads
    rw [hreqs, List.mem_singleton, Value.obj.injEq] at hreq
    rw [hreq]
    exact fun _ _ => rfl
  · intro e he
    rw [List.mem_singleton.mp he]
    exact ⟨_, _, dhcpAgent_derived, rfl, rfl, rfl⟩
  · exact fun e he hnot => absurd (hfresh e he) hnot

/-- The chart after the dhcp agent was removed. -/
def ovsChart : Charts := .ofList [("neutron", some [.workload ovsAgent])]

/-- The declaration of a removed workload ends the run with an exception. -/
theorem removed_waiter_raises :
    ¬ ∀ (loads : String → Option Value) (declFile : String) (raw : List RawEntry)
      (entries : List Entry) (charts : Charts), (∃ c docs, charts.get? c = some (some docs)) →
      raw.mapM checkEntry = .ok entries → StaleReported loads declFile raw charts entries := by
  intro h
  obtain ⟨code, problems, lines, hmain, -⟩ := h ovsAgentLoads "hack/node-colocation.yaml"
    [dhcpAgentEntry] [dhcpAgentDeclared] ovsChart ⟨"neutron", _, by rfl⟩ (by rfl)
  have hraised : main ovsAgentLoads "hack/node-colocation.yaml" (some [dhcpAgentEntry]) ovsChart =
      .raised := by rfl
  rw [hraised] at hmain
  cases hmain

end OpenstackBlueprint.Theorems.SameNodeGate
