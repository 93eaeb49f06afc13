import OpenstackBlueprint.Emitter.Usage

/-!
# Usage rows do not overwrite each other

Within a run a row is determined by its resource and its metric
(`nodup_keys_collectUsage`), whatever the requests answer. Across runs the id of
a row is determined by what the row says, through the NUL-terminated preimage
and the timestamp of the window. The floating IP rows count every listed
floating IP of a listed project once.
-/

namespace OpenstackBlueprint.Theorems.UsageRecords

open Kit Emitter UsageRun

variable {sha256 : List UInt8 → String} {floatStr : String → Option ℚ} {run : UsageRun}
  {window : Int × Int} {nova cinder : Option String} {rows : List UsageRow}

/-! ## Rows of one run -/

/-- What tells the rows of a run apart. -/
def key (r : UsageRow) : String × String := (r.resourceId, r.metric)

theorem nodup_keys_of_about {resourceId tenant : String} {metrics : List String}
    (h : run.About sha256 window resourceId tenant metrics rows) (hnodup : metrics.Nodup) :
    (rows.map key).Nodup := by
  have hmetric := h.metric.nodup hnodup
  have hsnd : rows.map UsageRow.metric = (rows.map key).map Prod.snd := by
    rw [List.map_map]
    rfl
  rw [hsnd] at hmetric
  exact List.Nodup.of_map Prod.snd hmetric

theorem nodup_projectMetrics : projectMetrics.Nodup := by decide

theorem mem_projectLoop {ps : List Project}
    (h : run.projectLoop sha256 floatStr window nova cinder ps = some rows) :
    ∀ r ∈ rows, run.RowOf sha256 window r ∧ r.metric ∈ projectMetrics ∧
      r.resourceId ∈ ps.map Project.id := by
  induction ps generalizing rows with
  | nil =>
    obtain rfl := Option.some.inj h
    exact fun r hr => absurd hr List.not_mem_nil
  | cons p ps ih =>
    obtain ⟨first, hfirst, h⟩ := Option.bind_eq_some_iff.mp h
    obtain ⟨rest, hrest, h⟩ := Option.bind_eq_some_iff.mp h
    obtain rfl := Option.some.inj h
    have habout := about_projectRows hfirst
    intro r hr
    rcases List.mem_append.mp hr with hr | hr
    · obtain ⟨hof, hresource, -⟩ := habout.rowOf r hr
      exact ⟨hof, habout.mem_metrics hr, hresource ▸ List.mem_cons_self⟩
    · obtain ⟨hof, hmetric, hresource⟩ := ih hrest r hr
      exact ⟨hof, hmetric, List.mem_cons_of_mem _ hresource⟩

/-- The rows of projects with different ids have different keys. -/
theorem nodup_keys_projectLoop {ps : List Project}
    (h : run.projectLoop sha256 floatStr window nova cinder ps = some rows)
    (hids : (ps.map Project.id).Nodup) : (rows.map key).Nodup := by
  induction ps generalizing rows with
  | nil =>
    obtain rfl := Option.some.inj h
    exact List.nodup_nil
  | cons p ps ih =>
    obtain ⟨first, hfirst, h⟩ := Option.bind_eq_some_iff.mp h
    obtain ⟨rest, hrest, h⟩ := Option.bind_eq_some_iff.mp h
    obtain rfl := Option.some.inj h
    have habout := about_projectRows hfirst
    obtain ⟨hp, hids⟩ := List.nodup_cons.mp hids
    rw [List.map_append]
    refine List.Nodup.append (nodup_keys_of_about habout nodup_projectMetrics) (ih hrest hids) ?_
    -- a later row is about a later project
    intro k hk hk'
    obtain ⟨r, hr, rfl⟩ := List.mem_map.mp hk
    obtain ⟨r', hr', heq⟩ := List.mem_map.mp hk'
    have hresource : r'.resourceId = p.id :=
      (Prod.ext_iff.mp heq).1.trans (habout.rowOf r hr).2.1
    exact hp (hresource ▸ (mem_projectLoop hrest r' hr').2.2)

/-- Every metric the emitter writes. -/
def usageMetrics : List String := projectMetrics ++ hypervisorMetrics ++ poolMetrics

/-- The rows of a run say what their id is made of, in the window of the run. -/
theorem mem_collectUsage (h : run.collectUsage sha256 floatStr = some rows) :
    ∃ window, collectUsageWindow (run.environ "INTERVAL") run.now = .ok window ∧
      ∀ r ∈ rows, run.RowOf sha256 window r ∧ r.metric ∈ usageMetrics := by
  obtain ⟨window, _, _, _, _, _, _, hwindow, -, hloop, rfl, hhypervisors, hpools⟩ :=
    collectUsage_eq h
  refine ⟨window, hwindow, ?_⟩
  intro r hr
  rw [List.mem_append, List.mem_append] at hr
  unfold usageMetrics
  rw [List.mem_append, List.mem_append]
  rcases hr with (hr | hr) | hr
  · obtain ⟨hof, hmetric, -⟩ := mem_projectLoop hloop r hr
    exact ⟨hof, .inl (.inl hmetric)⟩
  · exact ⟨(hhypervisors.rowOf r hr).1, .inl (.inr (hhypervisors.mem_metrics hr))⟩
  · exact ⟨(hpools.rowOf r hr).1, .inr (hpools.mem_metrics hr)⟩

/-- Rows with metrics from two lists that share none have different keys. -/
theorem nodup_keys_append {l l' : List UsageRow} {metrics metrics' : List String}
    (hl : (l.map key).Nodup) (hl' : (l'.map key).Nodup) (h : ∀ r ∈ l, r.metric ∈ metrics)
    (h' : ∀ r ∈ l', r.metric ∈ metrics') (hdisjoint : ∀ m ∈ metrics, m ∉ metrics') :
    ((l ++ l').map key).Nodup := by
  rw [List.map_append]
  refine List.Nodup.append hl hl' ?_
  intro k hk hk'
  obtain ⟨r, hr, rfl⟩ := List.mem_map.mp hk
  obtain ⟨r', hr', heq⟩ := List.mem_map.mp hk'
  have hmetric : r'.metric = r.metric := (Prod.ext_iff.mp heq).2
  exact hdisjoint _ (h r hr) (hmetric ▸ h' r' hr')

theorem nodup_keys_collectUsage (h : run.collectUsage sha256 floatStr = some rows)
    (hids : ∀ ps, run.projects = some ps → (ps.map Project.id).Nodup) :
    (rows.map key).Nodup := by
  obtain ⟨window, _, _, ps, perProject, hypervisorRows, _, -, hprojects, hloop, rfl, hhypervisors,
    hpools⟩ := collectUsage_eq h
  have hproject := nodup_keys_projectLoop hloop (hids ps hprojects)
  have hprojectMetric := fun r hr => (mem_projectLoop hloop r hr).2.1
  have hhypervisorMetric := fun r hr => hhypervisors.mem_metrics (r := r) hr
  have hboth := nodup_keys_append hproject (nodup_keys_of_about hhypervisors (by decide))
    hprojectMetric hhypervisorMetric (by decide)
  have hbothMetric : ∀ r ∈ perProject ++ hypervisorRows,
      r.metric ∈ projectMetrics ++ hypervisorMetrics := by
    intro r hr
    rcases List.mem_append.mp hr with hr | hr
    · exact List.mem_append_left _ (hprojectMetric r hr)
    · exact List.mem_append_right _ (hhypervisorMetric r hr)
  exact nodup_keys_append hboth (nodup_keys_of_about hpools (by decide)) hbothMetric
    (fun r hr => hpools.mem_metrics hr) (by decide)

/-! ## Ids across runs -/

/-- The parts of the id of a row. -/
def idParts (run : UsageRun) (text : String) (r : UsageRow) : List String :=
  [org run.environ, r.tenant, service run.environ, r.resourceId, r.metric, text]

/-- The parts the ids of the rows of a run are made of. -/
def usedParts (run : UsageRun) (rows : List UsageRow) : Set (List String) :=
  {parts | ∃ window text, collectUsageWindow (run.environ "INTERVAL") run.now = .ok window ∧
    fmtRfc3339 window.1 = some text ∧ ∃ r ∈ rows, parts = idParts run text r}

/-- The parts that come from outside hold no NUL. -/
structure NulFreeParts (run : UsageRun) (rows : List UsageRow) : Prop where
  org : NulFree (org run.environ)
  service : NulFree (service run.environ)
  row : ∀ r ∈ rows, NulFree r.tenant ∧ NulFree r.resourceId

theorem nulFree_usageMetrics : ∀ metric ∈ usageMetrics, NulFree metric := by decide

/-- Two timestamps of one row: the one in its id and the one in its window. -/
theorem window_of_rowOf {r : UsageRow} (h : run.RowOf sha256 window r) :
    ∃ text, fmtRfc3339 window.1 = some text ∧ fmt window.1 = some r.windowStart ∧
      r.recordId = deterministicId sha256 (idParts run text r) := by
  obtain ⟨text, htext, hid⟩ := h.recordId
  exact ⟨text, htext, h.windowStart, hid⟩

theorem nulFree_idParts {r : UsageRow} {text : String} (hnul : NulFreeParts run rows)
    (hr : r ∈ rows) (hmetric : r.metric ∈ usageMetrics) (htext : fmtRfc3339 window.1 = some text) :
    ∀ p ∈ idParts run text r, NulFree p := by
  obtain ⟨htenant, hresource⟩ := hnul.row r hr
  intro p hp
  simp only [idParts, List.mem_cons, List.not_mem_nil, or_false] at hp
  rcases hp with rfl | rfl | rfl | rfl | rfl | rfl
  · exact hnul.org
  · exact htenant
  · exact hnul.service
  · exact hresource
  · exact nulFree_usageMetrics _ hmetric
  · exact nul_not_mem_fmtRfc3339 htext

section TwoRuns

variable {run' : UsageRun} {rows' : List UsageRow}

/-- Rows of two runs have one id exactly when they say the same. -/
theorem recordId_eq_iff (horg : org run.environ = org run'.environ)
    (hservice : service run.environ = service run'.environ)
    (h : run.collectUsage sha256 floatStr = some rows)
    (h' : run'.collectUsage sha256 floatStr = some rows') (hnul : NulFreeParts run rows)
    (hnul' : NulFreeParts run' rows')
    (hinj : NoCollision sha256 (usedParts run rows ∪ usedParts run' rows'))
    {r r' : UsageRow} (hr : r ∈ rows) (hr' : r' ∈ rows') :
    r.recordId = r'.recordId ↔ r.tenant = r'.tenant ∧ r.resourceId = r'.resourceId ∧
      r.metric = r'.metric ∧ r.windowStart = r'.windowStart := by
  obtain ⟨window, hwindow, hrows⟩ := mem_collectUsage h
  obtain ⟨window', hwindow', hrows'⟩ := mem_collectUsage h'
  obtain ⟨hof, hmetric⟩ := hrows r hr
  obtain ⟨hof', hmetric'⟩ := hrows' r' hr'
  obtain ⟨text, htext, hstart, hid⟩ := window_of_rowOf hof
  obtain ⟨text', htext', hstart', hid'⟩ := window_of_rowOf hof'
  have hused : idParts run text r ∈ usedParts run rows ∪ usedParts run' rows' :=
    .inl ⟨window, text, hwindow, htext, r, hr, rfl⟩
  have hused' : idParts run' text' r' ∈ usedParts run rows ∪ usedParts run' rows' :=
    .inr ⟨window', text', hwindow', htext', r', hr', rfl⟩
  rw [hid, hid', deterministicId_inj hinj hused hused' (nulFree_idParts hnul hr hmetric htext)
    (nulFree_idParts hnul' hr' hmetric' htext')]
  -- both timestamps stand for the start of the window
  have hsame : text = text' ↔ r.windowStart = r'.windowStart :=
    (fmtRfc3339_inj htext htext').trans (fmt_inj hstart hstart').symm
  simp only [idParts, horg, hservice, List.cons.injEq, true_and, and_true, hsame]

end TwoRuns

/-- Ids without collisions are as different as the rows' keys. -/
theorem nodup_recordIds (h : run.collectUsage sha256 floatStr = some rows)
    (hids : ∀ ps, run.projects = some ps → (ps.map Project.id).Nodup)
    (hnul : NulFreeParts run rows) (hinj : NoCollision sha256 (usedParts run rows)) :
    (rows.map UsageRow.recordId).Nodup := by
  have hkeys := nodup_keys_collectUsage h hids
  rw [List.Nodup, List.pairwise_map] at hkeys ⊢
  refine hkeys.imp_of_mem ?_
  intro r r' hr hr' hne heq
  have hself : NoCollision sha256 (usedParts run rows ∪ usedParts run rows) := by
    rwa [Set.union_self]
  obtain ⟨-, hresource, hmetric, -⟩ :=
    (recordId_eq_iff rfl rfl h h hnul hnul hself hr hr').mp heq
  exact hne (Prod.ext hresource hmetric)

/-! ## Floating IPs -/

/-- The quantities of the floating IP rows, together. -/
def fipTotal (rows : List UsageRow) : ℚ :=
  ((rows.filter fun r => r.metric == "floating_ips.count").map UsageRow.quantity).sum

theorem fipTotal_append (l l' : List UsageRow) : fipTotal (l ++ l') = fipTotal l + fipTotal l' := by
  unfold fipTotal
  rw [List.filter_append, List.map_append, List.sum_append]

theorem fipTotal_of_about {resourceId tenant : String} {metrics : List String}
    (h : run.About sha256 window resourceId tenant metrics rows)
    (hmetrics : "floating_ips.count" ∉ metrics) : fipTotal rows = 0 := by
  have hnone : (rows.filter fun r => r.metric == "floating_ips.count") = [] := by
    rw [List.filter_eq_nil_iff]
    intro r hr heq
    exact hmetrics (eq_of_beq heq ▸ h.mem_metrics hr)
  unfold fipTotal
  rw [hnone]
  rfl

/-- The count of a project. -/
def fipCount (run : UsageRun) (p : Project) : Nat := (run.fips.get? (.str p.id)).getD 0

theorem fipTotal_fipRows {p : Project} (h : run.fipRows sha256 floatStr window p = some rows) :
    fipTotal rows = fipCount run p := by
  unfold fipRows at h
  unfold fipCount
  split at h
  · rename_i hget
    obtain rfl := Option.some.inj h
    rw [hget]
    rfl
  · rename_i count hget
    obtain ⟨r, hrow, hrows⟩ := Option.bind_eq_some_iff.mp h
    obtain rfl := Option.some.inj hrows
    obtain ⟨-, -, -, hmetric, hquantity⟩ := row_spec hrow
    obtain hquantity : (count : ℚ) = r.quantity := Option.some.inj hquantity
    rw [hget]
    simp [fipTotal, hmetric, hquantity]

theorem fipTotal_projectLoop {ps : List Project}
    (h : run.projectLoop sha256 floatStr window nova cinder ps = some rows) :
    fipTotal rows = ((ps.map (fipCount run)).sum : Nat) := by
  induction ps generalizing rows with
  | nil =>
    obtain rfl := Option.some.inj h
    rfl
  | cons p ps ih =>
    obtain ⟨first, hfirst, h⟩ := Option.bind_eq_some_iff.mp h
    obtain ⟨rest, hrest, h⟩ := Option.bind_eq_some_iff.mp h
    obtain rfl := Option.some.inj h
    obtain ⟨_, _, _, rfl, hnova, hcinder, hfip⟩ := projectRows_eq hfirst
    rw [fipTotal_append, fipTotal_append, fipTotal_append, ih hrest, fipTotal_fipRows hfip,
      fipTotal_of_about hnova (by decide), fipTotal_of_about hcinder (by decide), List.map_cons,
      List.sum_cons]
    push_cast
    ring

/-- The counts of a run are its floating IP rows'. -/
theorem fipTotal_collectUsage (h : run.collectUsage sha256 floatStr = some rows) :
    ∃ ps, run.projects = some ps ∧ fipTotal rows = ((ps.map (fipCount run)).sum : Nat) := by
  obtain ⟨_, _, _, ps, _, _, _, -, hprojects, hloop, rfl, hhypervisors, hpools⟩ := collectUsage_eq h
  refine ⟨ps, hprojects, ?_⟩
  rw [fipTotal_append, fipTotal_append, fipTotal_projectLoop hloop,
    fipTotal_of_about hhypervisors (by decide), fipTotal_of_about hpools (by decide), add_zero,
    add_zero]

/-- A count is the number of floating IPs with that owner, when counting raises
nothing. -/
theorem get?_countFips {listing : List Value} (h : ∀ fip ∈ listing, (fipOwner fip).isSome)
    (fips : Dict Value.Key Nat) (k : Value.Key) :
    ((countFips fips listing).get? k).getD 0 =
      (fips.get? k).getD 0 + listing.countP fun fip => fipOwner fip == some k := by
  induction listing generalizing fips with
  | nil => rfl
  | cons fip rest ih =>
    obtain ⟨hfip, hrest⟩ := List.forall_mem_cons.mp h
    obtain ⟨pid, hpid⟩ := Option.isSome_iff_exists.mp hfip
    unfold countFips
    rw [hpid]
    dsimp only
    rw [ih hrest, Dict.get?_set, List.countP_cons, hpid]
    by_cases hk : k = pid
    · subst hk
      simp
      omega
    · have hne : (some pid == some k) = false := by simpa using Ne.symm hk
      rw [if_neg hk, hne]
      simp

/-- The floating IP belongs to one of the projects. -/
def ownerListed (ps : List Project) (fip : Value) : Bool :=
  ps.any fun p => fipOwner fip == some (.str p.id)

/-- Projects with different ids share no floating IP. -/
theorem sum_countP_owner {ps : List Project} (hids : (ps.map Project.id).Nodup)
    (listing : List Value) :
    (ps.map fun p => listing.countP fun fip => fipOwner fip == some (.str p.id)).sum =
      listing.countP (ownerListed ps) := by
  induction ps with
  | nil =>
    rw [List.map_nil, List.sum_nil, eq_comm, List.countP_eq_zero]
    intro fip _
    simp [ownerListed]
  | cons p ps ih =>
    obtain ⟨hp, hids⟩ := List.nodup_cons.mp hids
    rw [List.map_cons, List.sum_cons, ih hids]
    clear ih
    induction listing with
    | nil => rfl
    | cons fip rest ih =>
      have hsplit : ownerListed (p :: ps) fip =
          (fipOwner fip == some (.str p.id) || ownerListed ps fip) := rfl
      rw [List.countP_cons, List.countP_cons, List.countP_cons, ← ih, hsplit]
      by_cases howner : fipOwner fip == some (.str p.id)
      · -- the owner is this project and no later one
        have hlater : ownerListed ps fip = false := by
          rw [ownerListed, List.any_eq_false]
          intro p' hp' heq
          have hkey := (eq_of_beq heq).symm.trans (eq_of_beq howner)
          have hid : p'.id = p.id := Value.Key.str.inj (Option.some.inj hkey)
          exact hp (hid ▸ List.mem_map_of_mem hp')
        rw [howner, hlater]
        simp
        omega
      · rw [Bool.not_eq_true] at howner
        rw [howner, Bool.false_or]
        simp
        omega

/-! ## A run returns -/

/-- What a run needs before the loop over the projects: an interval and a clock
whose window can be formatted, a catalog that can be read, and a well-formed
listing of projects. Nothing is asked of the other requests. -/
structure Starts (run : UsageRun) : Prop where
  window : ∃ window, collectUsageWindow (run.environ "INTERVAL") run.now = .ok window ∧
    (gmtime window.1).isSome ∧ (gmtime window.2).isSome
  nova : run.nova.isSome
  cinder : run.cinder.isSome
  neutron : run.neutron.isSome
  projects : run.projects.isSome

theorem projectLoop_isSome (hstart : (gmtime window.1).isSome) (hstop : (gmtime window.2).isSome)
    (ps : List Project) : (run.projectLoop sha256 floatStr window nova cinder ps).isSome := by
  have hfip : ∀ p, (run.fipRows sha256 floatStr window p).isSome := by
    intro p
    unfold fipRows
    split
    · rfl
    · rename_i count _
      have hrow : (run.row sha256 floatStr window "floating_ips.count" (.num count) "count" p.id
          p.name p.tags).isSome := row_isSome rfl hstart hstop
      obtain ⟨r, hrow⟩ := Option.isSome_iff_exists.mp hrow
      rw [hrow]
      rfl
  induction ps with
  | nil => rfl
  | cons p ps ih =>
    obtain ⟨rest, hrest⟩ := Option.isSome_iff_exists.mp ih
    obtain ⟨fip, hfip⟩ := Option.isSome_iff_exists.mp (hfip p)
    unfold projectLoop projectRows
    rw [hfip, hrest]
    rfl

theorem collectUsage_isSome (h : Starts run) :
    ∃ rows, run.collectUsage sha256 floatStr = some rows := by
  obtain ⟨window, hwindow, hstart, hstop⟩ := h.window
  obtain ⟨nova, hnova⟩ := Option.isSome_iff_exists.mp h.nova
  obtain ⟨cinder, hcinder⟩ := Option.isSome_iff_exists.mp h.cinder
  obtain ⟨neutron, hneutron⟩ := Option.isSome_iff_exists.mp h.neutron
  obtain ⟨ps, hprojects⟩ := Option.isSome_iff_exists.mp h.projects
  have hloop : (run.projectLoop sha256 floatStr window nova cinder ps).isSome :=
    projectLoop_isSome hstart hstop ps
  obtain ⟨perProject, hloop⟩ := Option.isSome_iff_exists.mp hloop
  unfold collectUsage
  rw [hwindow, hnova, hcinder, hneutron, hprojects]
  dsimp only [Except.toOption, Option.bind_eq_bind, Option.bind_some]
  rw [hloop]
  exact ⟨_, rfl⟩

/-- A run with a readable catalog and well-formed projects returns its rows
whatever the other requests answer. Its rows have different ids, two runs of one
service share an id exactly for rows that say the same, and the floating IP rows
count the listed floating IPs of the listed projects. -/
theorem usage_rows_kept_apart (sha256 : List UInt8 → String) (floatStr : String → Option ℚ)
    (run run' : UsageRun) (horg : org run.environ = org run'.environ)
    (hservice : service run.environ = service run'.environ)
    (hids : ∀ ps, run.projects = some ps → (ps.map Project.id).Nodup) :
    (Starts run → ∃ rows, run.collectUsage sha256 floatStr = some rows) ∧
    ∀ rows rows', run.collectUsage sha256 floatStr = some rows →
      run'.collectUsage sha256 floatStr = some rows' →
      NulFreeParts run rows → NulFreeParts run' rows' →
      NoCollision sha256 (usedParts run rows ∪ usedParts run' rows') →
      (rows.map UsageRow.recordId).Nodup ∧
      (∀ r ∈ rows, ∀ r' ∈ rows', r.recordId = r'.recordId ↔
        r.tenant = r'.tenant ∧ r.resourceId = r'.resourceId ∧ r.metric = r'.metric ∧
          r.windowStart = r'.windowStart) ∧
      ∀ listing ps, run.floatingIps = some listing → (∀ fip ∈ listing, (fipOwner fip).isSome) →
        run.projects = some ps → fipTotal rows = (listing.countP (ownerListed ps) : Nat) := by
  refine ⟨collectUsage_isSome, ?_⟩
  intro rows rows' h h' hnul hnul' hinj
  refine ⟨?_, ?_, ?_⟩
  · exact nodup_recordIds h hids hnul (hinj.mono (Set.image_mono Set.subset_union_left))
  · intro r hr r' hr'
    exact recordId_eq_iff horg hservice h h' hnul hnul' hinj hr hr'
  · intro listing ps hlisting howners hprojects
    obtain ⟨ps', hprojects', htotal⟩ := fipTotal_collectUsage h
    obtain rfl := Option.some.inj (hprojects.symm.trans hprojects')
    have hcount : ∀ p ∈ ps, fipCount run p =
        listing.countP fun fip => fipOwner fip == some (.str p.id) := by
      intro p _
      unfold fipCount fips
      rw [hlisting, Option.getD_some, get?_countFips howners, Dict.get?_empty, Option.getD_none,
        Nat.zero_add]
    rw [htotal, List.map_congr_left hcount, sum_countP_owner (hids ps hprojects)]

/-- A project with two floating IPs, whose Nova limits break off after the first
quantity. The hypervisors do not answer, and there is no Cinder. -/
def sampleRun : UsageRun where
  environ := fun _ => none
  now := 1767225723
  authUrl := "http://ks"
  catalog := [
    .obj [("type", .str "compute"), ("endpoints", .arr [
      .obj [("interface", .str "internal"), ("url", .str "http://nova/")]])],
    .obj [("type", .str "network"), ("endpoints", .arr [
      .obj [("interface", .str "internal"), ("url", .str "http://neutron")]])]]
  getJson := fun url =>
    if url = "http://ks/projects" then
      some (.obj [("projects", .arr [.obj [("id", .str "p1"), ("name", .str "tenant-a")]])])
    else if url = "http://neutron/v2.0/floatingips" then
      some (.obj [("floatingips", .arr [.obj [("project_id", .str "p1")],
        .obj [("project_id", .null), ("tenant_id", .str "p1")], .obj []])])
    else if url = "http://nova/limits?tenant_id=p1" then
      some (.obj [("limits", .obj [("absolute",
        .obj [("totalInstancesUsed", .num 3), ("totalCoresUsed", .null)])])])
    else none

/-- The digests of the two ids of `sampleRun`. -/
def sampleDigest (bytes : List UInt8) : String :=
  if bytes = preimage ["default", "tenant-a", "openstack", "p1", "instances.count",
      "2026-01-01T00:00:00Z"] then
    "e716fceac1f23d91d6cf351cfad51833e971ebab9b3a98cd5a63ed627db70fdd"
  else "c1356ecb407bb4f469ea2952f0d5d5d89182f3e192acc365eaf1e46d290e9472"

/-- What the rows of `sampleRun` are about. -/
def sampleKeys : List (String × String × String) :=
  [("tenant-a", "p1", "instances.count"), ("tenant-a", "p1", "floating_ips.count")]

/-- The parts of the ids of `sampleRun`. -/
def sampleParts : List (List String) :=
  sampleKeys.map fun k => ["default", k.1, "openstack", k.2.1, k.2.2, "2026-01-01T00:00:00Z"]

theorem sampleRun_used {rows : List UsageRow}
    (hkeys : rows.map (fun r => (r.tenant, r.resourceId, r.metric)) = sampleKeys) :
    NulFreeParts sampleRun rows ∧ ∀ parts ∈ usedParts sampleRun rows, parts ∈ sampleParts := by
  have hmem : ∀ r ∈ rows, (r.tenant, r.resourceId, r.metric) ∈ sampleKeys := by
    intro r hr
    rw [← hkeys]
    exact List.mem_map.mpr ⟨r, hr, rfl⟩
  refine ⟨⟨by decide, by decide, ?_⟩, ?_⟩
  · intro r hr
    have hfree : ∀ k ∈ sampleKeys, NulFree k.1 ∧ NulFree k.2.1 := by decide
    exact hfree _ (hmem r hr)
  · rintro parts ⟨window, text, hok, htext, r, hr, rfl⟩
    have hwindow : collectUsageWindow (sampleRun.environ "INTERVAL") sampleRun.now =
        .ok (1767225600, 1767225900) := by rfl
    obtain rfl := Except.ok.inj (hwindow.symm.trans hok)
    obtain rfl : "2026-01-01T00:00:00Z" = text := Option.some.inj htext
    exact List.mem_map.mpr ⟨_, hmem r hr, rfl⟩

theorem sampleDigest_injective : ∀ parts ∈ sampleParts, ∀ parts' ∈ sampleParts,
    deterministicId sampleDigest parts = deterministicId sampleDigest parts' →
      preimage parts = preimage parts' := by
  decide

/-- The run and a re-run in its window write the same two ids and count both
floating IPs. -/
theorem sampleRun_kept_apart :
    ∃ rows, sampleRun.collectUsage sampleDigest (fun _ => none) = some rows ∧
      rows.length = 2 ∧ (rows.map UsageRow.recordId).Nodup ∧ fipTotal rows = 2 := by
  have hkeys : ((sampleRun.collectUsage sampleDigest (fun _ => none)).map fun rows =>
      rows.map fun r => (r.tenant, r.resourceId, r.metric)) = some sampleKeys := by rfl
  have hids : ∀ ps, sampleRun.projects = some ps → (ps.map Project.id).Nodup := by
    intro ps hps
    have hmap : sampleRun.projects.map (List.map Project.id) = some ["p1"] := by rfl
    rw [hps, Option.map_some] at hmap
    rw [Option.some.inj hmap]
    decide
  obtain ⟨rows, hrun, hrows⟩ := Option.map_eq_some_iff.mp hkeys
  obtain ⟨hnul, hused⟩ := sampleRun_used hrows
  have hinj : NoCollision sampleDigest (usedParts sampleRun rows ∪ usedParts sampleRun rows) := by
    rintro _ ⟨parts, hparts, rfl⟩ _ ⟨parts', hparts', rfl⟩ heq
    rw [Set.union_self] at hparts hparts'
    exact sampleDigest_injective parts (hused parts hparts) parts' (hused parts' hparts') heq
  obtain ⟨-, hresult⟩ := usage_rows_kept_apart sampleDigest (fun _ => none) sampleRun sampleRun
    rfl rfl hids
  obtain ⟨hnodup, -, hfips⟩ := hresult rows rows hrun hrun hnul hnul hinj
  have hlength := congrArg List.length hrows
  rw [List.length_map] at hlength
  refine ⟨rows, hrun, hlength, hnodup, ?_⟩
  have hlisting : sampleRun.floatingIps = some [.obj [("project_id", .str "p1")],
      .obj [("project_id", .null), ("tenant_id", .str "p1")], .obj []] := by rfl
  have hprojects : sampleRun.projects = some [⟨"p1", "tenant-a", Dict.empty⟩] := by rfl
  rw [hfips _ _ hlisting (by decide) hprojects]
  rfl

end OpenstackBlueprint.Theorems.UsageRecords
