import OpenstackBlueprint.HelmToolkit.Entrypoint
import OpenstackBlueprint.Theorems.DependencyWaits

/-!
# The gate reads what the chart declares, and the pod may read what it waits for

* the Services and jobs that `entrypoint_waits` reads from a rendered init container
  are those the chart declares for the component, whatever was rendered before it
  (`gate_reads_declared_waits`);
* where no RabbitMQ job adds dependencies, the roles of a service account list the
  resources its init container has to read, in the namespaces it waits in
  (`roles_cover_waits`).
-/

namespace OpenstackBlueprint.HelmToolkit

open OpenstackBlueprint.Kit

variable {F : Type}

/-! ## Texts -/

/-- A Kubernetes name: no separators of the environment, no white space. -/
def Plain (s : String) : Prop := s ≠ "" ∧ ∀ c ∈ s.toList, c ≠ ',' ∧ c ≠ ':' ∧ isSpace c = false

theorem strip_of_no_space {s : String} (h : ∀ c ∈ s.toList, isSpace c = false) : strip s = s := by
  have hdrop : ∀ l : List Char, (∀ c ∈ l, isSpace c = false) → l.dropWhile isSpace = l := by
    intro l hl
    cases l with
    | nil => rfl
    | cons c l => simp [hl c List.mem_cons_self]
  unfold strip
  rw [hdrop _ h, hdrop _ (by simpa using h), List.reverse_reverse, String.ofList_toList]

/-- A comma separated list of texts without commas and white space is read as its texts. -/
theorem waitItems_join {l : List String}
    (h : ∀ t ∈ l, ∀ c ∈ t.toList, c ≠ ',' ∧ isSpace c = false) :
    waitItems (join ',' l) = compact l := by
  cases l with
  | nil => decide
  | cons t l =>
    unfold waitItems
    rw [splitList_join (List.cons_ne_nil _ _) fun s hs hmem => (h s hs _ hmem).1 rfl]
    congr 1
    refine (List.map_congr_left fun s hs => ?_).trans (List.map_id _)
    exact strip_of_no_space fun c hc => (h s hs c hc).2

theorem lastPiece_serviceText {ns name : String} (hns : Plain ns) (hname : Plain name) :
    lastPiece (Context.serviceText (some (ns, name))) = name := by
  have hjoin : Context.serviceText (some (ns, name)) = join ':' [ns, name] := by
    rw [← String.toList_inj, toList_join]
    simp [Context.serviceText, List.intercalate]
  unfold lastPiece
  rw [hjoin, splitList_join (by simp) ?_]
  · rfl
  · intro s hs hmem
    simp only [List.mem_cons, List.not_mem_nil, or_false] at hs
    rcases hs with rfl | rfl
    · exact (hns.2 _ hmem).2.1 rfl
    · exact (hname.2 _ hmem).2.1 rfl

/-! ## The environment, read back -/

/-- What stands in `endpoints` and in the release are names. -/
structure Context.WellFormed (ctx : Context F) : Prop where
  release : Plain ctx.releaseNamespace
  type : ∀ type ep, ctx.endpoints.get? type = some ep → Plain type
  inNamespace : ∀ type ep, ctx.endpoints.get? type = some ep → ∀ ns, ep.inNamespace = some ns →
    ns = "" ∨ Plain ns
  host : ∀ type ep, ctx.endpoints.get? type = some ep → ∀ endpoint host,
    ep.host endpoint = some host → Plain host
  service : ∀ type ep, ctx.endpoints.get? type = some ep → ∀ name, ep.service = some name →
    name = "" ∨ Plain name

section ReadBack

variable {ctx : Context F}

/-- A service is looked up to a pair of names. -/
theorem Context.WellFormed.plain (h : ctx.WellFormed) {type endpoint ns name : String}
    (hlookup : ctx.lookup type endpoint = some (some (ns, name))) : Plain ns ∧ Plain name := by
  unfold Context.lookup at hlookup
  split at hlookup
  · cases hlookup
  · rename_i ep hep
    have hns : Plain (ctx.namespaceOf ep) := by
      unfold Context.namespaceOf
      cases hin : ep.inNamespace with
      | none => exact h.release
      | some ns =>
        rcases h.inNamespace _ ep hep ns hin with rfl | hplain
        · exact h.release
        · simpa [orDefault, hplain.1] using hplain
    obtain ⟨hostname, hhost, hrest⟩ := Option.bind_eq_some_iff.mp hlookup
    split at hrest
    · obtain ⟨service, hservice, hpair⟩ := Option.bind_eq_some_iff.mp hrest
      cases hpair
      refine ⟨hns, ?_⟩
      split
      · exact h.type _ ep hep
      · rename_i hne
        exact (h.service _ ep hep service hservice).resolve_left hne
    · cases hrest
      exact ⟨hns, h.host _ ep hep endpoint _ hhost⟩

/-- The members of a list that every item of which has a value. -/
theorem mem_mapM {α β : Type} {f : α → Option β} {l : List α} {out : List β}
    (h : l.mapM f = some out) {b : β} : b ∈ out ↔ ∃ a ∈ l, f a = some b := by
  induction l generalizing out with
  | nil =>
    cases h
    simp
  | cons a l ih =>
    rw [List.mapM_cons] at h
    obtain ⟨first, hfirst, hrest⟩ := Option.bind_eq_some_iff.mp h
    obtain ⟨rest, hmap, hout⟩ := Option.bind_eq_some_iff.mp hrest
    cases hout
    rw [List.mem_cons, ih hmap]
    simp only [List.mem_cons, exists_eq_or_imp, hfirst, Option.some.injEq]
    exact or_congr_left eq_comm

/-- The Services read from the text of a list of services. -/
theorem mem_waitItems_services (hctx : ctx.WellFormed) {services : List (Item F)} {value s : String}
    (hvalue : ctx.commaJoinedServiceList services = some value) :
    s ∈ (waitItems value).map lastPiece ↔ ∃ m ns, .entry m ∈ services ∧
      ctx.lookup (ctx.service m) (ctx.endpoint m) = some (some (ns, s)) := by
  obtain ⟨texts, htexts, rfl⟩ := Option.map_eq_some_iff.mp hvalue
  have htext : ∀ t, t ∈ texts ↔ ∃ m pair, .entry m ∈ services ∧
      ctx.lookup (ctx.service m) (ctx.endpoint m) = some pair ∧ Context.serviceText pair = t := by
    intro t
    rw [mem_mapM htexts]
    constructor
    · rintro ⟨item, hitem, hvalue⟩
      cases item with
      | name job => cases hvalue
      | entry m =>
        obtain ⟨pair, hpair, rfl⟩ := Option.map_eq_some_iff.mp hvalue
        exact ⟨m, pair, hitem, hpair, rfl⟩
    · rintro ⟨m, pair, hitem, hpair, rfl⟩
      exact ⟨.entry m, hitem, Option.map_eq_some_iff.mpr ⟨pair, hpair, rfl⟩⟩
  have hplain : ∀ t ∈ texts, ∀ c ∈ t.toList, c ≠ ',' ∧ isSpace c = false := by
    intro t ht c hc
    obtain ⟨m, pair, _, hpair, rfl⟩ := (htext t).mp ht
    cases pair with
    | none => simp [Context.serviceText] at hc
    | some pair =>
      obtain ⟨hns, hname⟩ := hctx.plain hpair
      simp only [Context.serviceText, String.toList_append, List.mem_append] at hc
      rcases hc with (hc | hc) | hc
      · exact ⟨(hns.2 c hc).1, (hns.2 c hc).2.2⟩
      · obtain rfl : c = ':' := by simpa using hc
        decide
      · exact ⟨(hname.2 c hc).1, (hname.2 c hc).2.2⟩
  rw [waitItems_join hplain, List.mem_map]
  constructor
  · rintro ⟨t, ht, rfl⟩
    obtain ⟨htexts, hne⟩ := mem_compact.mp ht
    obtain ⟨m, pair, hitem, hpair, rfl⟩ := (htext t).mp htexts
    cases pair with
    | none => exact absurd rfl hne
    | some pair =>
      obtain ⟨hns, hname⟩ := hctx.plain hpair
      rw [lastPiece_serviceText hns hname]
      exact ⟨m, pair.1, hitem, hpair⟩
  · rintro ⟨m, ns, hitem, hpair⟩
    obtain ⟨hns, hname⟩ := hctx.plain hpair
    refine ⟨_, mem_compact.mpr ⟨(htext _).mpr ⟨m, _, hitem, hpair, rfl⟩, ?_⟩,
      lastPiece_serviceText hns hname⟩
    intro hempty
    have hlength := congrArg String.length hempty
    simp [Context.serviceText] at hlength

/-- The jobs read from the variables for a list of jobs given by name. -/
theorem mem_waitItems_jobs (ctx : Context F) {jobs : List (Item F)}
    (hnames : ∀ x ∈ jobs, ∃ job, x = .name job) (hplain : ∀ job, .name job ∈ jobs → Plain job) {job : String} :
    job ∈ waitItems (ctx.joinListWithComma jobs) ↔ .name job ∈ jobs := by
  have htext : ∀ t, t ∈ jobs.map ctx.text ↔ .name t ∈ jobs := by
    intro t
    rw [List.mem_map]
    constructor
    · rintro ⟨x, hx, rfl⟩
      obtain ⟨job, rfl⟩ := hnames x hx
      exact hx
    · intro ht
      exact ⟨.name t, ht, rfl⟩
  unfold Context.joinListWithComma
  rw [waitItems_join, mem_compact, htext]
  · exact ⟨And.left, fun h => ⟨h, (hplain job h).1⟩⟩
  · intro t ht c hc
    obtain ⟨_, hchars⟩ := hplain t ((htext t).mp ht)
    exact ⟨(hchars c hc).1, (hchars c hc).2.2⟩

/-- The variables for the jobs hold them by name. -/
theorem mem_jobsEnv (ctx : Context F) {jobs : List (Item F)}
    (hnames : ∀ x ∈ jobs, ∃ job, x = .name job) (hplain : ∀ job, .name job ∈ jobs → Plain job) {job : String} :
    job ∈ (ctx.jobsEnv jobs).flatMap (fun e =>
      if e.1 = "DEPENDENCY_JOBS" then waitItems e.2 else []) ↔ .name job ∈ jobs := by
  cases jobs with
  | nil => simp [Context.jobsEnv]
  | cons x rest =>
    obtain ⟨first, rfl⟩ := hnames x List.mem_cons_self
    rw [← mem_waitItems_jobs ctx hnames hplain]
    simp [Context.jobsEnv]

theorem jobsEnv_names (jobs : List (Item F)) :
    ∀ e ∈ ctx.jobsEnv jobs, e.1 ≠ "DEPENDENCY_SERVICE" := by
  intro e he
  unfold Context.jobsEnv at he
  split at he
  · cases he
  · cases List.mem_singleton.mp he
    simp
  · cases List.mem_singleton.mp he
    simp

/-- The environment of an init container is read back to the services and jobs it was made of. -/
theorem mem_entrypointWaits (hctx : ctx.WellFormed) {deps : Option (Deps F)}
    {env : List (String × String)} (henv : ctx.initEnv deps = some env)
    (hnames : ∀ x ∈ listOf deps "jobs", ∃ job, x = .name job)
    (hplain : ∀ job, .name job ∈ listOf deps "jobs" → Plain job) :
    (∀ s, s ∈ (entrypointWaits env).1 ↔ ∃ m ns, .entry m ∈ listOf deps "services" ∧
        ctx.lookup (ctx.service m) (ctx.endpoint m) = some (some (ns, s))) ∧
      ∀ job, job ∈ (entrypointWaits env).2 ↔ .name job ∈ listOf deps "jobs" := by
  obtain ⟨value, hvalue, hrest⟩ := Option.bind_eq_some_iff.mp henv
  cases hrest
  constructor
  · intro s
    have hjobs : (ctx.jobsEnv (listOf deps "jobs")).flatMap (fun e =>
        if e.1 = "DEPENDENCY_SERVICE" then (waitItems e.2).map lastPiece else []) = [] := by
      rw [List.flatMap_eq_nil_iff]
      intro e he
      rw [if_neg (jobsEnv_names _ e he)]
    rw [← mem_waitItems_services hctx hvalue]
    simp [entrypointWaits, hjobs]
  · intro job
    rw [← mem_jobsEnv ctx hnames hplain]
    simp [entrypointWaits]

end ReadBack

/-! ## Roles -/

section Roles

variable {ctx : Context F}

/-- Folding steps that only add: what each member sees to holds at the end. -/
theorem foldlM_spec {α β : Type} {f : β → α → Option β} (le : β → β → Prop) (post : α → β → Prop)
    (hrefl : ∀ b, le b b) (htrans : ∀ a b c, le a b → le b c → le a c)
    (hstep : ∀ b a b', f b a = some b' → le b b' ∧ post a b')
    (hstable : ∀ a b b', post a b → le b b' → post a b') {l : List α} {b b' : β}
    (h : l.foldlM f b = some b') : le b b' ∧ ∀ a ∈ l, post a b' := by
  induction l generalizing b with
  | nil =>
    cases h
    exact ⟨hrefl _, by simp⟩
  | cons a l ih =>
    rw [List.foldlM_cons] at h
    obtain ⟨c, hc, hrest⟩ := Option.bind_eq_some_iff.mp h
    obtain ⟨hle, hpost⟩ := ih hrest
    obtain ⟨hfirst, ha⟩ := hstep b a c hc
    refine ⟨htrans _ _ _ hfirst hle, fun x hx => ?_⟩
    rcases List.mem_cons.mp hx with rfl | hx
    · exact hstable _ _ _ ha hle
    · exact hpost x hx

/-- Every namespace keeps its kinds. -/
def NamespaceKinds.Le (all all' : NamespaceKinds) : Prop := ∀ ns, all.kinds ns ⊆ all'.kinds ns

theorem NamespaceKinds.Le.refl (all : NamespaceKinds) : all.Le all := fun _ => List.Subset.refl _

theorem NamespaceKinds.Le.trans (a b c : NamespaceKinds) (h : a.Le b) (h' : b.Le c) : a.Le c :=
  fun ns => List.Subset.trans (h ns) (h' ns)

theorem NamespaceKinds.kinds_add (all : NamespaceKinds) (ns : String) (kind : RoleKind) :
    all.Le (all.add ns kind) ∧ kind ∈ (all.add ns kind).kinds ns := by
  constructor
  · intro other k hk
    by_cases hother : other = ns
    · subst hother
      simpa [NamespaceKinds.add, NamespaceKinds.kinds, Dict.get?_set] using .inr hk
    · simpa [NamespaceKinds.add, NamespaceKinds.kinds, Dict.get?_set, hother] using hk
  · simp [NamespaceKinds.add, NamespaceKinds.kinds, Dict.get?_set]

/-- What a list of dependencies has to be granted. -/
def Context.Granted (ctx : Context F) (e : String × Option (List (Item F)))
    (all : NamespaceKinds) : Prop :=
  (e.1 = "services" → ∀ m, .entry m ∈ e.2.getD [] → .services ∈ all.kinds (ctx.roleNamespace m)) ∧
    ∀ kind, Context.localKind e.1 = some kind → e.2.getD [] ≠ [] →
      kind ∈ all.kinds ctx.releaseNamespace

theorem addService_spec {all all' : NamespaceKinds} {item : Item F}
    (h : ctx.addService all item = some all') :
    all.Le all' ∧ ∀ m, item = .entry m → .services ∈ all'.kinds (ctx.roleNamespace m) := by
  cases item with
  | name job => cases h
  | entry m =>
    simp only [Context.addService] at h
    split at h
    · cases h
      refine ⟨NamespaceKinds.Le.refl _, ?_⟩
      rintro _ ⟨⟩
      assumption
    · cases h
      refine ⟨(NamespaceKinds.kinds_add _ _ _).1, ?_⟩
      rintro _ ⟨⟩
      exact (NamespaceKinds.kinds_add _ _ _).2

theorem addKey_spec {all all' : NamespaceKinds} {e : String × Option (List (Item F))}
    (h : ctx.addKey all e = some all') : all.Le all' ∧ ctx.Granted e all' := by
  unfold Context.addKey at h
  split at h
  · rename_i hkey
    obtain ⟨hle, hpost⟩ := foldlM_spec NamespaceKinds.Le
      (fun (item : Item F) all =>
        ∀ m, item = .entry m → .services ∈ all.kinds (ctx.roleNamespace m))
      NamespaceKinds.Le.refl NamespaceKinds.Le.trans (fun _ _ _ h => addService_spec h)
      (fun _ _ _ h hle m hm => hle _ (h m hm)) h
    refine ⟨hle, fun _ m hm => hpost _ hm m rfl, fun kind hkind => ?_⟩
    rw [hkey] at hkind
    cases hkind
  · rename_i hkey
    refine ⟨?_, fun hservices => absurd hservices hkey, fun kind hkind hne => ?_⟩
    · split at h
      · split at h
        · cases h
          exact NamespaceKinds.Le.refl _
        · cases h
          exact (NamespaceKinds.kinds_add _ _ _).1
      · cases h
        exact NamespaceKinds.Le.refl _
    · rw [hkind] at h
      simp only [List.isEmpty_iff, hne, if_false, Option.some.injEq] at h
      subst h
      exact (NamespaceKinds.kinds_add _ _ _).2

/-- The roles written for a map grant what each of its lists needs. -/
theorem roleKinds_spec {deps : Option (Deps F)} {all : NamespaceKinds}
    (h : ctx.roleKinds deps = some all) :
    (∀ m, .entry m ∈ listOf deps "services" → .services ∈ all.kinds (ctx.roleNamespace m)) ∧
      ∀ key kind, Context.localKind key = some kind → listOf deps key ≠ [] →
        kind ∈ all.kinds ctx.releaseNamespace := by
  cases deps with
  | none => exact ⟨by simp [listOf], by simp [listOf]⟩
  | some deps =>
    have hgranted : ∀ key value, deps.get? key = some value → ctx.Granted (key, value) all := by
      intro key value hget
      exact (foldlM_spec NamespaceKinds.Le ctx.Granted NamespaceKinds.Le.refl
        NamespaceKinds.Le.trans (fun _ _ _ h => addKey_spec h)
        (fun _ _ _ h hle => ⟨fun he m hm => hle _ (h.1 he m hm),
          fun kind hkind hne => hle _ (h.2 kind hkind hne)⟩) h).2 (key, value)
          (mem_sortedItems.mpr hget)
    constructor
    · intro m hm
      cases hget : deps.get? "services" with
      | none => simp [listOf, hget] at hm
      | some value =>
        refine (hgranted _ _ hget).1 rfl m ?_
        simpa [listOf, hget] using hm
    · intro key kind hkind hne
      cases hget : deps.get? key with
      | none => simp [listOf, hget] at hne
      | some value =>
        refine (hgranted _ _ hget).2 kind hkind ?_
        simpa [listOf, hget] using hne

theorem replace_of_not_mem {s : String} {c d : Char} (h : c ∉ s.toList) : replace c d s = s := by
  unfold replace
  rw [List.map_congr_left fun x hx => ?_, List.map_id, String.ofList_toList]
  have hne : x ≠ c := fun hxc => h (hxc ▸ hx)
  simp [hne]

/-- The role is in the namespace the service is looked up in. -/
theorem roleNamespace_eq {m : F} (hdash : '-' ∉ (ctx.service m).toList) {ns name : String}
    (h : ctx.lookup (ctx.service m) (ctx.endpoint m) = some (some (ns, name))) :
    ctx.roleNamespace m = ns := by
  unfold Context.lookup at h
  rw [replace_of_not_mem hdash] at h
  unfold Context.roleNamespace
  split at h
  · cases h
  · rename_i ep hep
    rw [hep]
    obtain ⟨host, _, hrest⟩ := Option.bind_eq_some_iff.mp h
    split at hrest
    · obtain ⟨service, _, hpair⟩ := Option.bind_eq_some_iff.mp hrest
      cases hpair
      rfl
    · cases hrest
      rfl

theorem mem_resources {all : NamespaceKinds} {ns : String} {kind : RoleKind}
    (h : kind ∈ all.kinds ns) : kind.resources ⊆ all.resources ns := by
  intro resource hresource
  exact List.mem_flatMap.mpr ⟨kind, h, hresource⟩

end Roles

/-! ## Any order of rendering -/

section Rendering

variable [DecidableEq F]

/-- Part of the values of keystone: the job that makes its database waits for the server. -/
def keystoneChart : Chart (String × String) where
  localRegistryActive := false
  manifests := Dict.empty
  static := ⟨[("db_init", some ⟨[("services", some [.entry ⟨"services", 0⟩])],
    by decide⟩)], by decide⟩
  localImageRegistry := none
  jobRabbitInit := Dict.empty
  targeted := Dict.empty
  content _ := ("oslo_db", "internal")
  setNamespace m := m
  setNamespace_idem _ := rfl

def keystoneContext : Context (String × String) where
  releaseNamespace := "openstack"
  endpoints := ⟨[("oslo_db", ⟨none, ⟨[("default", "mariadb")], by decide⟩, none⟩)], by decide⟩
  service := Prod.fst
  endpoint := Prod.snd
  print m := m.1
  toJson _ := "[]"

theorem keystoneChart_wellTyped : keystoneChart.WellTyped := by
  intro a deps h
  cases a with
  | static c =>
    simp only [Chart.values, keystoneChart] at h
    rw [Option.join_eq_some_iff, Dict.get?_eq_some_iff] at h
    simp only [List.mem_singleton, Prod.mk.injEq, Option.some.injEq] at h
    obtain ⟨_, rfl⟩ := h
    refine typed_of_entries ?_
    simp only [List.forall_mem_singleton, Option.getD_some]
    exact ⟨by simp, fun _ => ⟨_, rfl⟩, by rintro m ⟨⟩; rfl⟩
  | localImageRegistry => cases h
  | jobRabbitInit c => cases h
  | targeted mixin key => cases h
  | fresh n => cases h

theorem keystoneContext_lookup :
    keystoneContext.lookup "oslo_db" "internal" = some (some ("openstack", "mariadb")) := by
  simp [Context.lookup, keystoneContext]
  decide

theorem keystoneContext_wellFormed : keystoneContext.WellFormed := by
  have hep : ∀ {type ep}, keystoneContext.endpoints.get? type = some ep →
      type = "oslo_db" ∧ ep = ⟨none, ⟨[("default", "mariadb")], by decide⟩, none⟩ := by
    intro type ep h
    rw [Dict.get?_eq_some_iff] at h
    simpa [keystoneContext] using h
  have hplain : ∀ s ∈ ["openstack", "oslo_db", "mariadb"], Plain s := by
    simp [Plain, isSpace]
  refine ⟨hplain _ (by simp [keystoneContext]), ?_, ?_, ?_, ?_⟩
  · intro type ep h
    rw [(hep h).1]
    exact hplain _ (by simp)
  · intro type ep h ns hns
    rw [(hep h).2] at hns
    cases hns
  · intro type ep h endpoint host hhost
    have hmariadb : host = "mariadb" := by
      rw [(hep h).2] at hhost
      simp only [Endpoint.host] at hhost
      split at hhost
      · rename_i found hfound
        rw [Dict.get?_eq_some_iff] at hfound
        simp only [List.mem_singleton, Prod.mk.injEq] at hfound
        obtain ⟨_, rfl⟩ := hfound
        simpa using hhost.symm
      · exact (Option.some.inj hhost).symm
    rw [hmariadb]
    exact hplain _ (by simp)
  · intro type ep h name hname
    rw [(hep h).2] at hname
    cases hname

/-- What the gate reads from the init container of a component is what the chart declares for it,
whatever was rendered before. -/
theorem gate_reads_declared_waits (chart : Chart F) (ctx : Context F)
    (htyped : chart.WellTyped)
    (hpod : chart.values.heap (.jobRabbitInit "pod_dependency") = none) (hctx : ctx.WellFormed)
    (component : String) (hcomponent : component ≠ "pod_dependency")
    (hplain : ∀ job, .name job ∈ (chart.declared component "jobs").items → Plain job)
    {v v' : Values F} (hv : chart.rendering.Reachable v) {deps : Option (Deps F)}
    (hinit : chart.initContainer component v = some (v', deps)) {env : List (String × String)}
    (henv : ctx.initEnv deps = some env) :
    (∀ s, s ∈ (entrypointWaits env).1 ↔
        ∃ m ns, .entry m ∈ (chart.declared component "services").items ∧
          ctx.lookup (ctx.service m) (ctx.endpoint m) = some (some (ns, s))) ∧
      ∀ job, job ∈ (entrypointWaits env).2 ↔ .name job ∈ (chart.declared component "jobs").items := by
  have hkept := kept_invariant htyped hpod v hv
  obtain ⟨v₁, deps₁, hinit', hprint, hwaits, _, hkept'⟩ :=
    hkept.initContainer hpod (source_of_ne v hcomponent)
  obtain ⟨rfl, rfl⟩ := Prod.mk.inj (Option.some.inj (hinit'.symm.trans hinit))
  have hview := hwaits.trans (hkept.static component).waits
  rw [← hview] at hplain ⊢
  simp only [mem_items_view] at hplain ⊢
  refine mem_entrypointWaits hctx henv (fun x hx => ?_) hplain
  rw [hprint] at hx
  exact hkept'.sound.jobs_print hx

/-- The gate reads that the job waits for the database server. -/
theorem gate_reads_declared_waits_keystone :
    ∃ v deps env, keystoneChart.initContainer "db_init" keystoneChart.values = some (v, deps) ∧
      keystoneContext.initEnv deps = some env ∧ "mariadb" ∈ (entrypointWaits env).1 := by
  have hitem : keystoneContext.serviceItem (.entry ("oslo_db", "internal")) =
      some (Context.serviceText (some ("openstack", "mariadb"))) :=
    congrArg (Option.map Context.serviceText) keystoneContext_lookup
  have henv : ∃ env, keystoneContext.initEnv (some ⟨[("services",
      some [.entry ("oslo_db", "internal")])], by decide⟩) = some env := by
    simp [Context.initEnv, Context.commaJoinedServiceList, listOf, Dict.get?, hitem]
  obtain ⟨env, henv⟩ := henv
  refine ⟨_, _, env, rfl, henv, ?_⟩
  have h := gate_reads_declared_waits keystoneChart keystoneContext keystoneChart_wellTyped rfl
    keystoneContext_wellFormed "db_init" (by decide) (fun _ h => h.elim) (.init rfl) rfl henv
  have hdeclared : Item.entry ("oslo_db", "internal") ∈
      (keystoneChart.declared "db_init" "services").items :=
    ⟨.entry ⟨"services", 0⟩, List.mem_singleton.mpr rfl, rfl⟩
  exact (h.1 "mariadb").mpr ⟨("oslo_db", "internal"), "openstack", hdeclared,
    keystoneContext_lookup⟩

/-- What a service account may read covers what its pod waits for, when no RabbitMQ job adds
dependencies and the types of services are written as in `endpoints`. -/
theorem roles_cover_waits (chart : Chart F) (ctx : Context F) (htyped : chart.WellTyped)
    (hpod : chart.values.heap (.jobRabbitInit "pod_dependency") = none)
    (hrabbit : chart.usesRabbitInit = false) (component : String)
    (hcomponent : component ≠ "pod_dependency")
    (hdash : ∀ m, .entry m ∈ (chart.declared component "services").items →
      '-' ∉ (ctx.service m).toList)
    {v₁ v₁' v₂ v₂' : Values F} (hv₁ : chart.rendering.Reachable v₁)
    (hv₂ : chart.rendering.Reachable v₂) {granted waited : Option (Deps F)} {all : NamespaceKinds}
    (haccount : chart.serviceAccount component v₁ = some (v₁', granted))
    (hroles : ctx.roleKinds granted = some all)
    (hinit : chart.initContainer component v₂ = some (v₂', waited)) :
    (∀ m ns name, .entry m ∈ listOf waited "services" →
        ctx.lookup (ctx.service m) (ctx.endpoint m) = some (some (ns, name)) →
        RoleKind.services.resources ⊆ all.resources ns) ∧
      ∀ key kind, Context.localKind key = some kind → listOf waited key ≠ [] →
        kind.resources ⊆ all.resources ctx.releaseNamespace := by
  have hkept₁ := kept_invariant htyped hpod v₁ hv₁
  have hkept₂ := kept_invariant htyped hpod v₂ hv₂
  obtain ⟨w₁, haccount', heffect₁, hkept⟩ := hkept₁.serviceAccount (source_of_ne v₁ hcomponent)
  obtain ⟨rfl, rfl⟩ := Prod.mk.inj (Option.some.inj (haccount'.symm.trans haccount))
  obtain ⟨w₂, deps, hinit', hwaited⟩ := hkept₂.declared hpod hcomponent
  obtain ⟨rfl, rfl⟩ := Prod.mk.inj (Option.some.inj (hinit'.symm.trans hinit))
  -- without the RabbitMQ job both snippets come to the same sets
  have hgranted := (hkept₁.static component).waits
  unfold Chart.waits Chart.allWaits at hgranted
  simp only [hrabbit, Bool.false_and, Bool.false_eq_true, if_false] at hgranted
  have hviews := (heffect₁.view.trans hgranted).trans hwaited.symm
  have hmem : ∀ key x, key ≠ "custom_resources" →
      (x ∈ listOf (w₁.print (chart.depsAddr component v₁ (.static component))) key ↔
        x ∈ listOf deps key) := by
    intro key x hkey
    rw [← mem_items_view, ← mem_items_view, view_print_of_ne hkept.sound hkey, hviews]
  obtain ⟨hservices, hlocal⟩ := roleKinds_spec hroles
  constructor
  · intro m ns name hm hlookup
    have hdeclared : .entry m ∈ (chart.declared component "services").items := by
      rw [← hwaited, mem_items_view]
      exact hm
    rw [← roleNamespace_eq (hdash m hdeclared) hlookup]
    exact mem_resources (hservices m ((hmem _ _ (by decide)).mpr hm))
  · intro key kind hkind hne
    refine mem_resources (hlocal key kind hkind ?_)
    obtain ⟨x, hx⟩ := List.exists_mem_of_ne_nil _ hne
    have hkey : key ≠ "custom_resources" := by
      rintro rfl
      cases hkind
    exact List.ne_nil_of_mem ((hmem key x hkey).mpr hx)

/-- The job may read the endpoints of the database server it waits for. -/
theorem roles_cover_waits_keystone :
    ∃ v granted all, keystoneChart.serviceAccount "db_init" keystoneChart.values =
        some (v, granted) ∧
      keystoneContext.roleKinds granted = some all ∧ "endpoints" ∈ all.resources "openstack" := by
  refine ⟨_, _, _, rfl, rfl, ?_⟩
  have hdash : ∀ m, .entry m ∈ (keystoneChart.declared "db_init" "services").items →
      '-' ∉ (keystoneContext.service m).toList := by
    rintro m ⟨x, hx, hm⟩
    obtain rfl := List.mem_singleton.mp hx
    cases hm
    simp [keystoneContext, keystoneChart, Chart.printed]
  have h := roles_cover_waits keystoneChart keystoneContext keystoneChart_wellTyped rfl rfl "db_init"
    (by decide) hdash (.init rfl) (.init rfl) rfl rfl rfl
  exact h.1 ("oslo_db", "internal") "openstack" "mariadb" (List.mem_singleton.mpr rfl)
    keystoneContext_lookup (by simp [RoleKind.resources])

end Rendering

end OpenstackBlueprint.HelmToolkit
