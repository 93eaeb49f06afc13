import OpenstackBlueprint.Theorems.HealthRows

/-!
# Which endpoint health probes

`endpoint_url` and `collect_health` both take the first endpoint of a service on
the configured interface, but only the former looks at the region. They agree on
a service exactly when the region admits the first endpoint, or the first one it
admits has the same URL (`probes_usage_endpoints_iff`).
-/

namespace OpenstackBlueprint.Theorems.HealthEndpoints

open Kit Emitter HealthRun HealthRows

variable {interface region svcType : String} {svc : Value} {eps catalog : List Value}

/-! ## The endpoint usage is collected from -/

/-- The region filter lets the endpoint pass. -/
def admitted (region : String) (ep : Value) : Bool := !(otherRegion region ep).getD false

/-- The first endpoint on the interface that the region admits. -/
def firstAdmitted (interface region : String) (eps : List Value) : Option Value :=
  eps.find? fun ep => onInterface interface ep && admitted region ep

theorem endpointIn_eq (h : ∀ ep ∈ eps, Carries ep) :
    endpointIn interface region eps =
      some ((firstAdmitted interface region eps).map fun ep => rstripSlash (urlOf ep)) := by
  induction eps with
  | nil => rfl
  | cons ep rest ih =>
    obtain ⟨⟨⟨fields, rfl⟩, url, hurl⟩, hrest⟩ := List.forall_mem_cons.mp h
    obtain ⟨other, hother⟩ : ∃ other, otherRegion region (.obj fields) = some other := by
      unfold otherRegion
      split
      · exact ⟨false, rfl⟩
      · exact ⟨_, rfl⟩
    have hget : Value.get (.obj fields) "interface" =
        some ((fields.lookup "interface").getD .null) := rfl
    unfold endpointIn firstAdmitted
    rw [List.find?_cons, hget, hother]
    simp only [Option.bind_eq_bind, Option.bind_some, onInterface, admitted, hget, hother,
      Option.map_some, Option.getD_some]
    cases heq : ((fields.lookup "interface").getD .null).eqStr interface with
    | false => exact ih hrest
    | true =>
      cases other with
      | true => exact ih hrest
      | false => simp [urlOf, hurl, Value.asStr]

/-- A service that can be read is a mapping. -/
theorem get_of_readable (h : Readable svc) (k : String) : ∃ v, svc.get k = some v := by
  obtain ⟨eps, heps, -⟩ := h.endpoints
  cases svc with
  | obj fields => exact ⟨_, rfl⟩
  | _ => cases heps

/-- A service of another type is passed over. -/
theorem endpointUrl_cons_of_ne (h : Readable svc) (hne : svc.get "type" ≠ some (.str svcType)) :
    endpointUrl interface region svcType (svc :: catalog) =
      endpointUrl interface region svcType catalog := by
  obtain ⟨v, hv⟩ := get_of_readable h "type"
  have hother : v.eqStr svcType = false := by
    cases v with
    | str t =>
      rw [hv] at hne
      exact beq_false_of_ne fun heq => hne (by rw [heq])
    | _ => rfl
  conv_lhs => unfold endpointUrl
  rw [hv]
  simp only [Option.bind_eq_bind, Option.bind_some, hother]
  rfl

/-- A service type that no service has. -/
theorem endpointUrl_eq_none (hreadable : ∀ svc ∈ catalog, Readable svc)
    (h : ∀ svc ∈ catalog, svc.get "type" ≠ some (.str svcType)) :
    endpointUrl interface region svcType catalog = some none := by
  induction catalog with
  | nil => rfl
  | cons svc rest ih =>
    obtain ⟨hfirst, hreadable⟩ := List.forall_mem_cons.mp hreadable
    obtain ⟨hsvc, hrest⟩ := List.forall_mem_cons.mp h
    rw [endpointUrl_cons_of_ne hfirst hsvc]
    exact ih hreadable hrest

/-- With distinct types, a type's URL comes from its one service. -/
theorem endpointUrl_eq (hreadable : ∀ svc ∈ catalog, Readable svc)
    (htypes : (catalog.map fun svc => svc.get "type").Nodup) (hsvc : svc ∈ catalog)
    (htype : svc.get "type" = some (.str svcType)) :
    endpointUrl interface region svcType catalog =
      some ((firstAdmitted interface region (endpoints svc)).map fun ep =>
        rstripSlash (urlOf ep)) := by
  induction catalog with
  | nil => exact absurd hsvc List.not_mem_nil
  | cons first rest ih =>
    obtain ⟨hfirst, hrest⟩ := List.forall_mem_cons.mp hreadable
    obtain ⟨hnew, htypes⟩ := List.nodup_cons.mp htypes
    replace hnew : ∀ s ∈ rest, s.get "type" ≠ first.get "type" :=
      fun s hs heq => hnew (List.mem_map.mpr ⟨s, hs, heq⟩)
    rcases List.mem_cons.mp hsvc with rfl | hsvc
    · -- its own service; no later one has the type
      obtain ⟨eps, heps, hcarries⟩ := hfirst.endpoints
      have hlater : endpointUrl interface region svcType rest = some none :=
        endpointUrl_eq_none hrest fun s hs => htype ▸ hnew s hs
      unfold endpointUrl endpoints
      simp only [htype, Option.bind_eq_bind, Option.bind_some, Value.eqStr, beq_self_eq_true,
        Bool.not_true, Bool.false_eq_true, if_false, heps, endpointIn_eq hcarries,
        Option.getD_some]
      cases firstAdmitted interface region eps with
      | none => exact hlater
      | some ep => rfl
    · rw [endpointUrl_cons_of_ne hfirst fun heq => hnew svc hsvc (htype.trans heq.symm)]
      exact ih hrest htypes hsvc

/-! ## The endpoint health probes -/

/-- A service is probed once, at its URL. -/
theorem mem_targets (hreadable : ∀ svc ∈ catalog, Readable svc) {url : Value} :
    (svc, url) ∈ targets interface catalog ↔
      svc ∈ catalog ∧ ∃ text, firstUrl interface svc = some text ∧ url = .str text := by
  rw [targets_eq hreadable, List.mem_filterMap]
  constructor
  · rintro ⟨svc', hsvc', h⟩
    obtain ⟨text, htext, heq⟩ := Option.map_eq_some_iff.mp h
    obtain ⟨rfl, rfl⟩ := Prod.mk.inj heq
    exact ⟨hsvc', text, htext, rfl⟩
  · rintro ⟨hsvc, text, htext, rfl⟩
    exact ⟨svc, hsvc, by rw [htext]; rfl⟩

/-- The URL is not made of slashes only. -/
def NotSlashes (url : String) : Prop := url = "" ∨ rstripSlash url ≠ ""

/-- The region filter does not change which URL a service has: it admits the
first endpoint on the interface, or the first one it admits has the same URL. -/
def RegionAgrees (interface region : String) (eps : List Value) : Prop :=
  match eps.find? (onInterface interface) with
  | none => True
  | some first =>
    NotSlashes (urlOf first) ∧
      if admitted region first then True
      else
        match firstAdmitted interface region eps with
        | none => urlOf first = ""
        | some other => rstripSlash (urlOf other) = rstripSlash (urlOf first)

/-- Usage is collected from where health is probed, for one service. -/
def SameUrl (usage : Option String) (health : Option String) : Prop :=
  (∀ url, usage = some url → url ≠ "" → ∃ probed, health = some probed ∧ rstripSlash probed = url) ∧
    ((∀ url, usage = some url → url = "") → health = none)

theorem rstripSlash_empty : rstripSlash "" = "" := by rfl

theorem sameUrl_some_iff (v u : String) :
    SameUrl (some v) ((some u).filter (· != "")) ↔ NotSlashes u ∧ v = rstripSlash u := by
  unfold SameUrl NotSlashes
  by_cases hu : u = ""
  · subst hu
    rw [rstripSlash_empty]
    simp
  · have hhealth : (some u).filter (· != "") = some u := by simp [hu]
    rw [hhealth]
    constructor
    · rintro ⟨hsame, hnone⟩
      have hv : v ≠ "" := fun hv => absurd (hnone fun url h => by rw [← Option.some.inj h, hv]) (by simp)
      obtain ⟨probed, hprobed, heq⟩ := hsame v rfl hv
      obtain rfl := Option.some.inj hprobed
      exact ⟨.inr (heq ▸ hv), heq.symm⟩
    · rintro ⟨hslashes, rfl⟩
      refine ⟨?_, ?_⟩
      · rintro url hurl -
        exact ⟨u, rfl, Option.some.inj hurl⟩
      · intro hempty
        rcases hslashes with h | h
        · exact absurd h hu
        · exact absurd (hempty _ rfl) h

theorem sameUrl_none_iff (u : String) :
    SameUrl none ((some u).filter (· != "")) ↔ u = "" := by
  unfold SameUrl
  by_cases hu : u = ""
  · simp [hu]
  · simp [hu]

/-- The two selections from one list of endpoints. -/
theorem sameUrl_iff (interface region : String) (eps : List Value) :
    SameUrl ((firstAdmitted interface region eps).map fun ep => rstripSlash (urlOf ep))
      (((eps.find? (onInterface interface)).map urlOf).filter (· != "")) ↔
      RegionAgrees interface region eps := by
  unfold RegionAgrees
  cases hfirst : eps.find? (onInterface interface) with
  | none =>
    have hnone : firstAdmitted interface region eps = none := by
      rw [List.find?_eq_none] at hfirst
      refine List.find?_eq_none.mpr fun ep hep h => hfirst ep hep ?_
      exact (Bool.and_eq_true_iff.mp h).1
    rw [hnone]
    simp [SameUrl]
  | some first =>
    dsimp only
    rw [Option.map_some]
    by_cases hadmitted : admitted region first = true
    · -- the first endpoint is the one usage takes too
      have hsame : firstAdmitted interface region eps = some first := by
        obtain ⟨hon, before, after, heq, hbefore⟩ := List.find?_eq_some_iff_append.mp hfirst
        refine List.find?_eq_some_iff_append.mpr ⟨?_, before, after, heq, ?_⟩
        · rw [hon, hadmitted]
          rfl
        · intro ep hep
          have hoff := hbefore ep hep
          rw [Bool.not_eq_true'] at hoff ⊢
          rw [hoff, Bool.false_and]
      rw [hsame, Option.map_some, sameUrl_some_iff, if_pos hadmitted]
      simp
    · rw [if_neg hadmitted]
      cases firstAdmitted interface region eps with
      | none =>
        rw [Option.map_none, sameUrl_none_iff]
        exact ⟨fun h => ⟨.inl h, h⟩, fun h => h.2⟩
      | some other => rw [Option.map_some, sameUrl_some_iff]

/-! ## Runs -/

/-- A service is probed where usage is collected from: at the URL that
`endpoint_url` answers for its type, up to trailing slashes, and not at all when
that answers none. -/
def ProbedAsUsed (run : HealthRun) (probes : List (Value × Value)) (svc : Value)
    (svcType : String) : Prop :=
  (∀ url, endpointUrl (osInterface run.environ) (osRegionName run.environ) svcType run.catalog =
      some (some url) → url ≠ "" →
    ∃ probed, (svc, .str probed) ∈ probes ∧ rstripSlash probed = url) ∧
  ((∀ url, endpointUrl (osInterface run.environ) (osRegionName run.environ) svcType run.catalog =
      some (some url) → url = "") →
    ∀ probed, (svc, probed) ∉ probes)

/-- Health probes every service where usage is collected from. -/
def ProbesUsageEndpoints (run : HealthRun) (probes : List (Value × Value)) : Prop :=
  ∀ svc ∈ run.catalog, ∀ svcType, svc.get "type" = some (.str svcType) →
    ProbedAsUsed run probes svc svcType

section Run

variable {run : HealthRun} (hreadable : ∀ svc ∈ run.catalog, Readable svc)
  (htypes : (run.catalog.map fun svc => svc.get "type").Nodup)

include hreadable htypes

theorem probedAsUsed_iff (hsvc : svc ∈ run.catalog) (htype : svc.get "type" = some (.str svcType)) :
    ProbedAsUsed run (targets (osInterface run.environ) run.catalog) svc svcType ↔
      RegionAgrees (osInterface run.environ) (osRegionName run.environ) (endpoints svc) := by
  rw [← sameUrl_iff]
  unfold ProbedAsUsed SameUrl
  rw [endpointUrl_eq hreadable htypes hsvc htype]
  simp only [mem_targets hreadable, hsvc, true_and, Option.some.injEq, Value.str.injEq]
  refine and_congr (forall₃_congr fun url _ _ => ?_) (forall_congr' fun _ => ?_)
  · -- the probed URL is the first one on the interface
    constructor
    · rintro ⟨probed, ⟨text, htext, rfl⟩, heq⟩
      exact ⟨_, htext, heq⟩
    · rintro ⟨probed, hprobed, heq⟩
      exact ⟨probed, ⟨probed, hprobed, rfl⟩, heq⟩
  · constructor
    · intro h
      refine Option.eq_none_iff_forall_not_mem.mpr fun text htext => ?_
      exact h (.str text) ⟨text, htext, rfl⟩
    · rintro h probed ⟨text, htext, -⟩
      rw [firstUrl, h] at htext
      cases htext

end Run

/-- On a catalog with distinct service types, health probes what usage is
collected from exactly when the region filter changes no service's URL. -/
theorem probes_usage_endpoints_iff (sha256 : List UInt8 → String) (run : HealthRun)
    (hstarts : Starts run) (htype : ∀ svc ∈ run.catalog, ∃ t, svc.get "type" = some (.str t))
    (htypes : (run.catalog.map fun svc => svc.get "type").Nodup) :
    ∃ rows probes, run.collectHealthTraced sha256 = some (rows, probes) ∧
      (ProbesUsageEndpoints run probes ↔ ∀ svc ∈ run.catalog,
        RegionAgrees (osInterface run.environ) (osRegionName run.environ) (endpoints svc)) := by
  obtain ⟨rows, probes, hrun⟩ := collectHealthTraced_isSome hstarts
  obtain ⟨_, _, _, -, rfl, -, -⟩ := collectHealthTraced_spec hrun
  refine ⟨rows, _, hrun, ?_⟩
  constructor
  · intro h svc hsvc
    obtain ⟨svcType, hsvcType⟩ := htype svc hsvc
    exact (probedAsUsed_iff hstarts.catalog htypes hsvc hsvcType).mp (h svc hsvc svcType hsvcType)
  · intro h svc hsvc svcType hsvcType
    exact (probedAsUsed_iff hstarts.catalog htypes hsvc hsvcType).mpr (h svc hsvc)

/-- A compute service with one endpoint in each of the given regions. -/
def regionRun (regions : List String) : HealthRun where
  environ := fun name => if name = "OS_REGION_NAME" then some "two" else none
  now := 1767225723
  checkNow := 1767225723
  authUrl := "http://ks"
  catalog := [.obj [("type", .str "compute"), ("endpoints", .arr (regions.map fun region =>
    .obj [("interface", .str "internal"), ("region", .str region),
      ("url", .str ("http://nova." ++ region))]))]]
  outcome := fun _ _ => .response 200

theorem regionRun_starts (regions : List String) : Starts (regionRun regions) := by
  have hwindow : collectHealthWindow none 1767225723 = .ok 1767225720 := by rfl
  refine ⟨⟨1767225720, hwindow, by rfl⟩, by rfl, ?_⟩
  intro svc hsvc
  rw [List.mem_singleton.mp hsvc]
  refine ⟨⟨_, rfl, ?_⟩, rfl⟩
  intro ep hep
  obtain ⟨region, -, rfl⟩ := List.mem_map.mp hep
  exact ⟨⟨_, rfl⟩, _, rfl⟩

theorem regionRun_types (regions : List String) :
    (∀ svc ∈ (regionRun regions).catalog, ∃ t, svc.get "type" = some (.str t)) ∧
      ((regionRun regions).catalog.map fun svc => svc.get "type").Nodup := by
  refine ⟨?_, List.nodup_singleton _⟩
  intro svc hsvc
  rw [List.mem_singleton.mp hsvc]
  exact ⟨"compute", rfl⟩

/-- One region, the configured one. -/
theorem one_region_agrees :
    ∃ rows probes, (regionRun ["two"]).collectHealthTraced (fun _ => "") = some (rows, probes) ∧
      ProbesUsageEndpoints (regionRun ["two"]) probes := by
  obtain ⟨rows, probes, hrun, hiff⟩ := probes_usage_endpoints_iff (fun _ => "")
    (regionRun ["two"]) (regionRun_starts _) (regionRun_types _).1 (regionRun_types _).2
  refine ⟨rows, probes, hrun, hiff.mpr ?_⟩
  intro svc hsvc
  rw [List.mem_singleton.mp hsvc]
  exact ⟨.inr (by decide), trivial⟩

/-- Two regions, the configured one second: usage is collected from the second
endpoint, and health probes the first. -/
theorem other_region_probed :
    ∃ rows probes, (regionRun ["one", "two"]).collectHealthTraced (fun _ => "") =
        some (rows, probes) ∧
      endpointUrl "internal" "two" "compute" (regionRun ["one", "two"]).catalog =
        some (some "http://nova.two") ∧
      probes.map Prod.snd = [.str "http://nova.one"] ∧
      ¬ ProbesUsageEndpoints (regionRun ["one", "two"]) probes := by
  have hurl : endpointUrl "internal" "two" "compute" (regionRun ["one", "two"]).catalog =
      some (some "http://nova.two") := by rfl
  have hreturns : ∃ rows probes, (regionRun ["one", "two"]).collectHealthTraced (fun _ => "") =
      some (rows, probes) := collectHealthTraced_isSome (regionRun_starts _)
  obtain ⟨rows, probes, hrun⟩ := hreturns
  obtain ⟨_, _, _, -, rfl, -, -⟩ := collectHealthTraced_spec hrun
  have hprobes : (targets "internal" (regionRun ["one", "two"]).catalog).map Prod.snd =
      [.str "http://nova.one"] := by rfl
  refine ⟨rows, _, hrun, hurl, hprobes, ?_⟩
  intro h
  obtain ⟨hsame, -⟩ := h _ (List.mem_singleton_self _) "compute" rfl
  obtain ⟨probed, hmem, heq⟩ := hsame "http://nova.two" hurl (by decide)
  have hsnd : (Value.str probed) ∈ [Value.str "http://nova.one"] := by
    rw [← hprobes]
    exact List.mem_map.mpr ⟨_, hmem, rfl⟩
  rw [Value.str.inj (List.mem_singleton.mp hsnd)] at heq
  exact absurd heq (by decide)

end OpenstackBlueprint.Theorems.HealthEndpoints
