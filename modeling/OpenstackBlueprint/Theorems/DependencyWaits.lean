import OpenstackBlueprint.HelmToolkit.DependencyEffects

/-!
# Every pod waits for what its component declares

Rendering an init container changes the values that later templates read: without a
local registry the lists of the RabbitMQ job are merged into the static dependencies
themselves, disabled jobs are dropped from them, and custom resources get a namespace
wherever they stand. The sets are the same every time all the same, because merging a
source again adds nothing, the filter commutes with merging, and a namespace is set
again before a custom resource is printed.

* in every order of rendering, the init container of a component waits for the sets
  its chart declares (`init_container_waits_are_declared`);
* a pod whose dependencies are resolved for several backends waits for the static
  ones and for those of every backend when some backend has targeted dependencies,
  and for nothing at all when none has (`resolved_pod_waits`).
-/

namespace OpenstackBlueprint.HelmToolkit

open OpenstackBlueprint.Kit

variable {F : Type}

/-! ## What rendering keeps -/

section Declared

variable (chart : Chart F) (component : String)

/-- The static dependencies of a component in the chart's values. -/
def Chart.staticDeps : Slots String (Item F) := chart.view (chart.values.heap (.static component))

/-- What the RabbitMQ job adds for a component. -/
def Chart.rabbitDeps : Slots String (Item F) := chart.view (chart.values.heap (.jobRabbitInit component))

/-- What a component waits for by the values of its chart. -/
def Chart.declared : Slots String (Item F) :=
  chart.waits component (chart.values.heap (.static component)).isSome
    (chart.staticDeps component) (chart.view chart.localImageRegistry) (chart.rabbitDeps component)

end Declared

/-- The static dependencies of a component: as in the chart, without its disabled jobs, or with
what the RabbitMQ job adds as well. -/
structure StaticKept (chart : Chart F) (component : String) (deps : Option (Deps Ref)) : Prop where
  isSome : deps.isSome = (chart.values.heap (.static component)).isSome
  view : chart.view deps = chart.staticDeps component ∨
    chart.view deps = (chart.staticDeps component).keepAt "jobs" (Enabled chart.manifests) ∨
    chart.usesRegistry component = false ∧ chart.usesRabbitInit = true ∧ deps.isSome = true ∧
      chart.view deps = ((chart.staticDeps component).merge (chart.rabbitDeps component)).keepAt "jobs"
        (Enabled chart.manifests)

/-- The dynamic sections of the chart are as they were. -/
def Dynamic (chart : Chart F) (v : Values F) : Prop :=
  ∀ a, ¬ a.Own → v.heap a = chart.values.heap a

/-- What every helper keeps. -/
structure Kept (chart : Chart F) (v : Values F) : Prop where
  dynamic : Dynamic chart v
  static : ∀ component, StaticKept chart component (v.heap (.static component))
  sound : v.Sound chart
  pod : ∀ a, v.podDependency = some a → a.Own ∧ v.Old a

section Kept

variable {chart : Chart F} {component : String} {v v' : Values F} {deps deps' : Option (Deps Ref)}

/-- Disabled jobs that are dropped beforehand make no difference. -/
theorem waits_keepAt (isSome : Bool) (s registry rabbit : Slots String (Item F)) :
    chart.waits component isSome (s.keepAt "jobs" (Enabled chart.manifests)) registry rabbit =
      chart.waits component isSome s registry rabbit := by
  unfold Chart.waits Chart.allWaits Chart.ownWaits
  cases chart.usesRegistry component <;> cases chart.usesRabbitInit <;> cases isSome <;>
    simp [Slots.keepAt_merge]

/-- The waits do not depend on what has been rendered before. -/
theorem StaticKept.waits (h : StaticKept chart component deps) :
    chart.waits component deps.isSome (chart.view deps)
      (chart.view chart.localImageRegistry) (chart.rabbitDeps component) =
        chart.declared component := by
  unfold Chart.declared
  rw [← h.isSome]
  rcases h.view with hview | hview | ⟨hregistry, hrabbit, hsome, hview⟩
  · rw [hview]
  · rw [hview, waits_keepAt]
  · rw [hview, waits_keepAt]
    simp [Chart.waits, Chart.allWaits, Chart.ownWaits, hregistry, hrabbit, hsome]

/-- The map of the component after its init container. -/
theorem StaticKept.initContainer (h : StaticKept chart component deps)
    (hregistry : chart.usesRegistry component = false) (hsome : deps'.isSome = deps.isSome)
    (hview : chart.view deps' = chart.declared component) :
    StaticKept chart component deps' := by
  refine ⟨hsome.trans h.isSome, ?_⟩
  rw [hview]
  unfold Chart.declared Chart.waits Chart.allWaits Chart.ownWaits
  rw [← h.isSome, ← hsome, hregistry]
  cases hrabbit : chart.usesRabbitInit with
  | false => exact .inr (.inl (by simp))
  | true =>
    cases hnull : deps'.isSome with
    | false => exact .inr (.inl (by simp))
    | true => exact .inr (.inr ⟨rfl, rfl, rfl, by simp⟩)

/-- The map of the component after its disabled jobs are dropped. -/
theorem StaticKept.filterJobs (h : StaticKept chart component deps)
    (hsome : deps'.isSome = deps.isSome)
    (hview : chart.view deps' =
      (chart.view deps).keepAt "jobs" (Enabled chart.manifests)) :
    StaticKept chart component deps' := by
  refine ⟨hsome.trans h.isSome, ?_⟩
  rw [hview]
  rcases h.view with hdeps | hdeps | ⟨hregistry, hrabbit, hnull, hdeps⟩
  · exact .inr (.inl (by rw [hdeps]))
  · exact .inr (.inl (by rw [hdeps, Slots.keepAt_keepAt]))
  · exact .inr (.inr ⟨hregistry, hrabbit, hsome.trans hnull, by rw [hdeps, Slots.keepAt_keepAt]⟩)

theorem Addr.Own.ne_of_not {a b : Addr} (ha : a.Own) (hb : ¬ b.Own) : b ≠ a := by
  rintro rfl
  exact hb ha

theorem old_of_not_own {a : Addr} (h : ¬ a.Own) : v.Old a := by
  rintro n rfl
  exact absurd trivial h

theorem Dynamic.effect {a : Addr} {s : Slots String (Item F)} (h : Dynamic chart v)
    (heffect : Effect chart v v' a s) (hown : a.Own) : Dynamic chart v' := fun b hb =>
  (heffect.other b (hown.ne_of_not hb) (old_of_not_own hb)).trans (h b hb)

/-- A helper that changes one map keeps everything when it keeps that one. -/
theorem Kept.effect {a : Addr} {s : Slots String (Item F)} (h : Kept chart v)
    (heffect : Effect chart v v' a s) (hown : a.Own)
    (hstatic : ∀ component, a = .static component →
      StaticKept chart component (v'.heap (.static component))) : Kept chart v' where
  dynamic := h.dynamic.effect heffect hown
  static component := by
    by_cases ha : a = .static component
    · exact hstatic component ha
    · have hsame := heffect.other (.static component) (Ne.symm ha) (by intro n hn; cases hn)
      rw [hsame]
      exact h.static component
  sound := heffect.sound h.sound
  pod b hb := by
    rw [heffect.pod] at hb
    exact ⟨(h.pod b hb).1, (h.pod b hb).2.mono heffect.next⟩

end Kept

/-! ## One snippet -/

section Snippet

variable {chart : Chart F} {component : String} {v v' : Values F} {source : Addr}
  {deps : Option (Deps Ref)}

/-- The map a snippet starts from is one it may change. -/
theorem Kept.own_source (h : Kept chart v) (hsource : v.source component = some source) :
    source.Own ∧ v.Old source := by
  unfold Values.source at hsource
  split at hsource
  · exact h.pod source (Option.eq_some_of_filter_eq_some hsource)
  · cases hsource
    exact ⟨trivial, by intro n hn; cases hn⟩

theorem source_of_ne (v : Values F) (hcomponent : component ≠ "pod_dependency") :
    v.source component = some (.static component) := by
  rw [Values.source, if_neg hcomponent]

theorem source_static (hsource : v.source component = some source)
    (hcomponent : component ≠ "pod_dependency") : source = .static component := by
  rw [source_of_ne v hcomponent] at hsource
  exact (Option.some.inj hsource).symm

theorem own_depsAddr (hown : source.Own) : (chart.depsAddr component v source).Own := by
  unfold Chart.depsAddr
  split
  · trivial
  · exact hown

/-- The map is the component's own only without the registry. -/
theorem depsAddr_eq_old {a : Addr} (hold : v.Old a)
    (h : chart.depsAddr component v source = a) :
    chart.usesRegistry component = false ∧ source = a := by
  unfold Chart.depsAddr at h
  split at h
  · subst h
    exact absurd (hold _ rfl) (lt_irrefl _)
  · rename_i hregistry
    exact ⟨by simpa using hregistry, h⟩

theorem waits_of_no_rabbit (hregistry : chart.usesRegistry component = false) (isSome : Bool)
    (s registry : Slots String (Item F)) :
    chart.waits component isSome s registry Slots.empty =
      s.keepAt "jobs" (Enabled chart.manifests) := by
  simp [Chart.waits, Chart.allWaits, Chart.ownWaits, hregistry]

variable [DecidableEq F]

/-- What the init container of a component renders, and what that keeps. -/
theorem Kept.initContainer (h : Kept chart v)
    (hpod : chart.values.heap (.jobRabbitInit "pod_dependency") = none)
    (hsource : v.source component = some source) :
    ∃ v' deps, chart.initContainer component v = some (v', deps) ∧
      deps = v'.print (chart.depsAddr component v source) ∧
      view deps = chart.waits component (v.heap source).isSome (chart.view (v.heap source))
        (chart.view chart.localImageRegistry) (chart.rabbitDeps component) ∧
      Effect chart v v' (chart.depsAddr component v source)
        (chart.waits component (v.heap source).isSome (chart.view (v.heap source))
          (chart.view chart.localImageRegistry) (chart.rabbitDeps component)) ∧
      Kept chart v' := by
  obtain ⟨hown, hold⟩ := h.own_source hsource
  obtain ⟨v', deps, hinit, hprint, hwaits, heffect⟩ :=
    initContainer_spec h.sound hsource hold hown
  rw [h.dynamic .localImageRegistry id, h.dynamic (.jobRabbitInit component) id] at hwaits heffect
  refine ⟨v', deps, hinit, hprint, hwaits, heffect,
    h.effect heffect (own_depsAddr hown) fun c haddr => ?_⟩
  have holdc := old_static v c
  obtain ⟨hregistry, rfl⟩ := depsAddr_eq_old holdc haddr
  have hsome := heffect.isSome
  have hview := heffect.view
  rw [haddr] at hsome hview
  by_cases hcomponent : component = "pod_dependency"
  · subst hcomponent
    refine (h.static c).filterJobs (hsome holdc) ?_
    rw [hview, hpod, Chart.view_none, waits_of_no_rabbit hregistry]
  · obtain rfl : c = component := by simpa using source_static hsource hcomponent
    exact (h.static c).initContainer hregistry (hsome holdc) (hview.trans (h.static c).waits)

/-- The init container of a component waits for what the chart declares for it. -/
theorem Kept.declared (h : Kept chart v)
    (hpod : chart.values.heap (.jobRabbitInit "pod_dependency") = none)
    (hcomponent : component ≠ "pod_dependency") :
    ∃ v' deps, chart.initContainer component v = some (v', deps) ∧
      view deps = chart.declared component := by
  obtain ⟨v', deps, hinit, _, hwaits, _⟩ := h.initContainer hpod (source_of_ne v hcomponent)
  exact ⟨v', deps, hinit, hwaits.trans (h.static component).waits⟩

/-- What the service account of a component renders, and what that keeps. -/
theorem Kept.serviceAccount (h : Kept chart v) (hsource : v.source component = some source) :
    ∃ v', chart.serviceAccount component v =
        some (v', v'.print (chart.depsAddr component v source)) ∧
      Effect chart v v' (chart.depsAddr component v source)
        ((chart.ownWaits component (chart.view (v.heap source))
          (chart.view chart.localImageRegistry)).keepAt "jobs" (Enabled chart.manifests)) ∧
      Kept chart v' := by
  obtain ⟨hown, hold⟩ := h.own_source hsource
  obtain ⟨v', haccount, heffect⟩ := serviceAccount_spec h.sound hsource hold
  rw [h.dynamic .localImageRegistry id] at heffect
  refine ⟨v', haccount, heffect, h.effect heffect (own_depsAddr hown) fun c haddr => ?_⟩
  have holdc := old_static v c
  obtain ⟨hregistry, rfl⟩ := depsAddr_eq_old holdc haddr
  have hsome := heffect.isSome
  have hview := heffect.view
  rw [haddr] at hsome hview
  refine (h.static c).filterJobs (hsome holdc) ?_
  simpa [Chart.ownWaits, hregistry] using hview

/-- A snippet has a map to start from. -/
theorem Snippet.has_source (h : Snippet chart v v') :
    ∃ component source, v.source component = some source ∧
      ((∃ deps, chart.initContainer component v = some (v', deps)) ∨
        ∃ deps, chart.serviceAccount component v = some (v', deps)) := by
  cases h with
  | initContainer component _ deps h =>
    cases hsource : v.source component with
    | none => simp [Chart.initContainer, Chart.ownDeps, hsource] at h
    | some source => exact ⟨component, source, hsource, .inl ⟨deps, h⟩⟩
  | serviceAccount component _ deps h =>
    cases hsource : v.source component with
    | none => simp [Chart.serviceAccount, Chart.ownDeps, hsource] at h
    | some source => exact ⟨component, source, hsource, .inr ⟨deps, h⟩⟩

theorem Kept.snippet (h : Kept chart v)
    (hpod : chart.values.heap (.jobRabbitInit "pod_dependency") = none)
    (hsnippet : Snippet chart v v') : Kept chart v' := by
  obtain ⟨component, source, hsource, ⟨deps, hinit⟩ | ⟨deps, haccount⟩⟩ := hsnippet.has_source
  · obtain ⟨v₁, _, hinit', _, _, _, hkept⟩ := h.initContainer hpod hsource
    obtain ⟨rfl, _⟩ := Prod.mk.inj (Option.some.inj (hinit'.symm.trans hinit))
    exact hkept
  · obtain ⟨v₁, haccount', _, hkept⟩ := h.serviceAccount hsource
    obtain ⟨rfl, _⟩ := Prod.mk.inj (Option.some.inj (haccount'.symm.trans haccount))
    exact hkept

end Snippet

/-! ## The resolver -/

section Resolver

variable {chart : Chart F} {key : String} {v : Values F} {pod : Addr}

/-- What the mixins that have targeted dependencies add. -/
def Chart.addTargeted (chart : Chart F) (key : String) (s : Slots String (Item F))
    (names : List String) : Slots String (Item F) :=
  (names.filter chart.hasTargeted).foldl
    (fun s name => s.merge (chart.view (chart.values.heap (.targeted name key)))) s

theorem addTargeted_cons (s : Slots String (Item F)) (name : String) (names : List String) :
    chart.addTargeted key s (name :: names) =
      chart.addTargeted key (if chart.hasTargeted name then
        s.merge (chart.view (chart.values.heap (.targeted name key))) else s) names := by
  unfold Chart.addTargeted
  cases htargeted : chart.hasTargeted name <;> simp [htargeted]

theorem addTargeted_keepAt (s : Slots String (Item F)) (names : List String) :
    (chart.addTargeted key (s.keepAt "jobs" (Enabled chart.manifests)) names).keepAt "jobs"
        (Enabled chart.manifests) =
      (chart.addTargeted key s names).keepAt "jobs" (Enabled chart.manifests) := by
  induction names generalizing s with
  | nil => simp [Chart.addTargeted]
  | cons name names ih =>
    rw [addTargeted_cons, addTargeted_cons]
    cases chart.hasTargeted name with
    | false => simpa using ih s
    | true =>
      simp only [if_true]
      rw [← ih, Slots.keepAt_keepAt_merge, ih]

variable [DecidableEq F]

/-- One mixin is merged after the map at `deps`. -/
theorem mix_effect (hsound : v.Sound chart) (hdynamic : Dynamic chart v)
    (hpod : (v.heap pod).isSome) (hown : pod.Own) (deps : Addr) (name key : String) :
    Effect chart v (v.merge pod [deps, .targeted name key]) pod
      (((chart.view (v.heap pod)).merge (chart.view (v.heap deps))).merge
        (chart.view (chart.values.heap (.targeted name key)))) := by
  have hnot : ¬ (Addr.targeted name key).Own := id
  rw [← hdynamic _ hnot]
  exact Effect.merge hsound hpod deps (.targeted name key) (hown.ne_of_not hnot)
    (old_of_not_own hnot)

/-- The loop once `__deps` is `pod_dependency`. -/
theorem mixMany_pod (hsound : v.Sound chart) (hdynamic : Dynamic chart v)
    (hpod : (v.heap pod).isSome) (hown : pod.Own) (key : String) (names : List String) :
    Effect chart v (chart.mixMany key pod v pod names) pod
        (chart.addTargeted key (chart.view (v.heap pod)) names) ∧
      ((chart.mixMany key pod v pod names).heap pod).isSome := by
  induction names generalizing v with
  | nil => exact ⟨Effect.refl chart v pod, hpod⟩
  | cons name names ih =>
    rw [addTargeted_cons, Chart.mixMany]
    split
    · have heffect := mix_effect hsound hdynamic hpod hown pod name key
      have hpod' := (isSome_merge v pod [pod, .targeted name key]).trans hpod
      have hrest := ih (heffect.sound hsound) (hdynamic.effect heffect hown) hpod'
      rw [heffect.view, Slots.merge_self] at hrest
      exact ⟨heffect.trans hrest.1, hrest.2⟩
    · exact ih hsound hdynamic hpod

/-- The loop while `__deps` is still the static map: it is merged with the first mixin. -/
theorem mixMany_static (hsound : v.Sound chart) (hdynamic : Dynamic chart v)
    (hpod : (v.heap pod).isSome) (hown : pod.Own)
    (hempty : chart.view (v.heap pod) = Slots.empty) (key : String) (names : List String) :
    Effect chart v (chart.mixMany key pod v (.static key) names) pod
        (if names.any chart.hasTargeted then
          chart.addTargeted key (chart.view (v.heap (.static key))) names
        else Slots.empty) ∧
      ((chart.mixMany key pod v (.static key) names).heap pod).isSome := by
  induction names with
  | nil =>
    have hrefl := Effect.refl chart v pod
    rw [hempty] at hrefl
    exact ⟨by simpa [Chart.mixMany] using hrefl, hpod⟩
  | cons name names ih =>
    rw [addTargeted_cons, Chart.mixMany, List.any_cons]
    cases chart.hasTargeted name with
    | false => simpa using ih
    | true =>
      have heffect := mix_effect hsound hdynamic hpod hown (.static key) name key
      have hpod' := (isSome_merge v pod [.static key, .targeted name key]).trans hpod
      have hrest := mixMany_pod (heffect.sound hsound) (hdynamic.effect heffect hown) hpod' hown key
        names
      rw [heffect.view, hempty, Slots.empty_merge] at hrest
      simpa using ⟨heffect.trans hrest.1, hrest.2⟩

/-- What `pod_dependency` holds by what the static map does. -/
def Chart.resolved (chart : Chart F) (mixin : Mixin) (key : String)
    (static : Slots String (Item F)) : Slots String (Item F) :=
  match mixin with
  | .none => static
  | .one name => if name = "" then static else chart.addTargeted key static [name]
  | .many names =>
    if names.isEmpty then static
    -- without a mixin to merge with, the static dependencies are not merged either
    else if names.any chart.hasTargeted then chart.addTargeted key static names
    else Slots.empty

/-- Whether `pod_dependency` is a map. -/
def Chart.resolvedSome (chart : Chart F) (mixin : Mixin) (key : String) : Bool :=
  (match mixin with
    | .none => false
    | .one name => name ≠ "" && chart.hasTargeted name
    | .many names => !names.isEmpty) ||
  (chart.values.heap (.static key)).isSome

/-- The map the resolver makes `pod_dependency`: the static one, or a new one. -/
structure Mixed (chart : Chart F) (mixin : Mixin) (key : String) (v : Values F)
    (result : Values F × Addr) : Prop where
  effect : Effect chart v result.1 result.2
    (chart.resolved mixin key (chart.view (v.heap (.static key))))
  isSome : (result.1.heap result.2).isSome = chart.resolvedSome mixin key
  place : result.2 = .static key ∧ result.1.heap (.static key) = v.heap (.static key) ∨
    result.2 = .fresh v.next ∧ v.next < result.1.next

theorem mixed_spec (h : Kept chart v) (mixin : Mixin) (key : String) :
    Mixed chart mixin key v (chart.mixed mixin key v) := by
  have hstatic := (h.static key).isSome
  have hrefl := Effect.refl chart v (.static key)
  have halloc := Effect.alloc chart v
  have hother := Effect.alloc_other chart (old_static v key)
  have hsame : v.alloc.1.heap (.static key) = v.heap (.static key) :=
    halloc.other _ (by simp) (old_static v key)
  have hpod : (v.alloc.1.heap (.fresh v.next)).isSome := by simp [Values.alloc]
  have hdynamic := h.dynamic.effect halloc trivial
  have hsound := halloc.sound h.sound
  unfold Chart.mixed
  cases mixin with
  | none => exact ⟨hrefl, by simpa [Chart.resolvedSome] using hstatic, .inl ⟨rfl, rfl⟩⟩
  | one name =>
    by_cases hname : name = ""
    · refine ⟨?_, ?_, .inl ?_⟩
      · simpa [hname, Chart.resolved] using hrefl
      · simpa [hname, Chart.resolvedSome] using hstatic
      · simp [hname]
    · simp only [hname, if_false]
      cases htargeted : chart.hasTargeted name with
      | false =>
        refine ⟨?_, ?_, .inl ⟨rfl, hsame⟩⟩
        · simpa [Chart.resolved, hname, addTargeted_cons, htargeted, Chart.addTargeted] using hother
        · simp only [Bool.false_eq_true, if_false, hsame]
          simpa [Chart.resolvedSome, htargeted] using hstatic
      | true =>
        have heffect := mix_effect hsound hdynamic hpod trivial (.static key) name key
        rw [halloc.view, hsame, Slots.empty_merge] at heffect
        refine ⟨?_, ?_, .inr ⟨rfl, ?_⟩⟩
        · simpa [Chart.resolved, hname, addTargeted_cons, htargeted, Chart.addTargeted] using
            halloc.trans heffect
        · simp only [if_true]
          rw [isSome_merge, alloc_snd, hpod]
          simp [Chart.resolvedSome, hname, htargeted]
        · simpa using lt_of_lt_of_le (Nat.lt_succ_self v.next) heffect.next
  | many names =>
    cases names with
    | nil => exact ⟨hrefl, by simpa [Chart.resolvedSome] using hstatic, .inl ⟨rfl, rfl⟩⟩
    | cons name names =>
      obtain ⟨heffect, hsome⟩ := mixMany_static hsound hdynamic hpod trivial halloc.view key
        (name :: names)
      rw [hsame] at heffect
      refine ⟨halloc.trans heffect, ?_, .inr ⟨rfl, ?_⟩⟩
      · exact hsome.trans (by simp [Chart.resolvedSome])
      · exact lt_of_lt_of_le (Nat.lt_succ_self v.next) heffect.next

/-- The resolver leaves the enabled ones of the resolved dependencies in `pod_dependency`. -/
theorem Kept.dependencyResolver (h : Kept chart v) (mixin : Mixin) (key : String) :
    ∃ v' pod, chart.dependencyResolver mixin key v = some v' ∧ Kept chart v' ∧
      v'.podDependency = some pod ∧ (∀ c, pod = .static c → c = key) ∧
      (v'.heap pod).isSome = chart.resolvedSome mixin key ∧
      chart.view (v'.heap pod) =
        (chart.resolved mixin key (chart.view (v.heap (.static key)))).keepAt "jobs"
          (Enabled chart.manifests) := by
  have hmixed := mixed_spec h mixin key
  unfold Chart.dependencyResolver
  generalize chart.mixed mixin key v = result at hmixed ⊢
  obtain ⟨v₁, pod⟩ := result
  have hown : pod.Own := by
    rcases hmixed.place with ⟨hpod, _⟩ | ⟨hpod, _⟩
    · exact (show pod = _ from hpod) ▸ trivial
    · exact (show pod = _ from hpod) ▸ trivial
  have hplace : ∀ c, pod = .static c → c = key ∧ v₁.heap (.static c) = v.heap (.static c) := by
    rintro c rfl
    rcases hmixed.place with ⟨hc, hsame⟩ | ⟨hc, _⟩
    · cases hc
      exact ⟨rfl, hsame⟩
    · cases hc
  have hold : v₁.Old pod := by
    rintro n rfl
    rcases hmixed.place with ⟨hc, _⟩ | ⟨hc, hlt⟩
    · cases hc
    · cases hc
      exact hlt
  have hkept : Kept chart v₁ := by
    refine h.effect hmixed.effect hown fun c hc => ?_
    rw [(hplace c hc).2]
    exact h.static c
  have hkept' : Kept chart { v₁ with podDependency := some pod } := by
    refine ⟨hkept.dynamic, hkept.static, ⟨hkept.sound.typed, hkept.sound.content⟩, ?_⟩
    rintro a ⟨⟩
    exact ⟨hown, hold⟩
  obtain ⟨v', hfilter, heffect⟩ := Effect.filterJobs chart.manifests hkept'.sound pod
  refine ⟨v', pod, hfilter, ?_, heffect.pod, fun c hc => (hplace c hc).1, ?_, ?_⟩
  · refine hkept'.effect heffect hown fun c hc => ?_
    subst hc
    exact (hkept'.static c).filterJobs (heffect.isSome (old_static _ c)) heffect.view
  · exact (heffect.isSome hold).trans hmixed.isSome
  · rw [heffect.view]
    exact congrArg (Slots.keepAt "jobs" (Enabled chart.manifests)) hmixed.effect.view

end Resolver

/-! ## Any order of rendering -/

/-- `pod_dependency` holds the enabled resolved dependencies of the last resolver. -/
structure PodKept (chart : Chart F) (mixin : Mixin) (key : String) (v : Values F) (pod : Addr) :
    Prop where
  kept : Kept chart v
  current : v.podDependency = some pod
  place : ∀ c, pod = .static c → c = key
  isSome : (v.heap pod).isSome = chart.resolvedSome mixin key
  view : chart.view (v.heap pod) =
    (chart.resolved mixin key (chart.staticDeps key)).keepAt "jobs" (Enabled chart.manifests)

section Resolved

variable {chart : Chart F} {mixin : Mixin} {key : String} {v v' : Values F} {pod : Addr}

/-- A snippet leaves `pod_dependency`, or filters it again. -/
theorem PodKept.effect {a : Addr} {s : Slots String (Item F)} (h : PodKept chart mixin key v pod)
    (heffect : Effect chart v v' a s) (hkept : Kept chart v')
    (hsame : a = pod → s = (chart.view (v.heap pod)).keepAt "jobs"
      (Enabled chart.manifests)) : PodKept chart mixin key v' pod := by
  have hold := (h.kept.pod pod h.current).2
  by_cases ha : a = pod
  · subst ha
    refine ⟨hkept, heffect.pod.trans h.current, h.place, (heffect.isSome hold).trans h.isSome, ?_⟩
    rw [heffect.view, hsame rfl, h.view, Slots.keepAt_keepAt]
  · have hheap := heffect.other pod (Ne.symm ha) hold
    exact ⟨hkept, heffect.pod.trans h.current, h.place, by rw [hheap, h.isSome],
      by rw [hheap, h.view]⟩

/-- A static map that the RabbitMQ job adds nothing to is resolved as the chart has it. -/
theorem resolved_static (mixin : Mixin) (key : String) {deps : Option (Deps Ref)}
    (h : StaticKept chart key deps) (hkey : chart.values.heap (.jobRabbitInit key) = none) :
    (chart.resolved mixin key (chart.view deps)).keepAt "jobs" (Enabled chart.manifests) =
      (chart.resolved mixin key (chart.staticDeps key)).keepAt "jobs" (Enabled chart.manifests) := by
  have hview : chart.view deps = chart.staticDeps key ∨
      chart.view deps = (chart.staticDeps key).keepAt "jobs" (Enabled chart.manifests) := by
    rcases h.view with hdeps | hdeps | ⟨_, _, _, hdeps⟩
    · exact .inl hdeps
    · exact .inr hdeps
    · rw [Chart.rabbitDeps, hkey, Chart.view_none, Slots.merge_empty] at hdeps
      exact .inr hdeps
  rcases hview with hdeps | hdeps
  · rw [hdeps]
  · rw [hdeps]
    unfold Chart.resolved
    cases mixin with
    | none => simp
    | one name =>
      dsimp only
      split
      · simp
      · exact addTargeted_keepAt _ _
    | many names =>
      dsimp only
      split
      · simp
      · split
        · exact addTargeted_keepAt _ _
        · rfl

end Resolved

section Rendering

variable [DecidableEq F] {chart : Chart F}

theorem kept_invariant (htyped : chart.WellTyped)
    (hpod : chart.values.heap (.jobRabbitInit "pod_dependency") = none) :
    chart.rendering.Invariant (Kept chart) := by
  refine TSys.Inductive.invariant ⟨?_, ?_⟩
  · rintro v rfl
    refine ⟨fun _ _ => rfl, fun component => ⟨rfl, .inl rfl⟩, ⟨htyped, fun _ => .inl rfl⟩, ?_⟩
    intro a ha
    cases ha
  · intro v v' h hrender
    cases hrender with
    | snippet _ hsnippet => exact h.snippet hpod hsnippet
    | dependencyResolver mixin key _ hresolve =>
      obtain ⟨v₁, _, hresolve', hkept, _⟩ := h.dependencyResolver mixin key
      obtain rfl := Option.some.inj (hresolve'.symm.trans hresolve)
      exact hkept

/-- Whatever has been rendered before, the init container of a component waits for what the chart
declares for it. -/
theorem init_container_waits_are_declared (chart : Chart F) (htyped : chart.WellTyped)
    (hpod : chart.values.heap (.jobRabbitInit "pod_dependency") = none) {v : Values F}
    (hv : chart.rendering.Reachable v) (component : String)
    (hcomponent : component ≠ "pod_dependency") :
    ∃ v' deps, chart.initContainer component v = some (v', deps) ∧
      view deps = chart.declared component :=
  (kept_invariant htyped hpod v hv).declared hpod hcomponent

/-- Part of the values of designate: the RabbitMQ job adds itself to the jobs of the API. -/
def designateChart : Chart (String × String) where
  localRegistryActive := false
  manifests := ⟨[("job_rabbit_init", true)], by decide⟩
  static := ⟨[("api", some ⟨[("jobs", some [.name "designate-db-sync"])], by decide⟩)], by decide⟩
  localImageRegistry := none
  jobRabbitInit :=
    ⟨[("api", some ⟨[("jobs", some [.name "designate-rabbit-init"])], by decide⟩)], by decide⟩
  targeted := Dict.empty
  content _ := ("", "")
  setNamespace := id
  setNamespace_idem _ := rfl

theorem designateChart_wellTyped : designateChart.WellTyped := by
  have hsingle : ∀ {c : String} {job : String} {deps : Deps Ref},
      ((⟨[("api", some ⟨[("jobs", some [.name job])], by simp⟩)], by simp⟩ :
        Dict String (Option (Deps Ref))).get? c).join = some deps → Typed deps := by
    intro c job deps h
    rw [Option.join_eq_some_iff, Dict.get?_eq_some_iff] at h
    simp only [List.mem_singleton, Prod.mk.injEq, Option.some.injEq] at h
    obtain ⟨_, rfl⟩ := h
    refine typed_of_entries ?_
    simp only [List.forall_mem_singleton, Option.getD_some]
    exact ⟨fun _ => ⟨job, rfl⟩, by simp, by simp⟩
  intro a deps h
  cases a with
  | static c => exact hsingle h
  | localImageRegistry => cases h
  | jobRabbitInit c => exact hsingle h
  | targeted mixin key => cases h
  | fresh n => cases h

/-- The API's init container, rendered twice, waits for the same. -/
theorem init_container_waits_are_declared_designate :
    ∃ v v' deps deps', designateChart.initContainer "api" designateChart.values = some (v, deps) ∧
      designateChart.initContainer "api" v = some (v', deps') ∧
      view deps = designateChart.declared "api" ∧ view deps' = designateChart.declared "api" := by
  have hstart : designateChart.rendering.Reachable designateChart.values := .init rfl
  obtain ⟨v, deps, hfirst, hview⟩ := init_container_waits_are_declared designateChart
    designateChart_wellTyped rfl hstart "api" (by decide)
  have hnext := hstart.step (.snippet v (.initContainer "api" v deps hfirst))
  obtain ⟨v', deps', hsecond, hview'⟩ := init_container_waits_are_declared designateChart
    designateChart_wellTyped rfl hnext "api" (by decide)
  exact ⟨v, v', deps, deps', hfirst, hsecond, hview, hview'⟩

section PodKept

variable {mixin : Mixin} {key : String} {v v' : Values F} {pod : Addr}

theorem PodKept.snippet (h : PodKept chart mixin key v pod)
    (hpod : chart.values.heap (.jobRabbitInit "pod_dependency") = none)
    (hkey : chart.values.heap (.jobRabbitInit key) = none) (hsnippet : Snippet chart v v') :
    PodKept chart mixin key v' pod := by
  have hold := (h.kept.pod pod h.current).2
  obtain ⟨component, source, hsource, ⟨deps, hinit⟩ | ⟨deps, haccount⟩⟩ := hsnippet.has_source
  · obtain ⟨v₁, _, hinit', _, _, heffect, hkept⟩ := h.kept.initContainer hpod hsource
    obtain ⟨rfl, _⟩ := Prod.mk.inj (Option.some.inj (hinit'.symm.trans hinit))
    refine h.effect heffect hkept fun haddr => ?_
    obtain ⟨hregistry, rfl⟩ := depsAddr_eq_old hold haddr
    have hrabbit : chart.rabbitDeps component = Slots.empty := by
      unfold Chart.rabbitDeps
      by_cases hcomponent : component = "pod_dependency"
      · rw [hcomponent, hpod, Chart.view_none]
      · rw [h.place component (source_static hsource hcomponent), hkey, Chart.view_none]
    rw [hrabbit, waits_of_no_rabbit hregistry]
  · obtain ⟨v₁, haccount', heffect, hkept⟩ := h.kept.serviceAccount hsource
    obtain ⟨rfl, _⟩ := Prod.mk.inj (Option.some.inj (haccount'.symm.trans haccount))
    refine h.effect heffect hkept fun haddr => ?_
    obtain ⟨hregistry, rfl⟩ := depsAddr_eq_old hold haddr
    simp [Chart.ownWaits, hregistry]

end PodKept

/-- A pod whose dependencies are resolved waits for the resolved ones, whatever was rendered
before the resolver and whichever snippets after it; null can not be waited for. -/
theorem resolved_pod_waits (chart : Chart F) (htyped : chart.WellTyped)
    (hpod : chart.values.heap (.jobRabbitInit "pod_dependency") = none) {v : Values F}
    (hv : chart.rendering.Reachable v) (mixin : Mixin) (key : String)
    (hkey : chart.values.heap (.jobRabbitInit key) = none) :
    ∃ v', chart.dependencyResolver mixin key v = some v' ∧
      ∀ v'', Relation.ReflTransGen (Snippet chart) v' v'' →
        (chart.initContainer "pod_dependency" v'').map (fun result => view result.2) =
          if chart.resolvedSome mixin key then
            some (chart.waits "pod_dependency" true
              (chart.resolved mixin key (chart.staticDeps key)) (chart.view chart.localImageRegistry)
              Slots.empty)
          else none := by
  have hkept := kept_invariant htyped hpod v hv
  obtain ⟨v', pod, hresolve, hkept', hpod', hplace, hsome, hview⟩ :=
    hkept.dependencyResolver mixin key
  rw [resolved_static mixin key (hkept.static key) hkey] at hview
  refine ⟨v', hresolve, fun v'' hrun => ?_⟩
  have hend : PodKept chart mixin key v'' pod := by
    induction hrun with
    | refl => exact ⟨hkept', hpod', hplace, hsome, hview⟩
    | tail _ hsnippet ih => exact ih.snippet hpod hkey hsnippet
  have hsource : v''.source "pod_dependency" =
      if chart.resolvedSome mixin key then some pod else none := by
    rw [Values.source, if_pos rfl, hend.current, Option.filter_some, hend.isSome]
  cases hresolved : chart.resolvedSome mixin key with
  | false =>
    rw [hresolved] at hsource
    simp [Chart.initContainer, Chart.ownDeps, hsource]
  | true =>
    rw [hresolved, if_pos rfl] at hsource
    obtain ⟨v₃, deps, hinit, _, hwaits, _⟩ := hend.kept.initContainer hpod hsource
    rw [hinit, Option.map_some, hwaits, hend.isSome, hresolved, hend.view, waits_keepAt,
      Chart.rabbitDeps, hpod, Chart.view_none]
    rfl

/-- Part of the values of neutron: the DHCP agent has static dependencies, and dependencies
targeted at Open vSwitch; none are targeted at SR-IOV. -/
def neutronChart : Chart (String × String) where
  localRegistryActive := false
  manifests := Dict.empty
  static := ⟨[("dhcp", some ⟨[("services", some [.entry ⟨"services", 0⟩,
    .entry ⟨"services", 1⟩])], by decide⟩)], by decide⟩
  localImageRegistry := none
  jobRabbitInit := Dict.empty
  targeted := ⟨[("openvswitch", ⟨[("dhcp", some ⟨[("pod", some [.entry ⟨"pod", 0⟩])],
    by decide⟩)], by decide⟩), ("sriov", Dict.empty)], by decide⟩
  content m :=
    if m.key = "pod" then ("labels", "ovs-agent")
    else if m.index = 0 then ("oslo_messaging", "internal")
    else ("network", "internal")
  setNamespace := id
  setNamespace_idem _ := rfl

theorem neutronChart_wellTyped : neutronChart.WellTyped := by
  have hfits : ∀ key n, key ≠ "jobs" → Fits key (.entry ⟨key, n⟩) := by
    intro key n hkey
    exact ⟨fun h => absurd h hkey, fun _ => ⟨_, rfl⟩, by rintro m ⟨⟩; rfl⟩
  intro a deps h
  refine typed_of_entries ?_
  cases a with
  | static c =>
    simp only [Chart.values, neutronChart] at h
    rw [Option.join_eq_some_iff, Dict.get?_eq_some_iff] at h
    simp only [List.mem_singleton, Prod.mk.injEq, Option.some.injEq] at h
    obtain ⟨_, rfl⟩ := h
    simp only [List.forall_mem_singleton, Option.getD_some, List.forall_mem_cons]
    exact ⟨hfits _ 0 (by decide), hfits _ 1 (by decide)⟩
  | localImageRegistry => cases h
  | jobRabbitInit c => cases h
  | targeted mixin key =>
    simp only [Chart.values, neutronChart] at h
    rw [Option.join_eq_some_iff, Option.bind_eq_some_iff] at h
    obtain ⟨targeted, hmixin, hdeps⟩ := h
    rw [Dict.get?_eq_some_iff] at hmixin hdeps
    simp only [List.mem_cons, Prod.mk.injEq, List.not_mem_nil, or_false] at hmixin
    rcases hmixin with ⟨_, rfl⟩ | ⟨_, rfl⟩
    · simp only [List.mem_singleton, Prod.mk.injEq, Option.some.injEq] at hdeps
      obtain ⟨_, rfl⟩ := hdeps
      simp only [List.forall_mem_singleton, Option.getD_some]
      exact hfits _ 0 (by decide)
    · cases hdeps
  | fresh n => cases h

/-- With SR-IOV as the only backend, the DHCP agent waits for nothing: its static dependencies
are lost. -/
theorem resolved_pod_waits_sriov :
    neutronChart.staticDeps "dhcp" "services" ≠ none ∧
      ∃ v', neutronChart.dependencyResolver (.many ["sriov"]) "dhcp" neutronChart.values = some v' ∧
        (neutronChart.initContainer "pod_dependency" v').map (fun result => view result.2) =
          some Slots.empty := by
  refine ⟨by
    simp [Chart.staticDeps, Chart.view, Slots.map, Slot.map, view, Chart.values, neutronChart,
      Dict.get?], ?_⟩
  obtain ⟨v', hresolve, hwaits⟩ := resolved_pod_waits neutronChart neutronChart_wellTyped rfl
    (.init rfl) (.many ["sriov"]) "dhcp" rfl
  refine ⟨v', hresolve, ?_⟩
  have hempty : neutronChart.resolved (.many ["sriov"]) "dhcp" (neutronChart.staticDeps "dhcp") =
      Slots.empty := rfl
  rw [hwaits v' .refl, hempty, waits_of_no_rabbit rfl, Slots.keepAt_empty]
  rfl

end Rendering

end OpenstackBlueprint.HelmToolkit
