import OpenstackBlueprint.HelmToolkit.Dependencies
import OpenstackBlueprint.Kit.Slots

/-!
# What the dependency helpers do to the shared values

Every helper changes one map and leaves the others that are in use: `Effect` says so,
and what the map holds afterwards, by sets of what is printed in the end. One lemma for each helper states its
effect; the snippets are put together from them.
-/

namespace OpenstackBlueprint.HelmToolkit

open OpenstackBlueprint.Kit

variable {M : Type}

/-! ## What the helpers do to one map -/

/-- What a map holds under each key; null holds nothing. -/
def view (deps : Option (Deps M)) : Slots String (Item M) := fun key =>
  (deps.bind (·.get? key)).map (Option.map fun l => {x | x ∈ l})

/-- Jobs are given by name. -/
def JobNames (deps : Deps M) : Prop := ∀ x ∈ listOf (some deps) "jobs", ∃ job, x = .name job

/-- A job that is rendered, or is not given by name. -/
def Enabled (manifests : Dict String Bool) : Item M → Prop
  | .name job => jobEnabled manifests job = true
  | .entry _ => True

theorem enabled_map {N : Type} (manifests : Dict String Bool) (f : M → N) (x : Item M) :
    Enabled manifests (x.map f) ↔ Enabled manifests x := by
  cases x <;> rfl

section OneMap

@[simp] theorem view_none : view (none : Option (Deps M)) = Slots.empty := rfl

@[simp] theorem view_empty : view (some (Dict.empty : Deps M)) = Slots.empty := by
  funext key
  simp [view, Slots.empty]

theorem listOf_of_get? {deps : Deps M} {key : String} {l : List (Item M)}
    (h : deps.get? key = some (some l)) : listOf (some deps) key = l := by
  simp [listOf, h]

/-- The items under a key, by the section of the map. -/
theorem mem_items_view {deps : Option (Deps M)} {key : String} {x : Item M} :
    x ∈ (view deps key).items ↔ x ∈ listOf deps key := by
  unfold view listOf
  rcases deps.bind (·.get? key) with _ | _ | l
  · simp [Slot.items]
  · simp [Slot.items]
  · simp [Slot.items]

/-- With other maps in the lists. -/
theorem view_map {N : Type} (f : M → N) (deps : Option (Deps M)) :
    view (deps.map (Deps.map f)) = (view deps).map fun _ => Item.map f := by
  funext key
  cases deps with
  | none => rfl
  | some deps =>
    simp only [view, Option.map_some, Option.bind_some, Slots.map, Deps.map, Dict.get?_mapValues]
    rcases deps.get? key with _ | _ | l
    · rfl
    · rfl
    · simp only [Option.map_some, Slot.map, Option.some.injEq]
      ext x
      simp

theorem mem_filterJobNames (manifests : Dict String Bool) {jobs : List (Item M)}
    (hnames : ∀ x ∈ jobs, ∃ job, x = .name job) :
    ∃ kept, filterJobNames manifests jobs = some kept ∧
      ∀ x, x ∈ kept ↔ x ∈ jobs ∧ Enabled manifests x := by
  induction jobs with
  | nil => exact ⟨[], rfl, by simp⟩
  | cons x jobs ih =>
    obtain ⟨job, rfl⟩ := hnames x List.mem_cons_self
    obtain ⟨kept, hkept, hmem⟩ := ih fun y hy => hnames y (List.mem_cons_of_mem _ hy)
    refine ⟨if jobEnabled manifests job then .name job :: kept else kept, ?_, fun y => ?_⟩
    · simp [filterJobNames, hkept]
    · split
      · rename_i henabled
        rw [List.mem_cons, List.mem_cons, hmem y]
        constructor
        · rintro (rfl | ⟨hy, hp⟩)
          · exact ⟨.inl rfl, henabled⟩
          · exact ⟨.inr hy, hp⟩
        · rintro ⟨rfl | hy, hp⟩
          · exact .inl rfl
          · exact .inr ⟨hy, hp⟩
      · rename_i henabled
        rw [List.mem_cons, hmem y]
        constructor
        · rintro ⟨hy, hp⟩
          exact ⟨.inr hy, hp⟩
        · rintro ⟨rfl | hy, hp⟩
          · exact absurd hp henabled
          · exact ⟨hy, hp⟩

/-- The filter keeps the enabled jobs, and nothing else changes. -/
theorem dependencyJobsFilter_spec (manifests : Dict String Bool) {deps : Deps M}
    (hnames : JobNames deps) :
    ∃ kept, dependencyJobsFilter manifests deps = some kept ∧
      view (some kept) = (view (some deps)).keepAt "jobs" (Enabled manifests) := by
  unfold dependencyJobsFilter
  split
  · rename_i job rest hjobs
    unfold JobNames at hnames
    rw [listOf_of_get? hjobs] at hnames
    obtain ⟨kept, hkept, hmem⟩ := mem_filterJobNames manifests hnames
    refine ⟨deps.set "jobs" (some kept), by simp [hkept], ?_⟩
    funext key
    by_cases hkey : key = "jobs"
    · subst hkey
      simp only [view, Option.bind_some, Dict.get?_set, if_true, Slots.keepAt, hjobs,
        Option.map_some, Slot.keep, hmem]
      rfl
    · simp [view, Dict.get?_set, Slots.keepAt, hkey]
  · rename_i hother
    refine ⟨deps, rfl, ?_⟩
    funext key
    by_cases hkey : key = "jobs"
    · subst hkey
      simp only [view, Option.bind_some, Slots.keepAt, if_true]
      rcases hjobs : deps.get? "jobs" with _ | _ | jobs
      · rfl
      · rfl
      · cases jobs with
        | nil => simp [Slot.keep]
        | cons x rest =>
          obtain ⟨job, rfl⟩ := hnames x (by rw [listOf_of_get? hjobs]; exact List.mem_cons_self)
          exact absurd hjobs (hother job rest)
    · simp [Slots.keepAt, hkey]

/-! ## Merging two maps -/

variable {same : Item M → Item M → Bool}

theorem mem_of_mem_eraseDupsBy {l : List (Item M)} {x : Item M}
    (h : x ∈ l.eraseDupsBy same) : x ∈ l := by
  induction hlength : l.length using Nat.strong_induction_on generalizing l with
  | _ n ih =>
    cases l with
    | nil => exact h
    | cons y l =>
      rw [List.eraseDupsBy_cons] at h
      rcases List.mem_cons.mp h with rfl | h
      · exact List.mem_cons_self
      · have hshort := List.length_filter_le (fun b => same b y = false) l
        rw [List.length_cons] at hlength
        have hmem := ih _ (Nat.lt_of_le_of_lt hshort (by omega)) h rfl
        exact List.mem_cons_of_mem _ (List.mem_of_mem_filter hmem)

/-- Of every item one that is the same is kept. -/
theorem exists_mem_eraseDupsBy {l : List (Item M)} {x : Item M} (h : x ∈ l) :
    ∃ y ∈ l.eraseDupsBy same, x = y ∨ same x y = true := by
  induction hlength : l.length using Nat.strong_induction_on generalizing l with
  | _ n ih =>
    cases l with
    | nil => cases h
    | cons z l =>
      rw [List.eraseDupsBy_cons]
      by_cases hz : x = z ∨ same x z = true
      · exact ⟨z, List.mem_cons_self, hz⟩
      · push Not at hz
        have hrest := (List.mem_cons.mp h).resolve_left hz.1
        have hshort := List.length_filter_le (fun b => same b z = false) l
        rw [List.length_cons] at hlength
        have hmem : x ∈ l.filter fun b => same b z = false :=
          List.mem_filter.mpr ⟨hrest, by simpa using hz.2⟩
        obtain ⟨y, hy, hxy⟩ := ih _ (Nat.lt_of_le_of_lt hshort (by omega)) hmem rfl
        exact ⟨y, List.mem_cons_of_mem _ hy, hxy⟩

theorem get?_mergeEntry (target : Deps M) (e : String × Option (List (Item M))) (key : String) :
    (mergeEntry same target e).get? key =
      if key = e.1 then some ((target.get? e.1).elim e.2 fun old => mergeValue same old e.2)
      else target.get? key := by
  unfold mergeEntry
  cases hget : target.get? e.1 with
  | none => simp [Dict.get?_set]
  | some old => simp [Dict.get?_set]

/-- One key after the entries of the source are merged in. -/
theorem get?_foldl_mergeEntry (entries : List (String × Option (List (Item M))))
    (hnodup : (entries.map Prod.fst).Nodup) (target : Deps M) (key : String) :
    (entries.foldl (mergeEntry same) target).get? key =
      (entries.lookup key).elim (target.get? key) fun value =>
        some ((target.get? key).elim value fun old => mergeValue same old value) := by
  induction entries generalizing target with
  | nil => rfl
  | cons e entries ih =>
    obtain ⟨k, value⟩ := e
    rw [List.map_cons, List.nodup_cons] at hnodup
    rw [List.foldl_cons, ih hnodup.2, List.lookup_cons]
    by_cases hkey : key = k
    · subst hkey
      have hlater : entries.lookup key = none := by
        rw [List.lookup_eq_none_iff]
        intro e he
        simpa using fun h => hnodup.1 (List.mem_map.mpr ⟨e, he, Eq.symm h⟩)
      simp [hlater, get?_mergeEntry]
    · simp [beq_false_of_ne hkey, get?_mergeEntry, hkey]

theorem get?_mergeDeps (target source : Deps M) (key : String) :
    (mergeDeps same target source).get? key =
      (source.get? key).elim (target.get? key) fun value =>
        some ((target.get? key).elim value fun old => mergeValue same old value) := by
  rw [source.get?_eq_lookup]
  exact get?_foldl_mergeEntry source.entries source.nodup target key

theorem mem_listOf_mergeDeps {target source : Deps M} {key : String} {x : Item M}
    (h : x ∈ listOf (some (mergeDeps same target source)) key) :
    x ∈ listOf (some target) key ∨ x ∈ listOf (some source) key := by
  unfold listOf at h ⊢
  simp only [Option.bind_some, get?_mergeDeps] at h ⊢
  cases hsource : source.get? key with
  | none =>
    rw [hsource] at h
    exact .inl h
  | some value =>
    cases htarget : target.get? key with
    | none =>
      rw [hsource, htarget] at h
      exact .inr h
    | some old =>
      rw [hsource, htarget] at h
      cases value with
      | none => cases old <;> cases h
      | some value =>
        cases old with
        | none => exact .inr h
        | some old => exact List.mem_append.mp (mem_of_mem_eraseDupsBy h)

/-- Items that are the same must have one image; then merging joins the images. -/
theorem map_view_mergeDeps {N : Type} {f : String → Item M → N} {target source : Deps M}
    (hsame : ∀ key x y, x ∈ listOf (some target) key ∨ x ∈ listOf (some source) key →
      y ∈ listOf (some target) key ∨ y ∈ listOf (some source) key → same x y = true →
      f key x = f key y) :
    (view (some (mergeDeps same target source))).map f =
      ((view (some target)).map f).merge ((view (some source)).map f) := by
  rw [← Slots.map_merge]
  funext key
  have hkey := hsame key
  simp only [Slots.map, view, Option.bind_some, get?_mergeDeps, Slots.merge]
  cases hsource : source.get? key with
  | none => simp
  | some value =>
    cases htarget : target.get? key with
    | none => simp
    | some old =>
      cases old with
      | none => cases value <;> simp [mergeValue, Slot.merge]
      | some old =>
        cases value with
        | none => simp [mergeValue, Slot.merge]
        | some value =>
          simp only [listOf_of_get? hsource, listOf_of_get? htarget] at hkey
          simp only [Option.elim_some, mergeValue, Slot.merge, Slot.map, Option.map_some,
            Option.some.injEq]
          ext z
          constructor
          · rintro ⟨x, hx, rfl⟩
            exact ⟨x, List.mem_append.mp (mem_of_mem_eraseDupsBy hx), rfl⟩
          · rintro ⟨x, hx, rfl⟩
            obtain ⟨y, hy, hxy⟩ : ∃ y ∈ (old ++ value).eraseDupsBy same, x = y ∨ same x y = true :=
              exists_mem_eraseDupsBy (List.mem_append.mpr hx)
            refine ⟨y, hy, ?_⟩
            rcases hxy with rfl | hxy
            · rfl
            · have hy' := List.mem_append.mp (mem_of_mem_eraseDupsBy hy)
              exact (hkey x y hx hy' hxy).symm

end OneMap

/-! ## What the helpers do to the shared values -/

variable {F : Type}

/-- What the values have under a key: jobs by name, custom resources as maps, and maps of their own
list. -/
structure Fits (key : String) (x : Item Ref) : Prop where
  jobs : key = "jobs" → ∃ job, x = .name job
  customResources : key = "custom_resources" → ∃ m, x = .entry m
  own : ∀ m, x = .entry m → m.key = key

/-- A map of dependencies as the values have them. -/
def Typed (deps : Deps Ref) : Prop := ∀ key, ∀ x ∈ listOf (some deps) key, Fits key x

theorem typed_of_entries {deps : Deps Ref}
    (h : ∀ e ∈ deps.entries, ∀ x ∈ e.2.getD [], Fits e.1 x) : Typed deps := by
  intro key x hx
  cases hget : deps.get? key with
  | none => simp [listOf, hget] at hx
  | some value =>
    refine h (key, value) (Dict.get?_eq_some_iff.mp hget) x ?_
    simpa [listOf, hget] using hx

/-- The values of the chart are such maps. -/
def Chart.WellTyped (chart : Chart F) : Prop :=
  ∀ a deps, chart.values.heap a = some deps → Typed deps

/-- What a map in a list contains for the init container that prints it: a custom resource has the
namespace of the release. -/
def Chart.printed (chart : Chart F) (key : String) (m : Ref) : F :=
  if key = "custom_resources" then chart.setNamespace (chart.content m) else chart.content m

/-- What a map of dependencies holds, by what is printed. -/
def Chart.view (chart : Chart F) (deps : Option (Deps Ref)) : Slots String (Item F) :=
  (HelmToolkit.view deps).map fun key => Item.map (chart.printed key)

@[simp] theorem Chart.view_none (chart : Chart F) : chart.view none = Slots.empty := rfl

/-- An address that is in use. -/
def Values.Old (v : Values F) (a : Addr) : Prop := ∀ n, a = .fresh n → n < v.next

/-- Every map is as the values have it, and only custom resources have changed, by their
namespace. -/
structure Values.Sound (chart : Chart F) (v : Values F) : Prop where
  typed : ∀ a deps, v.heap a = some deps → Typed deps
  content : ∀ m, v.content m = chart.content m ∨
    m.key = "custom_resources" ∧ v.content m = chart.setNamespace (chart.content m)

/-- The map at `a` now holds `s`, unless it is null, and the other maps in use are the same. -/
structure Effect (chart : Chart F) (v v' : Values F) (a : Addr) (s : Slots String (Item F)) :
    Prop where
  view : chart.view (v'.heap a) = s
  isSome : v.Old a → (v'.heap a).isSome = (v.heap a).isSome
  other : ∀ b ≠ a, v.Old b → v'.heap b = v.heap b
  next : v.next ≤ v'.next
  pod : v'.podDependency = v.podDependency
  sound : v.Sound chart → v'.Sound chart

section Effects

variable {chart : Chart F} {v v' v'' : Values F} {a : Addr} {s t : Slots String (Item F)}

@[simp] theorem alloc_snd (v : Values F) : v.alloc.2 = .fresh v.next := rfl

theorem old_static (v : Values F) (c : String) : v.Old (.static c) := by
  intro n hn
  cases hn

theorem Values.Old.mono (h : v.Old a) (hnext : v.next ≤ v'.next) : v'.Old a :=
  fun n hn => (h n hn).trans_le hnext

/-- Items of one list that contain the same are printed alike. -/
theorem Values.Sound.printed_eq (h : v.Sound chart) {key : String} {x y : Item Ref}
    (hx : Fits key x) (hy : Fits key y) (hsame : x.map v.content = y.map v.content) :
    x.map (chart.printed key) = y.map (chart.printed key) := by
  have hprinted : ∀ m : Ref, m.key = key →
      chart.printed key m = if key = "custom_resources" then chart.setNamespace (v.content m)
        else v.content m := by
    rintro m rfl
    unfold Chart.printed
    rcases h.content m with hm | ⟨hkey, hm⟩
    · rw [hm]
    · rw [hm, if_pos hkey, if_pos hkey, chart.setNamespace_idem]
  cases x with
  | name job =>
    cases y with
    | name job' => exact congrArg Item.name (Item.name.inj hsame)
    | entry m' => cases hsame
  | entry m =>
    cases y with
    | name job' => cases hsame
    | entry m' =>
      have hcontent : v.content m = v.content m' := Item.entry.inj hsame
      simp only [Item.map, hprinted m (hx.own m rfl), hprinted m' (hy.own m' rfl), hcontent]

/-- A map of the values takes the place of one. -/
theorem Values.Sound.update (h : v.Sound chart) {deps : Deps Ref} (hdeps : Typed deps) :
    Values.Sound chart { v with heap := Function.update v.heap a (some deps) } := by
  refine ⟨fun b d hb => ?_, h.content⟩
  by_cases hba : b = a
  · subst hba
    simp only [Function.update_self, Option.some.injEq] at hb
    exact hb ▸ hdeps
  · simp only [Function.update_of_ne hba] at hb
    exact h.typed b d hb

theorem Effect.refl (chart : Chart F) (v : Values F) (a : Addr) :
    Effect chart v v a (chart.view (v.heap a)) :=
  ⟨rfl, fun _ => rfl, fun _ _ _ => rfl, le_rfl, rfl, id⟩

theorem Effect.trans (h : Effect chart v v' a s) (h' : Effect chart v' v'' a t) :
    Effect chart v v'' a t where
  view := h'.view
  isSome hold := (h'.isSome (hold.mono h.next)).trans (h.isSome hold)
  other b hb hold := (h'.other b hb (hold.mono h.next)).trans (h.other b hb hold)
  next := h.next.trans h'.next
  pod := h'.pod.trans h.pod
  sound hsound := h'.sound (h.sound hsound)

/-- A new map holds nothing. -/
theorem Effect.alloc (chart : Chart F) (v : Values F) :
    Effect chart v v.alloc.1 (.fresh v.next) Slots.empty where
  view := by simp [Values.alloc, Chart.view]
  isSome hold := absurd (hold _ rfl) (lt_irrefl _)
  other b hb _ := by simp [Values.alloc, hb]
  next := Nat.le_succ _
  pod := rfl
  sound hsound := by
    have hempty : Typed (Dict.empty : Deps Ref) := by
      intro key x hx
      simp [listOf] at hx
    exact ⟨(hsound.update hempty).typed, hsound.content⟩

/-- The map keeps its enabled jobs. -/
theorem Effect.filterJobs (manifests : Dict String Bool) (hsound : v.Sound chart) (a : Addr) :
    ∃ v', v.filterJobs manifests a = some v' ∧
      Effect chart v v' a ((chart.view (v.heap a)).keepAt "jobs" (Enabled manifests)) := by
  cases hheap : v.heap a with
  | none =>
    refine ⟨v, by simp [Values.filterJobs, hheap], ?_⟩
    rw [Chart.view_none, Slots.keepAt_empty]
    have hrefl := Effect.refl chart v a
    rwa [hheap, Chart.view_none] at hrefl
  | some deps =>
    have htyped := hsound.typed a deps hheap
    have hnames : JobNames deps := fun x hx => (htyped "jobs" x hx).jobs rfl
    obtain ⟨kept, hkept, hview⟩ := dependencyJobsFilter_spec manifests hnames
    have hsub : Typed kept := by
      intro key x hx
      refine htyped key x ?_
      rw [← mem_items_view] at hx ⊢
      rw [hview] at hx
      exact Slots.items_keepAt_subset _ _ _ _ hx
    refine ⟨{ v with heap := Function.update v.heap a (some kept) },
      by simp [Values.filterJobs, hheap, hkept], ?_, fun _ => by simp [hheap],
      fun b hb _ => by simp [hb], le_rfl, rfl, fun hsound => hsound.update hsub⟩
    simp only [Function.update_self, Chart.view]
    rw [hview, Slots.map_keepAt]
    exact enabled_map manifests _

/-- Making a map is no change to another. -/
theorem Effect.alloc_other (chart : Chart F) (hold : v.Old a) :
    Effect chart v v.alloc.1 a (chart.view (v.heap a)) := by
  have hne : a ≠ .fresh v.next := fun h => absurd (hold _ h) (lt_irrefl _)
  have halloc := Effect.alloc chart v
  have hsame := halloc.other a hne hold
  refine ⟨by rw [hsame], fun _ => by rw [hsame], fun b hb hb' => ?_, halloc.next, halloc.pod,
    halloc.sound⟩
  exact halloc.other b (fun h => absurd (hb' _ h) (lt_irrefl _)) hb'

/-- The maps of a list of custom resources get the namespace of the release, and nothing else
changes. -/
theorem setNamespaces_spec {items : List (Item Ref)} (hsound : v.Sound chart)
    (hfits : ∀ x ∈ items, Fits "custom_resources" x) :
    ∃ v', v.setNamespaces chart.setNamespace items = some v' ∧ v'.Sound chart ∧
      v'.heap = v.heap ∧ v'.next = v.next ∧ v'.podDependency = v.podDependency ∧
      ∀ m, v'.content m = if .entry m ∈ items then chart.setNamespace (chart.content m)
        else v.content m := by
  induction items generalizing v with
  | nil => exact ⟨v, rfl, hsound, rfl, rfl, rfl, by simp⟩
  | cons x items ih =>
    obtain ⟨m, rfl⟩ := (hfits x List.mem_cons_self).customResources rfl
    have hset : chart.setNamespace (v.content m) = chart.setNamespace (chart.content m) := by
      rcases hsound.content m with hm | ⟨_, hm⟩
      · rw [hm]
      · rw [hm, chart.setNamespace_idem]
    have hsound' : Values.Sound chart { v with
        content := Function.update v.content m (chart.setNamespace (v.content m)) } := by
      refine ⟨hsound.typed, fun m' => ?_⟩
      by_cases hm : m' = m
      · subst hm
        exact .inr ⟨(hfits _ List.mem_cons_self).own _ rfl, by simp [hset]⟩
      · simpa [Function.update_of_ne hm] using hsound.content m'
    obtain ⟨v', hrest, hv', hheap, hnext, hpod, hcontent⟩ :=
      ih hsound' fun x hx => hfits x (List.mem_cons_of_mem _ hx)
    refine ⟨v', hrest, hv', hheap, hnext, hpod, fun m' => ?_⟩
    rw [hcontent m']
    by_cases hm : m' = m
    · subst hm
      simp [hset]
    · simp [hm]

/-- Only custom resources have changed. -/
theorem Values.Sound.content_eq (h : v.Sound chart) {key : String} {m : Ref}
    (hkey : key ≠ "custom_resources") (hm : .entry m ∈ listOf (v.heap a) key) :
    v.content m = chart.content m := by
  refine (h.content m).resolve_right fun hcustom => hkey ?_
  cases hheap : v.heap a with
  | none => simp [hheap, listOf] at hm
  | some deps =>
    rw [hheap] at hm
    exact ((h.typed a deps hheap key _ hm).own m rfl).symm.trans hcustom.1

/-- What is printed of a list of other dependencies. -/
theorem view_print_of_ne (hsound : v.Sound chart) {key : String} (hkey : key ≠ "custom_resources") :
    HelmToolkit.view (v.print a) key = chart.view (v.heap a) key := by
  unfold Values.print Chart.view
  rw [view_map]
  refine Slot.map_congr _ _ fun x hx => ?_
  rw [mem_items_view] at hx
  cases x with
  | name job => rfl
  | entry m => simp [Item.map, Chart.printed, hkey, hsound.content_eq hkey hx]

/-- What is printed of a map, once its custom resources have their namespace. -/
theorem view_print (hsound : v.Sound chart)
    (hset : ∀ m, .entry m ∈ listOf (v.heap a) "custom_resources" →
      v.content m = chart.setNamespace (chart.content m)) :
    HelmToolkit.view (v.print a) = chart.view (v.heap a) := by
  funext key
  by_cases hkey : key = "custom_resources"
  · subst hkey
    unfold Values.print Chart.view
    rw [view_map]
    refine Slot.map_congr _ _ fun x hx => ?_
    rw [mem_items_view] at hx
    cases x with
    | name job => rfl
    | entry m => simp [Item.map, Chart.printed, hset m hx]
  · exact view_print_of_ne hsound hkey

/-- Jobs are printed by name. -/
theorem Values.Sound.jobs_print (h : v.Sound chart) {x : Item F}
    (hx : x ∈ listOf (v.print a) "jobs") : ∃ job, x = .name job := by
  rw [← mem_items_view, view_print_of_ne h (by decide)] at hx
  unfold Chart.view Slots.map at hx
  rw [Slot.items_map] at hx
  obtain ⟨y, hy, rfl⟩ := hx
  rw [mem_items_view] at hy
  cases hheap : v.heap a with
  | none => simp [hheap, listOf] at hy
  | some deps =>
    rw [hheap] at hy
    obtain ⟨job, rfl⟩ := (h.typed a deps hheap _ y hy).jobs rfl
    exact ⟨job, rfl⟩

/-- The custom resources of a map get their namespace, and it is printed. -/
theorem print_spec (hsound : v.Sound chart) (heffect : Effect chart v v' a s) :
    ∃ v'', v'.setNamespaces chart.setNamespace (listOf (v'.heap a) "custom_resources") = some v'' ∧
      HelmToolkit.view (v''.print a) = s ∧ Effect chart v v'' a s := by
  have hsound' := heffect.sound hsound
  have hfits : ∀ x ∈ listOf (v'.heap a) "custom_resources", Fits "custom_resources" x := by
    intro x hx
    cases hheap : v'.heap a with
    | none => simp [hheap, listOf] at hx
    | some deps =>
      rw [hheap] at hx
      exact hsound'.typed a deps hheap _ x hx
  obtain ⟨v'', hset, hsound'', hheap, hnext, hpod, hcontent⟩ := setNamespaces_spec hsound' hfits
  have hsame : Effect chart v' v'' a s := by
    refine ⟨by rw [hheap]; exact heffect.view, fun _ => by rw [hheap], fun b _ _ => by rw [hheap],
      hnext.ge, hpod, fun _ => hsound''⟩
  refine ⟨v'', hset, ?_, heffect.trans hsame⟩
  rw [view_print hsound'', hsame.view]
  intro m hm
  rw [hheap] at hm
  rw [hcontent m, if_pos hm]

variable [DecidableEq F]

/-- A map takes in another, or itself. -/
theorem Effect.mergeInto (hsound : v.Sound chart) (h : (v.heap a).isSome) (source : Addr) :
    Effect chart v (v.mergeInto a source) a
      ((chart.view (v.heap a)).merge (chart.view (v.heap source))) := by
  obtain ⟨target, htarget⟩ := Option.isSome_iff_exists.mp h
  cases hsource : v.heap source with
  | none =>
    have hsame : v.mergeInto a source = v := by simp [Values.mergeInto, htarget, hsource]
    rw [hsame, Chart.view_none, Slots.merge_empty]
    exact Effect.refl chart v a
  | some deps =>
    have hheap : (v.mergeInto a source) =
        { v with heap := Function.update v.heap a (some (mergeDeps v.same target deps)) } := by
      simp [Values.mergeInto, htarget, hsource]
    have hfits : ∀ key x, x ∈ listOf (some target) key ∨ x ∈ listOf (some deps) key →
        Fits key x := by
      rintro key x (hx | hx)
      · exact hsound.typed _ _ htarget key x hx
      · exact hsound.typed _ _ hsource key x hx
    rw [hheap]
    refine ⟨?_, fun _ => by simp [htarget], fun b hb _ => by simp [hb], le_rfl, rfl, ?_⟩
    · simp only [Function.update_self, htarget, Chart.view]
      refine map_view_mergeDeps fun key x y hx hy hsame => ?_
      exact hsound.printed_eq (hfits key x hx) (hfits key y hy) (of_decide_eq_true hsame)
    · intro hsound
      exact hsound.update fun key x hx => hfits key x (mem_listOf_mergeDeps hx)

theorem isSome_mergeInto (v : Values F) (a source : Addr) :
    ((v.mergeInto a source).heap a).isSome = (v.heap a).isSome := by
  unfold Values.mergeInto
  split
  · rename_i htarget _
    simp [htarget]
  · rfl

theorem isSome_merge (v : Values F) (a : Addr) (sources : List Addr) :
    ((v.merge a sources).heap a).isSome = (v.heap a).isSome := by
  induction sources generalizing v with
  | nil => rfl
  | cons source sources ih => exact (ih _).trans (isSome_mergeInto v a source)

/-- A map takes in two more, the first of which may be itself. -/
theorem Effect.merge (hsound : v.Sound chart) (h : (v.heap a).isSome) (first second : Addr)
    (hne : second ≠ a) (hold : v.Old second) :
    Effect chart v (v.merge a [first, second]) a
      (((chart.view (v.heap a)).merge (chart.view (v.heap first))).merge
        (chart.view (v.heap second))) := by
  have hfirst := Effect.mergeInto hsound h first
  have hsecond := Effect.mergeInto (hfirst.sound hsound) ((isSome_mergeInto v a first).trans h)
    second
  rw [hfirst.view, hfirst.other second hne hold] at hsecond
  exact hfirst.trans hsecond

theorem merge_null (h : v.heap a = none) (sources : List Addr) : v.merge a sources = v := by
  induction sources with
  | nil => rfl
  | cons source sources ih =>
    have hsame : v.mergeInto a source = v := by simp [Values.mergeInto, h]
    rw [Values.merge, List.foldl_cons, hsame]
    exact ih

end Effects

/-! ## The snippets -/

/-- A map the snippets may change. -/
def Addr.Own : Addr → Prop
  | .static _ | .fresh _ => True
  | _ => False

/-- What both snippets start from: the dependencies of the component and of the registry. -/
def Chart.ownWaits (chart : Chart F) (component : String)
    (source registry : Slots String (Item F)) : Slots String (Item F) :=
  if chart.usesRegistry component then source.merge registry else source

/-- What the init container takes in, with what the RabbitMQ job adds. Null takes nothing in. -/
def Chart.allWaits (chart : Chart F) (component : String) (isSome : Bool)
    (source registry rabbit : Slots String (Item F)) : Slots String (Item F) :=
  let own := chart.ownWaits component source registry
  if chart.usesRabbitInit && (chart.usesRegistry component || isSome) then
    (own.merge source).merge rabbit
  else own

/-- What the init container of a component waits for, by what its own map holds, that of the local
registry and that of the RabbitMQ job. -/
def Chart.waits (chart : Chart F) (component : String) (isSome : Bool)
    (source registry rabbit : Slots String (Item F)) : Slots String (Item F) :=
  (chart.allWaits component isSome source registry rabbit).keepAt "jobs" (Enabled chart.manifests)

/-- Where a snippet keeps the dependencies of a component. -/
def Chart.depsAddr (chart : Chart F) (component : String) (v : Values F) (source : Addr) : Addr :=
  if chart.usesRegistry component then .fresh v.next else source

section Snippets

variable [DecidableEq F] {chart : Chart F} {component : String} {v : Values F} {source : Addr}

theorem ownDeps_spec (hsound : v.Sound chart) (hsource : v.source component = some source)
    (hold : v.Old source) :
    ∃ v', chart.ownDeps component v = some (v', source, chart.depsAddr component v source) ∧
      Effect chart v v' (chart.depsAddr component v source)
        (chart.ownWaits component (chart.view (v.heap source)) (chart.view (v.heap .localImageRegistry))) ∧
      (v'.heap (chart.depsAddr component v source)).isSome =
        (chart.usesRegistry component || (v.heap source).isSome) := by
  unfold Chart.ownDeps Chart.depsAddr Chart.ownWaits
  cases hregistry : chart.usesRegistry component with
  | false =>
    have halloc := Effect.alloc_other chart hold
    refine ⟨v.alloc.1, by simp [hsource], by simpa using halloc, ?_⟩
    simpa using halloc.isSome hold
  | true =>
    have halloc := Effect.alloc chart v
    have hsome : (v.alloc.1.heap (.fresh v.next)).isSome := by simp [Values.alloc]
    have hmerge := Effect.merge (halloc.sound hsound) hsome source .localImageRegistry (by simp)
      (by intro n hn; cases hn)
    have hne : source ≠ .fresh v.next := fun h => absurd (hold _ h) (lt_irrefl _)
    rw [halloc.view, halloc.other source hne hold, halloc.other .localImageRegistry (by simp)
      (by intro n hn; cases hn), Slots.empty_merge] at hmerge
    refine ⟨v.alloc.1.merge (.fresh v.next) [source, .localImageRegistry], ?_, ?_, ?_⟩
    · simp only [hsource]
      rfl
    · simpa using halloc.trans hmerge
    · simpa [hsome] using isSome_merge v.alloc.1 (.fresh v.next) [source, .localImageRegistry]

/-- The RabbitMQ job's dependencies are merged into the map, unless it is null. -/
theorem rabbitInit_spec {v' : Values F} (hsound : v'.Sound chart) (hold : v.Old source)
    (hown : source.Own)
    (heffect : Effect chart v v' (chart.depsAddr component v source)
      (chart.ownWaits component (chart.view (v.heap source)) (chart.view (v.heap .localImageRegistry))))
    (hsome : (v'.heap (chart.depsAddr component v source)).isSome =
      (chart.usesRegistry component || (v.heap source).isSome)) :
    Effect chart v (if chart.usesRabbitInit then
        v'.merge (chart.depsAddr component v source) [source, .jobRabbitInit component] else v')
      (chart.depsAddr component v source)
      (chart.allWaits component (v.heap source).isSome (chart.view (v.heap source))
        (chart.view (v.heap .localImageRegistry)) (chart.view (v.heap (.jobRabbitInit component)))) := by
  unfold Chart.allWaits
  cases hrabbit : chart.usesRabbitInit with
  | false => simpa using heffect
  | true =>
    cases hnull : (chart.usesRegistry component || (v.heap source).isSome) with
    | false =>
      rw [hnull, Option.isSome_eq_false_iff, Option.isNone_iff_eq_none] at hsome
      simpa [merge_null hsome] using heffect
    | true =>
      have hne : Addr.jobRabbitInit component ≠ chart.depsAddr component v source := by
        unfold Chart.depsAddr
        split
        · simp
        · rintro rfl
          exact hown
      have hview : chart.view (v'.heap source) = chart.view (v.heap source) := by
        by_cases hsame : source = chart.depsAddr component v source
        · have hregistry : chart.usesRegistry component = false := by
            by_contra hregistry
            simp only [Chart.depsAddr, Bool.not_eq_false] at hsame hregistry
            rw [if_pos hregistry] at hsame
            exact absurd (hold _ hsame) (lt_irrefl _)
          have hviews := heffect.view
          rw [← hsame] at hviews
          simpa [Chart.ownWaits, hregistry] using hviews
        · rw [heffect.other source hsame hold]
      have hmerge := Effect.merge hsound (hsome.trans hnull) source (.jobRabbitInit component) hne
        (by intro n hn; cases hn)
      rw [heffect.view, hview, heffect.other _ hne (by intro n hn; cases hn)] at hmerge
      simpa using heffect.trans hmerge

/-- The init container prints the waits of its component and leaves them in its map. -/
theorem initContainer_spec (hsound : v.Sound chart) (hsource : v.source component = some source)
    (hold : v.Old source) (hown : source.Own) :
    ∃ v' deps, chart.initContainer component v = some (v', deps) ∧
      deps = v'.print (chart.depsAddr component v source) ∧
      view deps = chart.waits component (v.heap source).isSome (chart.view (v.heap source))
        (chart.view (v.heap .localImageRegistry)) (chart.view (v.heap (.jobRabbitInit component))) ∧
      Effect chart v v' (chart.depsAddr component v source)
        (chart.waits component (v.heap source).isSome (chart.view (v.heap source))
          (chart.view (v.heap .localImageRegistry))
          (chart.view (v.heap (.jobRabbitInit component)))) := by
  obtain ⟨v₁, hdeps, heffect₁, hsome⟩ := ownDeps_spec hsound hsource hold
  have heffect₂ := rabbitInit_spec (heffect₁.sound hsound) hold hown heffect₁ hsome
  obtain ⟨v₃, hfilter, heffect₃⟩ := Effect.filterJobs chart.manifests (heffect₂.sound hsound)
    (chart.depsAddr component v source)
  rw [heffect₂.view] at heffect₃
  obtain ⟨v₄, hset, hview, heffect₄⟩ := print_spec hsound (heffect₂.trans heffect₃)
  refine ⟨v₄, _, ?_, rfl, hview, heffect₄⟩
  simp only [Chart.initContainer, hdeps, Option.bind_eq_bind, Option.bind_some, hfilter, hset]
  rfl

/-- The service account leaves the waits without those of the RabbitMQ job. -/
theorem serviceAccount_spec (hsound : v.Sound chart) (hsource : v.source component = some source)
    (hold : v.Old source) :
    ∃ v', chart.serviceAccount component v =
        some (v', v'.print (chart.depsAddr component v source)) ∧
      Effect chart v v' (chart.depsAddr component v source)
        ((chart.ownWaits component (chart.view (v.heap source))
          (chart.view (v.heap .localImageRegistry))).keepAt "jobs" (Enabled chart.manifests)) := by
  obtain ⟨v₁, hdeps, heffect₁, _⟩ := ownDeps_spec hsound hsource hold
  obtain ⟨v₂, hfilter, heffect₂⟩ := Effect.filterJobs chart.manifests (heffect₁.sound hsound)
    (chart.depsAddr component v source)
  rw [heffect₁.view] at heffect₂
  refine ⟨v₂, ?_, heffect₁.trans heffect₂⟩
  simp only [Chart.serviceAccount, hdeps, Option.bind_eq_bind, Option.bind_some, hfilter]
  rfl

end Snippets

end OpenstackBlueprint.HelmToolkit
