import OpenstackBlueprint.Chart.Data

/-!
# Component selection (`osh.selected`)

`enabled`, when it is not empty, is an explicit selection: eight in-place sweeps
over the component list add the dependencies of what is selected so far.
Otherwise `profile` selects by tier and by `requiresProvisioning`.

`$sel` is a dict used as a set: `selectedKeys` is its key set in insertion
order, and `osh.selected` prints the keys sorted and space-joined.
-/

namespace OpenstackBlueprint.Chart

open Kit

/-- `set $sel name true`. -/
def setKey (sel : List String) (name : String) : List String :=
  if name ∈ sel then sel else sel ++ [name]

/-- One pass over the components: a component that is selected when the pass
reaches it adds its dependencies, in place. -/
def sweep (comps : List Component) (sel : List String) : List String :=
  comps.foldl (fun sel c => if c.name ∈ sel then c.deps.foldl setKey sel else sel) sel

/-- The explicit selection: `range $i := until 8` sweeps over `enabled`. -/
def enabledKeys (comps : List Component) (enabled : List String) : List String :=
  (List.range 8).foldl (fun sel _ => sweep comps sel) (enabled.foldl setKey [])

/-- The profile's test on one component. -/
def Profile.selects (p : Profile) (c : Component) : Bool :=
  p == .full || (p == .fullStrict && !c.requiresProvisioning) || c.tier == .identity

/-- The keys of `$sel`. -/
def selectedKeys (top : Top) : List String :=
  -- an explicit selection overrides the profile
  if top.values.enabled.length > 0 then enabledKeys top.values.components top.values.enabled
  else
    top.values.components.foldl
      (fun sel c => if top.values.profile.selects c then setKey sel c.name else sel) []

/-- `osh.selected`. -/
def oshSelected (top : Top) : String :=
  join ' ' (sortAlpha (selectedKeys top))

@[simp] theorem mem_setKey {sel : List String} {a b : String} :
    b ∈ setKey sel a ↔ b ∈ sel ∨ b = a := by
  unfold setKey
  split
  · rename_i h
    constructor
    · exact .inl
    · rintro (hb | rfl)
      · exact hb
      · exact h
  · simp

@[simp] theorem mem_foldl_setKey {sel l : List String} {b : String} :
    b ∈ l.foldl setKey sel ↔ b ∈ sel ∨ b ∈ l := by
  induction l generalizing sel with
  | nil => simp
  | cons a l ih => rw [List.foldl_cons, ih, mem_setKey, List.mem_cons, or_assoc]

/-- A profile selects the components that pass its test, each by itself. -/
theorem mem_selectedKeys_of_profile {top : Top} (hempty : top.values.enabled = []) {n : String} :
    n ∈ selectedKeys top ↔
      ∃ c ∈ top.values.components, top.values.profile.selects c = true ∧ c.name = n := by
  have hfold : ∀ (comps : List Component) (sel : List String),
      n ∈ comps.foldl
          (fun sel c => if top.values.profile.selects c then setKey sel c.name else sel) sel ↔
        n ∈ sel ∨ ∃ c ∈ comps, top.values.profile.selects c = true ∧ c.name = n := by
    intro comps
    induction comps with
    | nil => simp
    | cons c comps ih =>
      intro sel
      rw [List.foldl_cons, ih, List.exists_mem_cons_iff]
      split
      · rename_i hc
        rw [mem_setKey]
        constructor
        · rintro ((h | rfl) | h)
          · exact .inl h
          · exact .inr (.inl ⟨hc, rfl⟩)
          · exact .inr (.inr h)
        · rintro (h | ⟨_, rfl⟩ | h)
          · exact .inl (.inl h)
          · exact .inl (.inr rfl)
          · exact .inr h
      · rename_i hc
        simp [hc]
  unfold selectedKeys
  rw [if_neg (by simp [hempty]), hfold]
  simp

end OpenstackBlueprint.Chart
