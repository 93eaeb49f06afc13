import OpenstackBlueprint.Kit.Reach

/-!
# Waiting for one of several

A point waits for several things at once, and each of these waits ends as soon
as one of its alternatives has come. What comes at all is the least fixpoint of
that rule (`comes`).

A *choice* names the alternative each wait will end by. Points come exactly when
they can be chosen for without going round in a circle (`comes_iff_exists_choice`):
from an acyclic choice by induction on the longest chain of chosen waits, and
back from the stage at which each point came.
-/

namespace OpenstackBlueprint.Kit

namespace Waits

variable {α : Type*} {waits : α → List (List α)}

/-- What comes next, when the points of a set have come. -/
def next (waits : α → List (List α)) : Set α →o Set α where
  toFun come := {a | ∀ w ∈ waits a, ∃ b ∈ w, b ∈ come}
  monotone' := by
    intro come come' hsub a ha w hw
    obtain ⟨b, hb, hcome⟩ := ha w hw
    exact ⟨b, hb, hsub hcome⟩

/-- The points that come: the least set that the rule adds nothing to. -/
def comes (waits : α → List (List α)) : Set α := OrderHom.lfp (next waits)

theorem mem_comes_iff {a : α} :
    a ∈ comes waits ↔ ∀ w ∈ waits a, ∃ b ∈ w, b ∈ comes waits := by
  have hfix : next waits (comes waits) = comes waits := OrderHom.map_lfp (next waits)
  conv_lhs => rw [← hfix]
  rfl

/-- Nothing comes outside a set that the rule does not leave. -/
theorem comes_subset {s : Set α} (h : ∀ a, (∀ w ∈ waits a, ∃ b ∈ w, b ∈ s) → a ∈ s) :
    comes waits ⊆ s :=
  OrderHom.lfp_le (next waits) h

/-- Points that each have a wait without an alternative outside never come. -/
theorem not_mem_comes_of_stuck {stuck : Set α}
    (h : ∀ a ∈ stuck, ∃ w ∈ waits a, ∀ b ∈ w, b ∈ stuck) {a : α} (ha : a ∈ stuck) :
    a ∉ comes waits := by
  have hsubset : comes waits ⊆ stuckᶜ := by
    refine comes_subset fun a hends ha => ?_
    obtain ⟨w, hw, hinside⟩ := h a ha
    obtain ⟨b, hb, hout⟩ := hends w hw
    exact hout (hinside b hb)
  exact fun hcomes => hsubset hcomes ha

/-! ## Stages -/

/-- What has come after `n` rounds. -/
def stage (waits : α → List (List α)) : Nat → Set α
  | 0 => ∅
  | n + 1 => next waits (stage waits n)

theorem stage_subset_succ (n : Nat) : stage waits n ⊆ stage waits (n + 1) := by
  induction n with
  | zero => exact Set.empty_subset _
  | succ n ih => exact (next waits).monotone ih

theorem stage_mono {m n : Nat} (h : m ≤ n) : stage waits m ⊆ stage waits n :=
  monotone_nat_of_le_succ stage_subset_succ h

/-- A list of waits that all end, end by one common stage. -/
theorem exists_common_stage {l : List (List α)}
    (h : ∀ w ∈ l, ∃ b ∈ w, ∃ n, b ∈ stage waits n) :
    ∃ n, ∀ w ∈ l, ∃ b ∈ w, b ∈ stage waits n := by
  induction l with
  | nil => exact ⟨0, by simp⟩
  | cons w rest ih =>
    obtain ⟨n, hn⟩ := ih fun w' hw' => h w' (List.mem_cons_of_mem _ hw')
    obtain ⟨b, hb, m, hm⟩ := h w List.mem_cons_self
    refine ⟨max m n, fun w' hw' => ?_⟩
    rcases List.mem_cons.mp hw' with rfl | hw'
    · exact ⟨b, hb, stage_mono (le_max_left m n) hm⟩
    · obtain ⟨b', hb', hstage⟩ := hn w' hw'
      exact ⟨b', hb', stage_mono (le_max_right m n) hstage⟩

/-- What comes, comes at some stage. -/
theorem exists_stage {a : α} (h : a ∈ comes waits) : ∃ n, a ∈ stage waits n := by
  refine comes_subset (s := {a | ∃ n, a ∈ stage waits n}) (fun a ha => ?_) h
  obtain ⟨n, hn⟩ := exists_common_stage ha
  exact ⟨n + 1, hn⟩

/-- The first stage at which a point has come. -/
noncomputable def rank (waits : α → List (List α)) (a : α) : Nat :=
  sInf {n | a ∈ stage waits n}

/-- Each wait of a point that comes has an alternative that comes earlier. -/
theorem exists_rank_lt {a : α} (h : a ∈ comes waits) {w : List α} (hw : w ∈ waits a) :
    ∃ b ∈ w, rank waits b < rank waits a := by
  have hmem : a ∈ stage waits (rank waits a) := Nat.sInf_mem (exists_stage h)
  cases hrank : rank waits a with
  | zero =>
    rw [hrank] at hmem
    exact absurd hmem (Set.notMem_empty a)
  | succ n =>
    rw [hrank] at hmem
    obtain ⟨b, hb, hstage⟩ := hmem w hw
    exact ⟨b, hb, Nat.lt_succ_of_le (Nat.sInf_le hstage)⟩

/-! ## Choices -/

/-- `pick` names an alternative for every wait of the given points. -/
def IsChoice (waits : α → List (List α)) (points : List α) (pick : α → List α → α) : Prop :=
  ∀ a ∈ points, ∀ w ∈ waits a, pick a w ∈ w

/-- The waits a choice leaves: one alternative for each wait. -/
def Chosen (waits : α → List (List α)) (points : List α) (pick : α → List α → α)
    (a b : α) : Prop :=
  a ∈ points ∧ ∃ w ∈ waits a, b = pick a w

variable {points : List α} {pick : α → List α → α}

/-- Chosen waits that do not go round in a circle end. -/
theorem mem_comes_of_acyclic (hclosed : ∀ a ∈ points, ∀ w ∈ waits a, ∀ b ∈ w, b ∈ points)
    (hpick : IsChoice waits points pick) (hacyclic : Acyclic (Chosen waits points pick))
    {a : α} (ha : a ∈ points) : a ∈ comes waits := by
  induction hdepth : depth (Chosen waits points pick) a using Nat.strong_induction_on
    generalizing a with
  | h n ih =>
    refine mem_comes_iff.mpr fun w hw => ⟨pick a w, hpick a ha w hw, ?_⟩
    refine ih _ ?_ (hclosed a ha w hw _ (hpick a ha w hw)) rfl
    rw [← hdepth]
    exact depth_lt_of_rel hacyclic (fun a b h => h.1) ⟨ha, w, hw, rfl⟩

/-- What comes can be chosen for without going round in a circle. -/
theorem exists_choice_of_comes (hcomes : ∀ a ∈ points, a ∈ comes waits) :
    ∃ pick, IsChoice waits points pick ∧ Acyclic (Chosen waits points pick) := by
  have hearlier : ∀ a w, ∃ b, a ∈ points → w ∈ waits a →
      b ∈ w ∧ rank waits b < rank waits a := by
    intro a w
    by_cases h : a ∈ points ∧ w ∈ waits a
    · obtain ⟨b, hb, hlt⟩ := exists_rank_lt (hcomes a h.1) h.2
      exact ⟨b, fun _ _ => ⟨hb, hlt⟩⟩
    · exact ⟨a, fun ha hw => absurd ⟨ha, hw⟩ h⟩
  choose pick hpick using hearlier
  refine ⟨pick, fun a ha w hw => (hpick a w ha hw).1, acyclic_of_rank (rank waits) ?_⟩
  rintro a b ⟨ha, w, hw, rfl⟩
  exact (hpick a w ha hw).2

/-- All points come exactly when some choice goes round in no circle. -/
theorem comes_iff_exists_choice
    (hclosed : ∀ a ∈ points, ∀ w ∈ waits a, ∀ b ∈ w, b ∈ points) :
    (∀ a ∈ points, a ∈ comes waits) ↔
      ∃ pick, IsChoice waits points pick ∧ Acyclic (Chosen waits points pick) := by
  constructor
  · exact exists_choice_of_comes
  · rintro ⟨pick, hpick, hacyclic⟩ a ha
    exact mem_comes_of_acyclic hclosed hpick hacyclic ha

end Waits

end OpenstackBlueprint.Kit
