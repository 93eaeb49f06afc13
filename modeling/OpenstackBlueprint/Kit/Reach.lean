import Mathlib

/-!
# Chains, depth and worklist traversal

Reachability by a counted number of steps, the longest chain from a point, and
the depth-first traversal with a stack of names and a set of seen ones.

* `Chain r n a b`: `n` steps of `r` lead from `a` to `b`.
* `depth r a`: the length of the longest chain from `a`. For an acyclic
  relation with finitely many sources it is below `n` exactly when no chain of
  `n` steps starts at `a` (`depth_lt_iff`).
* `visit`: the traversal, with a bound on its iterations. It returns within a
  bound that is linear in the number of edges, and what it returns is the set
  of points reachable from the stack.
-/

namespace OpenstackBlueprint.Kit

variable {α : Type*} {r : α → α → Prop}

/-! ## Chains -/

/-- `n` steps of `r` lead from the first point to the second. -/
inductive Chain (r : α → α → Prop) : Nat → α → α → Prop
  | nil (a : α) : Chain r 0 a a
  | cons {n : Nat} {a b c : α} : r a b → Chain r n b c → Chain r (n + 1) a c

namespace Chain

theorem snoc {n : Nat} {a b c : α} (h : Chain r n a b) (hbc : r b c) : Chain r (n + 1) a c := by
  induction h with
  | nil a => exact .cons hbc (.nil c)
  | cons hab _ ih => exact .cons hab (ih hbc)

/-- The last step of a chain. -/
theorem unsnoc {n : Nat} {a c : α} (h : Chain r (n + 1) a c) :
    ∃ b, Chain r n a b ∧ r b c := by
  induction n generalizing a with
  | zero =>
    cases h with
    | cons hab hbc =>
      cases hbc
      exact ⟨a, .nil a, hab⟩
  | succ n ih =>
    cases h with
    | cons hab hbc =>
      obtain ⟨b, hb, hlast⟩ := ih hbc
      exact ⟨b, .cons hab hb, hlast⟩

end Chain

/-! ## The longest chain -/

/-- No point leads back to itself. -/
def Acyclic (r : α → α → Prop) : Prop := ∀ a, ¬ Relation.TransGen r a a

/-- A relation that lowers a rank is acyclic. -/
theorem acyclic_of_rank (rank : α → Nat) (h : ∀ a b, r a b → rank b < rank a) : Acyclic r := by
  have hdown : ∀ a b, Relation.TransGen r a b → rank b < rank a := by
    intro a b hab
    induction hab with
    | single hab => exact h _ _ hab
    | tail _ hbc ih => exact (h _ _ hbc).trans ih
  exact fun a hcycle => lt_irrefl _ (hdown a a hcycle)

/-- Some chain of `n` steps starts here. -/
def Starts (r : α → α → Prop) (n : Nat) (a : α) : Prop := ∃ b, Chain r n a b

theorem starts_succ {n : Nat} {a : α} : Starts r (n + 1) a ↔ ∃ b, r a b ∧ Starts r n b := by
  constructor
  · rintro ⟨c, hc⟩
    cases hc with
    | cons hab hbc => exact ⟨_, hab, c, hbc⟩
  · rintro ⟨b, hab, c, hbc⟩
    exact ⟨c, .cons hab hbc⟩

theorem Starts.mono {m n : Nat} {a : α} (h : Starts r n a) (hle : m ≤ n) : Starts r m a := by
  induction n, hle using Nat.le_induction with
  | base => exact h
  | succ n _ ih =>
    obtain ⟨c, hc⟩ := h
    obtain ⟨b, hb, _⟩ := hc.unsnoc
    exact ih ⟨b, hb⟩

/-- In an acyclic relation a chain passes through distinct points. -/
theorem Chain.exists_nodup (hacyclic : Acyclic r) {n : Nat} {a b : α} (h : Chain r n a b) :
    ∃ l : List α, l.length = n ∧ l.Nodup ∧
      ∀ x ∈ l, Relation.ReflTransGen r a x ∧ ∃ y, r x y := by
  induction h with
  | nil a => exact ⟨[], rfl, List.nodup_nil, by simp⟩
  | @cons n a b c hab _ ih =>
    obtain ⟨l, hlen, hnodup, hl⟩ := ih
    refine ⟨a :: l, by simp [hlen], List.nodup_cons.mpr ⟨?_, hnodup⟩, ?_⟩
    · intro ha
      exact hacyclic a (.head' hab (hl a ha).1)
    · intro x hx
      rcases List.mem_cons.mp hx with rfl | hx
      · exact ⟨.refl, b, hab⟩
      · exact ⟨.head hab (hl x hx).1, (hl x hx).2⟩

/-- A chain of an acyclic relation is no longer than the list of its sources. -/
theorem Chain.le_length (hacyclic : Acyclic r) {sources : List α}
    (hsources : ∀ a b, r a b → a ∈ sources) {n : Nat} {a b : α} (h : Chain r n a b) :
    n ≤ sources.length := by
  obtain ⟨l, hlen, hnodup, hl⟩ := h.exists_nodup hacyclic
  rw [← hlen]
  refine (List.subperm_of_subset hnodup fun x hx => ?_).length_le
  obtain ⟨_, y, hxy⟩ := hl x hx
  exact hsources x y hxy

/-- The length of the longest chain from a point. -/
noncomputable def depth (r : α → α → Prop) (a : α) : Nat :=
  sSup {n | Starts r n a}

/-- The longest chain is shorter than `n` exactly when none of length `n`
starts here. -/
theorem depth_lt_iff (hacyclic : Acyclic r) {sources : List α}
    (hsources : ∀ a b, r a b → a ∈ sources) {n : Nat} {a : α} :
    depth r a < n ↔ ¬ Starts r n a := by
  have hbdd : BddAbove {n | Starts r n a} := by
    refine ⟨sources.length, ?_⟩
    rintro k ⟨b, hk⟩
    exact hk.le_length hacyclic hsources
  have hnonempty : {n | Starts r n a}.Nonempty := ⟨0, a, .nil a⟩
  have hlongest : Starts r (depth r a) a := Nat.sSup_mem hnonempty hbdd
  constructor
  · intro hlt hstarts
    exact absurd (le_csSup hbdd hstarts) (not_le.mpr hlt)
  · intro hnot
    by_contra hge
    exact hnot (hlongest.mono (not_lt.mp hge))

/-- Along an acyclic relation the longest chain gets shorter. -/
theorem depth_lt_of_rel (hacyclic : Acyclic r) {sources : List α}
    (hsources : ∀ a b, r a b → a ∈ sources) {a b : α} (hab : r a b) : depth r b < depth r a := by
  rw [depth_lt_iff hacyclic hsources]
  intro hstarts
  have hlonger : Starts r (depth r a + 1) a := starts_succ.mpr ⟨b, hab, hstarts⟩
  exact (depth_lt_iff hacyclic hsources).mp (Nat.lt_succ_self _) hlonger

/-! ## Traversal -/

section Visit

variable [DecidableEq α]

/-- Take the top of the stack; unless it was seen, mark it and push its
successors. The stack is kept top first, so successors pushed in order come off
in reverse. `none` when the bound on iterations runs out. -/
def visit (succ : α → List α) : Nat → List α → List α → Option (List α)
  | _, seen, [] => some seen
  | 0, _, _ :: _ => none
  | fuel + 1, seen, n :: stack =>
    if n ∈ seen then visit succ fuel seen stack
    else visit succ fuel (seen ++ [n]) ((succ n).reverse ++ stack)

variable {succ : α → List α}

/-- A larger bound changes nothing once the traversal returns. -/
theorem visit_mono {fuel fuel' : Nat} {seen stack out : List α}
    (h : visit succ fuel seen stack = some out) (hle : fuel ≤ fuel') :
    visit succ fuel' seen stack = some out := by
  induction fuel generalizing fuel' seen stack with
  | zero =>
    cases stack with
    | nil =>
      unfold visit at h ⊢
      exact h
    | cons n stack => cases h
  | succ fuel ih =>
    obtain ⟨fuel', rfl⟩ : ∃ m, fuel' = m + 1 := ⟨fuel' - 1, by omega⟩
    cases stack with
    | nil =>
      unfold visit at h ⊢
      exact h
    | cons n stack =>
      unfold visit at h ⊢
      split at h
      · rename_i hn
        rw [if_pos hn]
        exact ih h (by omega)
      · rename_i hn
        rw [if_neg hn]
        exact ih h (by omega)

/-- What a traversal that returns has seen. The invariant: successors of seen
points are seen or still on the stack. -/
theorem visit_spec {fuel : Nat} {seen stack out : List α}
    (h : visit succ fuel seen stack = some out)
    (hinv : ∀ a ∈ seen, ∀ b ∈ succ a, b ∈ seen ∨ b ∈ stack) :
    (∀ a ∈ seen ++ stack, a ∈ out) ∧ (∀ a ∈ out, ∀ b ∈ succ a, b ∈ out) ∧
      ∀ a ∈ out, a ∈ seen ∨ ∃ s ∈ stack, Relation.ReflTransGen (fun a b => b ∈ succ a) s a := by
  induction fuel generalizing seen stack with
  | zero =>
    cases stack with
    | nil =>
      cases h
      exact ⟨by simp, fun a ha b hb => by simpa using hinv a ha b hb, fun a ha => .inl ha⟩
    | cons n stack => cases h
  | succ fuel ih =>
    cases stack with
    | nil =>
      cases h
      exact ⟨by simp, fun a ha b hb => by simpa using hinv a ha b hb, fun a ha => .inl ha⟩
    | cons n stack =>
      unfold visit at h
      split at h
      · -- `n` was seen before
        rename_i hn
        obtain ⟨hall, hclosed, honly⟩ := ih h fun a ha b hb => by
          rcases hinv a ha b hb with hseen | hstack
          · exact .inl hseen
          · rcases List.mem_cons.mp hstack with rfl | hstack
            · exact .inl hn
            · exact .inr hstack
        refine ⟨fun a ha => ?_, hclosed, fun a ha => ?_⟩
        · rcases List.mem_append.mp ha with ha | ha
          · exact hall a (List.mem_append_left _ ha)
          · rcases List.mem_cons.mp ha with rfl | ha
            · exact hall a (List.mem_append_left _ hn)
            · exact hall a (List.mem_append_right _ ha)
        · refine (honly a ha).imp id ?_
          rintro ⟨s, hs, hreach⟩
          exact ⟨s, List.mem_cons_of_mem _ hs, hreach⟩
      · -- `n` is marked; its successors stand on the stack
        obtain ⟨hall, hclosed, honly⟩ := ih h fun a ha b hb => by
          rcases List.mem_append.mp ha with ha | ha
          · rcases hinv a ha b hb with hseen | hstack
            · exact .inl (List.mem_append_left _ hseen)
            · rcases List.mem_cons.mp hstack with rfl | hstack
              · exact .inl (by simp)
              · exact .inr (List.mem_append_right _ hstack)
          · rw [List.mem_singleton.mp ha] at hb
            exact .inr (List.mem_append_left _ (List.mem_reverse.mpr hb))
        refine ⟨fun a ha => ?_, hclosed, fun a ha => ?_⟩
        · refine hall a ?_
          simp only [List.mem_append, List.mem_cons, List.not_mem_nil, or_false] at ha ⊢
          rcases ha with ha | rfl | ha
          · exact .inl (.inl ha)
          · exact .inl (.inr rfl)
          · exact .inr (.inr ha)
        · rcases honly a ha with hseen | ⟨s, hs, hreach⟩
          · rcases List.mem_append.mp hseen with hseen | hn'
            · exact .inl hseen
            · rw [List.mem_singleton.mp hn']
              exact .inr ⟨n, List.mem_cons_self, .refl⟩
          · refine .inr ?_
            rcases List.mem_append.mp hs with hs | hs
            · exact ⟨n, List.mem_cons_self, .head (List.mem_reverse.mp hs) hreach⟩
            · exact ⟨s, List.mem_cons_of_mem _ hs, hreach⟩

/-- A traversal from one point sees exactly what is reachable from it. -/
theorem mem_visit_iff {fuel : Nat} {a b : α} {out : List α}
    (h : visit succ fuel [] [a] = some out) :
    b ∈ out ↔ Relation.ReflTransGen (fun a b => b ∈ succ a) a b := by
  obtain ⟨hall, hclosed, honly⟩ := visit_spec h (by simp)
  constructor
  · intro hb
    rcases honly b hb with hb | ⟨s, hs, hreach⟩
    · exact absurd hb List.not_mem_nil
    · rwa [List.mem_singleton.mp hs] at hreach
  · intro hreach
    induction hreach with
    | refl => exact hall a (by simp)
    | tail _ hbc ih => exact hclosed _ ih _ hbc

/-- Marking a point takes its weight out of what is not marked. -/
theorem sum_unmarked_le (weight : α → Nat) (unmarked unmarked' : α → Bool) {n : α}
    (hn : unmarked n = true) (hmark : ∀ a, unmarked' a = true → unmarked a = true ∧ a ≠ n)
    (sources : List α) :
    ((sources.filter unmarked').map weight).sum + (if n ∈ sources then weight n else 0) ≤
      ((sources.filter unmarked).map weight).sum := by
  induction sources with
  | nil => simp
  | cons a rest ih =>
    by_cases hna : a = n
    · subst hna
      have hnot : ¬ unmarked' a = true := fun h => (hmark a h).2 rfl
      rw [List.filter_cons_of_neg hnot, List.filter_cons_of_pos hn, List.map_cons, List.sum_cons,
        if_pos List.mem_cons_self]
      omega
    · have hmem : n ∈ a :: rest ↔ n ∈ rest := by
        rw [List.mem_cons]
        exact or_iff_right (Ne.symm hna)
      simp only [hmem]
      by_cases ha' : unmarked' a = true
      · rw [List.filter_cons_of_pos ha', List.filter_cons_of_pos (hmark a ha').1, List.map_cons,
          List.map_cons, List.sum_cons, List.sum_cons]
        omega
      · rw [List.filter_cons_of_neg ha']
        refine ih.trans ?_
        rw [List.filter_cons]
        split
        · rw [List.map_cons, List.sum_cons]
          exact Nat.le_add_left _ _
        · exact le_rfl

/-- What a traversal still has to do: the stack, and the successors of the
points that were not seen. -/
def pending (succ : α → List α) (sources seen stack : List α) : Nat :=
  stack.length + ((sources.filter fun a => a ∉ seen).map fun a => (succ a).length).sum

/-- Marking a point takes its successors out of the pending ones. -/
theorem pending_mark {sources seen : List α} (hsources : ∀ a, succ a ≠ [] → a ∈ sources)
    {n : α} (hn : n ∉ seen) (stack : List α) :
    pending succ sources (seen ++ [n]) ((succ n).reverse ++ stack) ≤
      pending succ sources seen stack := by
  have hsum := sum_unmarked_le (fun a => (succ a).length) (fun a => a ∉ seen)
    (fun a => a ∉ seen ++ [n]) (by simpa using hn) (by simp) sources
  have hn' : (if n ∈ sources then (succ n).length else 0) = (succ n).length := by
    by_cases hmem : n ∈ sources
    · rw [if_pos hmem]
    · have hnil : succ n = [] := by
        by_contra hne
        exact hmem (hsources n hne)
      rw [if_neg hmem, hnil, List.length_nil]
  unfold pending
  rw [List.length_append, List.length_reverse]
  omega

/-- Every iteration takes one point off what is pending, so that many
iterations are enough. -/
theorem exists_visit {sources : List α} (hsources : ∀ a, succ a ≠ [] → a ∈ sources)
    {fuel : Nat} {seen stack : List α} (hfuel : pending succ sources seen stack ≤ fuel) :
    ∃ out, visit succ fuel seen stack = some out := by
  induction fuel generalizing seen stack with
  | zero =>
    cases stack with
    | nil => exact ⟨seen, rfl⟩
    | cons n stack =>
      unfold pending at hfuel
      rw [List.length_cons] at hfuel
      omega
  | succ fuel ih =>
    cases stack with
    | nil => exact ⟨seen, rfl⟩
    | cons n stack =>
      have hpop : pending succ sources seen (n :: stack) =
          pending succ sources seen stack + 1 := by
        unfold pending
        rw [List.length_cons]
        omega
      unfold visit
      split
      · exact ih (by omega)
      · rename_i hn
        exact ih (le_trans (pending_mark hsources hn stack) (by omega))

end Visit

end OpenstackBlueprint.Kit
