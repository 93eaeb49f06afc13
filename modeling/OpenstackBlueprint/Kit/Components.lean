import OpenstackBlueprint.Kit.Tarjan

/-!
# The emitted components are the strong components

`Kit.Tarjan` shows that no edge of an emitted component leads to a later one, so
points that reach each other are emitted together. Here is the converse: what is
emitted together reaches each other.

The second invariant (`Linked`) says where the nodes on the stack lead. An open
frame reaches everything entered after it, its `low` is the index of a node on
the stack that it reaches, and a node whose frame is closed reaches one that was
entered before it. When a root is popped, every node above it can go down in this
way, and it cannot go below the root, for no edge leads there (`popped_reaches`).
-/

namespace OpenstackBlueprint.Kit

variable {V : Type} [DecidableEq V]

namespace Tarjan

/-- There is a path from `a` to `b`. -/
def Reaches (succ : V → List V) (a b : V) : Prop :=
  Relation.ReflTransGen (fun x y => y ∈ succ x) a b

/-- Each reaches the other. -/
def Mutual (succ : V → List V) (a b : V) : Prop := Reaches succ a b ∧ Reaches succ b a

/-- Where the visited nodes lead, and that none is kept twice. -/
structure Linked (succ : V → List V) (roots : List V) (s : Tarjan V) : Prop where
  nodup : (s.stack ++ s.out.flatten).Nodup
  rooted : ∀ x ∈ s.index.keys, ∃ r ∈ roots, Reaches succ r x
  above : ∀ g ∈ s.gray, ∀ x ∈ s.stack, s.idx g ≤ s.idx x → Reaches succ g x
  low_reached : ∀ g ∈ s.gray, ∃ x ∈ s.stack, s.lowOf g = s.idx x ∧ Reaches succ g x
  back : ∀ x ∈ s.stack, x ∉ s.gray → ∃ y ∈ s.stack, s.idx y < s.idx x ∧ Reaches succ x y
  nonempty : ∀ scc ∈ s.out, scc ≠ []
  mutually : ∀ scc ∈ s.out, ∀ x ∈ scc, ∀ y ∈ scc, Reaches succ x y

/-! ## Reaching within what was emitted -/

section Closed

variable {succ : V → List V} {out : List (List V)}

omit [DecidableEq V] in
/-- Nothing leads out of what was emitted. -/
theorem Closed.reaches (h : Closed succ out) {x y : V} (hx : ∃ c ∈ out, x ∈ c)
    (hxy : Reaches succ x y) : ∃ c ∈ out, y ∈ c := by
  have hedge : ∀ a b, (∃ c ∈ out, a ∈ c) → b ∈ succ a → ∃ c ∈ out, b ∈ c := by
    clear hx hxy
    induction h with
    | nil => simp
    | @snoc out scc _ hedges ih =>
      rintro a b ⟨c, hc, ha⟩ hab
      rcases List.mem_append.mp hc with hc | hc
      · obtain ⟨d, hd, hb⟩ := ih a b ⟨c, hc, ha⟩ hab
        exact ⟨d, List.mem_append_left _ hd, hb⟩
      · rw [List.mem_singleton.mp hc] at ha
        rcases hedges a ha b hab with hb | ⟨d, hd, hb⟩
        · exact ⟨scc, by simp, hb⟩
        · exact ⟨d, List.mem_append_left _ hd, hb⟩
  induction hxy with
  | refl => exact hx
  | tail _ hbc ih => exact hedge _ _ ih hbc

omit [DecidableEq V] in
/-- Points that reach each other were emitted together. -/
theorem Closed.mem_of_mutual (h : Closed succ out) (hnodup : out.flatten.Nodup) {c : List V}
    (hc : c ∈ out) {x y : V} (hx : x ∈ c) (hxy : Mutual succ x y) : y ∈ c := by
  induction h with
  | nil => exact absurd hc List.not_mem_nil
  | @snoc out scc hclosed hedges ih =>
    rw [List.flatten_append, List.flatten_singleton, List.nodup_append] at hnodup
    obtain ⟨hnodup', _, hapart⟩ := hnodup
    rcases List.mem_append.mp hc with hc | hc
    · exact ih hnodup' hc
    · rw [List.mem_singleton.mp hc] at hx ⊢
      obtain ⟨d, hd, hy⟩ := (hclosed.snoc hedges).reaches ⟨scc, by simp, hx⟩ hxy.1
      rcases List.mem_append.mp hd with hd | hd
      · -- from an earlier component there is no way back
        obtain ⟨e, he, hx'⟩ := hclosed.reaches ⟨d, hd, hy⟩ hxy.2
        exact absurd rfl (hapart x (List.mem_flatten.mpr ⟨e, he, hx'⟩) x hx)
      · rwa [List.mem_singleton.mp hd] at hy

end Closed

/-! ## One step -/

section Step

variable {succ : V → List V} {roots : List V} {s : Tarjan V}

/-- A node on the stack was not emitted. -/
theorem Linked.not_emitted (h : Linked succ roots s) {x : V} (hx : x ∈ s.stack) :
    ¬ ∃ c ∈ s.out, x ∈ c := by
  rintro ⟨c, hc, hxc⟩
  exact (List.nodup_append.mp h.nodup).2.2 x hx x (List.mem_flatten.mpr ⟨c, hc, hxc⟩) rfl

/-- A new node is reached by the frames below it. -/
theorem Linked.enter (h : Linked succ roots s) (hinv : Inv succ s) {v : V}
    {frames : List (V × List V)} (hv : v ∉ s.index.keys)
    (hframes : frames.map Prod.fst = s.gray) (hroot : ∃ r ∈ roots, Reaches succ r v)
    (hreach : ∀ g ∈ s.gray, Reaches succ g v) :
    Linked succ roots (enter succ { s with work := frames } v) := by
  set s' := Tarjan.enter succ { s with work := frames } v with hs'
  have hgray : s'.gray = v :: s.gray := gray_enter hframes
  have hidx : ∀ x ∈ s.stack, s'.idx x = s.idx x := fun x hx =>
    idx_enter_of_mem hv (hinv.mem_keys_of_stack hx)
  refine ⟨?_, ?_, ?_, ?_, ?_, h.nonempty, h.mutually⟩
  · refine List.nodup_cons.mpr ⟨fun hmem => hv ((hinv.indexed v).mpr ?_), h.nodup⟩
    exact (List.mem_append.mp hmem).imp_right List.mem_flatten.mp
  · intro x hx
    rcases mem_keys_enter.mp hx with hx | rfl
    · exact h.rooted x hx
    · exact hroot
  · intro g hg x hx hle
    rcases List.mem_cons.mp (show x ∈ v :: s.stack from hx) with rfl | hxs
    · rcases List.mem_cons.mp (hgray ▸ hg) with rfl | hg
      · exact .refl
      · exact hreach g hg
    · rcases List.mem_cons.mp (hgray ▸ hg) with rfl | hg
      · -- the new node was entered last
        exact absurd hle (not_le.mpr (hinv.idx_enter_lt hv (hinv.mem_keys_of_stack hxs)))
      · rw [hidx g (hinv.gray_stack g hg), hidx x hxs] at hle
        exact h.above g hg x hxs hle
  · intro g hg
    show ∃ x ∈ v :: s.stack, _
    rcases List.mem_cons.mp (hgray ▸ hg) with rfl | hg
    · exact ⟨g, List.mem_cons_self, by rw [hs', lowOf_enter_self, idx_enter_self], .refl⟩
    · obtain ⟨x, hx, heq, hgx⟩ := h.low_reached g hg
      refine ⟨x, List.mem_cons_of_mem _ hx, ?_, hgx⟩
      rw [hs', lowOf_enter_of_mem hv (hinv.mem_keys_of_gray hg), heq]
      exact (hidx x hx).symm
  · intro x hx hng
    show ∃ y ∈ v :: s.stack, _
    rw [hgray, List.mem_cons, not_or] at hng
    have hx' := (List.mem_cons.mp (show x ∈ v :: s.stack from hx)).resolve_left hng.1
    obtain ⟨y, hy, hlt, hxy⟩ := h.back x hx' hng.2
    exact ⟨y, List.mem_cons_of_mem _ hy, by rwa [hidx y hy, hidx x hx'], hxy⟩

/-- Stepping over an edge changes `low` alone, to another node that is reached. -/
theorem Linked.advance (h : Linked succ roots s) {node : V} {rest rest' : List V}
    {below : List (V × List V)} (hwork : s.work = (node, rest') :: below) {low : Dict V Nat}
    (hlow : ∀ g ∈ s.gray, ∃ x ∈ s.stack, (low.get? g).getD 0 = s.idx x ∧ Reaches succ g x) :
    Linked succ roots { s with low := low, work := (node, rest) :: below } := by
  have hgray : ({ s with low := low, work := (node, rest) :: below } : Tarjan V).gray = s.gray := by
    rw [gray_of_work hwork]
    rfl
  refine ⟨h.nodup, h.rooted, ?_, ?_, ?_, h.nonempty, h.mutually⟩
  · rw [hgray]
    exact h.above
  · rw [hgray]
    exact hlow
  · rw [hgray]
    exact h.back

/-- A closed node goes down to what its `low` points at. -/
theorem Linked.close (h : Linked succ roots s) (hinv : Inv succ s) {node : V}
    {below : List (V × List V)} (hwork : s.work = (node, []) :: below)
    (hlow : s.lowOf node ≠ s.idx node) : Linked succ roots (s.close node below) := by
  obtain ⟨p, r, rest, rfl⟩ := hinv.exists_below hwork hlow
  set s' := s.close node ((p, r) :: rest) with hs'
  have hgray : s.gray = node :: s'.gray := gray_of_work hwork
  have hnode : node ∈ s.gray := hgray ▸ List.mem_cons_self
  have hmem : ∀ g ∈ s'.gray, g ∈ s.gray := fun g hg => hgray ▸ List.mem_cons_of_mem _ hg
  have hp : p ∈ s'.gray := List.mem_cons_self
  have hpnode : Reaches succ p node :=
    h.above p (hmem p hp) node (hinv.gray_stack node hnode) ((hinv.top_last hwork).2 p hp).le
  refine ⟨h.nodup, h.rooted, fun g hg => h.above g (hmem g hg), ?_, ?_, h.nonempty, h.mutually⟩
  · intro g hg
    rw [hs', lowOf_close]
    split
    · rename_i hgp
      subst hgp
      rcases min_choice (s.lowOf g) (s.lowOf node) with hmin | hmin
      · rw [hmin]
        exact h.low_reached g (hmem g hg)
      · rw [hmin]
        obtain ⟨x, hx, heq, hnx⟩ := h.low_reached node hnode
        exact ⟨x, hx, heq, hpnode.trans hnx⟩
    · exact h.low_reached g (hmem g hg)
  · intro x hx hng
    by_cases hxn : x = node
    · subst hxn
      obtain ⟨y, hy, heq, hxy⟩ := h.low_reached x hnode
      have hle := hinv.low_le x hnode
      exact ⟨y, hy, by show s.idx y < s.idx x; omega, hxy⟩
    · refine h.back x hx ?_
      rw [hgray, List.mem_cons, not_or]
      exact ⟨hxn, hng⟩

/-- What is popped with a root leads back to it: it goes down to nodes entered
before it, and these are popped too. -/
theorem Linked.popped_reaches (h : Linked succ roots s) (hinv : Inv succ s) {node : V}
    {below : List (V × List V)} (hwork : s.work = (node, []) :: below)
    (hlow : s.lowOf node = s.idx node) {x : V} (hx : x ∈ (popTo node s.stack).1) :
    Reaches succ x node := by
  have hnode : node ∈ s.gray := gray_of_work hwork ▸ List.mem_cons_self
  obtain ⟨_, hpopped, _⟩ := hinv.popTo_idx (hinv.gray_stack node hnode)
  induction hn : s.idx x using Nat.strong_induction_on generalizing x with
  | _ n ih =>
    obtain ⟨hxs, hle⟩ := hpopped x hx
    by_cases hxn : x = node
    · rw [hxn]
      exact .refl
    · have hng : x ∉ s.gray := fun hg => hxn (hinv.idx_inj hxs (hinv.gray_stack node hnode)
        (le_antisymm ((hinv.top_last hwork).1 x hg) hle))
      obtain ⟨y, hys, hlt, hxy⟩ := h.back x hxs hng
      have hclosed := hinv.closed.snoc (hinv.popped_closed hwork hlow)
      obtain ⟨c, hc, hyc⟩ := hclosed.reaches ⟨_, by simp, hx⟩ hxy
      -- the next node down is on the stack, so it is popped with `x`
      rcases List.mem_append.mp hc with hc | hc
      · exact absurd ⟨c, hc, hyc⟩ (h.not_emitted hys)
      · rw [List.mem_singleton.mp hc] at hyc
        exact hxy.trans (ih (s.idx y) (hn ▸ hlt) hyc rfl)

omit [DecidableEq V] in
theorem perm_moved {popped left out : List V} {node : V} :
    ((popped ++ node :: left) ++ out).Perm (left ++ (out ++ (popped ++ [node]))) := by
  rw [List.append_cons]
  refine (List.perm_append_comm.append_right out).trans ?_
  rw [List.append_assoc]
  exact List.perm_append_comm.append_left left

/-- Popping moves nodes from the stack to the output. -/
theorem perm_emitScc {node : V} {below : List (V × List V)} (hnode : node ∈ s.stack) :
    (s.stack ++ s.out.flatten).Perm
      ((s.emitScc node below).stack ++ (s.emitScc node below).out.flatten) := by
  obtain ⟨popped, hpop, hst⟩ := popTo_spec hnode
  show (s.stack ++ s.out.flatten).Perm ((popTo node s.stack).2 ++
    (s.out ++ [(popTo node s.stack).1]).flatten)
  rw [List.flatten_append, List.flatten_singleton, hpop]
  conv_lhs => rw [hst]
  exact perm_moved

/-- A popped root leaves a component of nodes that reach each other. -/
theorem Linked.emitScc (h : Linked succ roots s) (hinv : Inv succ s) {node : V}
    {below : List (V × List V)} (hwork : s.work = (node, []) :: below)
    (hlow : s.lowOf node = s.idx node) : Linked succ roots (s.emitScc node below) := by
  set s' := s.emitScc node below with hs'
  have hgray : s.gray = node :: s'.gray := gray_of_work hwork
  have hnode : node ∈ s.gray := hgray ▸ List.mem_cons_self
  have hnodeStack := hinv.gray_stack node hnode
  have hmem : ∀ g ∈ s'.gray, g ∈ s.gray := fun g hg => hgray ▸ List.mem_cons_of_mem _ hg
  have hbelow : ∀ g ∈ s'.gray, s.idx g < s.idx node := (hinv.top_last hwork).2
  obtain ⟨_, hpopped, hleft⟩ := hinv.popTo_idx hnodeStack
  have hlows : ∀ x, s'.lowOf x = s.lowOf x := hinv.lowOf_passLow hwork hlow
  refine ⟨(perm_emitScc hnodeStack).nodup h.nodup, h.rooted, ?_, ?_, ?_, ?_, ?_⟩
  · exact fun g hg x hx => h.above g (hmem g hg) x (hleft x hx).1
  · intro g hg
    obtain ⟨x, hx, heq, hgx⟩ := h.low_reached g (hmem g hg)
    have hle := hinv.low_le g (hmem g hg)
    have hlt := hbelow g hg
    refine ⟨x, hinv.stays_emitScc hnodeStack hx (by omega), ?_, hgx⟩
    rw [hlows]
    exact heq
  · intro x hx hng
    obtain ⟨hxs, hxlt⟩ := hleft x hx
    have hng' : x ∉ s.gray := by
      rw [hgray, List.mem_cons, not_or]
      refine ⟨fun heq => ?_, hng⟩
      exact absurd hxlt (by rw [heq]; exact lt_irrefl _)
    obtain ⟨y, hy, hlt, hxy⟩ := h.back x hxs hng'
    exact ⟨y, hinv.stays_emitScc hnodeStack hy (hlt.trans hxlt), hlt, hxy⟩
  · intro scc hscc
    rcases List.mem_append.mp (show scc ∈ s.out ++ [(popTo node s.stack).1] from hscc) with hc | hc
    · exact h.nonempty scc hc
    · obtain ⟨popped, hpop, _⟩ := popTo_spec hnodeStack
      rw [List.mem_singleton.mp hc, hpop]
      exact List.append_ne_nil_of_right_ne_nil _ (List.cons_ne_nil _ _)
  · intro scc hscc x hx y hy
    rcases List.mem_append.mp (show scc ∈ s.out ++ [(popTo node s.stack).1] from hscc) with hc | hc
    · exact h.mutually scc hc x hx y hy
    · rw [List.mem_singleton.mp hc] at hx hy
      obtain ⟨hys, hle⟩ := hpopped y hy
      exact (h.popped_reaches hinv hwork hlow hx).trans (h.above node hnode y hys hle)

/-- One step keeps the links. -/
theorem Linked.step (h : Linked succ roots s) (hinv : Inv succ s) :
    Linked succ roots (step succ s) := by
  unfold Tarjan.step
  split
  · exact h
  · rename_i node child rest below hwork
    have hnode : node ∈ s.gray := gray_of_work hwork ▸ List.mem_cons_self
    have hedge : child ∈ succ node := by
      obtain ⟨done, hsucc, _⟩ := hinv.examined node (child :: rest) (hwork ▸ List.mem_cons_self)
      exact hsucc ▸ List.mem_append_right _ List.mem_cons_self
    have hnodeStack := hinv.gray_stack node hnode
    split
    · -- a new node hangs below the open frames
      rename_i hnew
      refine h.enter hinv (Dict.get?_eq_none_iff.mp hnew) (by rw [gray_of_work hwork]; rfl) ?_ ?_
      · obtain ⟨r, hr, hrn⟩ := h.rooted node (hinv.mem_keys_of_stack hnodeStack)
        exact ⟨r, hr, hrn.tail hedge⟩
      · intro g hg
        exact (h.above g hg node hnodeStack ((hinv.top_last hwork).1 g hg)).tail hedge
    · split
      · -- an edge back onto the stack lowers `low` to a node that is reached
        rename_i hon
        refine h.advance hwork fun g hg => ?_
        rw [Dict.get?_set]
        split
        · rename_i hgn
          subst hgn
          rw [Option.getD_some]
          rcases min_choice (s.lowOf g) (s.idx child) with hmin | hmin
          · rw [hmin]
            exact h.low_reached g hg
          · exact ⟨child, (hinv.onStack child).mp hon, hmin, .single hedge⟩
        · exact h.low_reached g hg
      · exact h.advance hwork h.low_reached
  · rename_i node below hwork
    split
    · rename_i hlow
      exact h.emitScc hinv hwork hlow
    · rename_i hlow
      exact h.close hinv hwork hlow

end Step

/-! ## Runs -/

section Run

variable {succ : V → List V} {roots : List V} {s s' : Tarjan V}

theorem Linked.init : Linked succ roots (init : Tarjan V) := by
  refine ⟨?_, ?_, ?_, ?_, ?_, ?_, ?_⟩ <;> simp [Tarjan.init, Dict.keys, Dict.empty, gray]

theorem Linked.run {fuel : Nat} (h : Linked succ roots s) (hinv : Inv succ s)
    (hrun : run succ fuel s = some s') : Linked succ roots s' := by
  induction fuel generalizing s with
  | zero =>
    unfold Tarjan.run at hrun
    split at hrun
    · cases hrun
      exact h
    · cases hrun
  | succ fuel ih =>
    unfold Tarjan.run at hrun
    split at hrun
    · cases hrun
      exact h
    · exact ih (h.step hinv) hinv.step hrun

theorem Linked.visitAll {fuel : Nat} {todo : List V} (h : Linked succ roots s)
    (hinv : Inv succ s) (hwork : s.work = []) (htodo : ∀ v ∈ todo, v ∈ roots)
    (hvisit : visitAll succ fuel todo s = some s') : Linked succ roots s' := by
  induction todo generalizing s with
  | nil =>
    cases hvisit
    exact h
  | cons v rest ih =>
    have hrest : ∀ w ∈ rest, w ∈ roots := fun w hw => htodo w (List.mem_cons_of_mem _ hw)
    unfold Tarjan.visitAll at hvisit
    split at hvisit
    · rename_i hnew
      have hv := Dict.get?_eq_none_iff.mp hnew
      have hgray : ∀ g ∈ s.gray, Reaches succ g v := by
        unfold gray
        rw [hwork]
        simp
      have hroot := h.enter hinv hv rfl ⟨v, htodo v List.mem_cons_self, .refl⟩ hgray
      obtain ⟨s₁, hrun, hvisit⟩ := Option.bind_eq_some_iff.mp hvisit
      obtain ⟨hinv₁, hwork₁, _⟩ := run_spec (hinv.enter_root hwork hv) hrun
      exact ih (hroot.run (hinv.enter_root hwork hv) hrun) hinv₁ hwork₁ hrest hvisit
    · exact ih h hinv hwork hrest hvisit

/-- The emitted lists are not empty and no node is in two of them or twice in
one; they hold what the roots reach; and each is the strong component of every
node in it. -/
theorem sccs_components {fuel : Nat} {out : List (List V)}
    (h : sccs succ roots fuel = some out) :
    (∀ c ∈ out, c ≠ []) ∧ out.flatten.Nodup ∧
      (∀ x, (∃ c ∈ out, x ∈ c) ↔ ∃ r ∈ roots, Reaches succ r x) ∧
      ∀ c ∈ out, ∀ x ∈ c, ∀ y, y ∈ c ↔ Mutual succ x y := by
  obtain ⟨hclosed, hcover⟩ := sccs_spec h
  obtain ⟨s, hvisit, rfl⟩ := Option.map_eq_some_iff.mp h
  obtain ⟨hinv, _⟩ := visitAll_spec Inv.init rfl hvisit
  have hlinked := Linked.init.visitAll Inv.init rfl (fun _ hv => hv) hvisit
  have hnodup := (List.nodup_append.mp hlinked.nodup).2.1
  refine ⟨hlinked.nonempty, hnodup, fun x => ⟨fun hx => ?_, ?_⟩, fun c hc x hx y => ⟨?_, ?_⟩⟩
  · exact hlinked.rooted x ((hinv.indexed x).mpr (.inr hx))
  · rintro ⟨r, hr, hrx⟩
    exact hclosed.reaches (hcover r hr) hrx
  · exact fun hy => ⟨hlinked.mutually c hc x hx y hy, hlinked.mutually c hc y hy x hx⟩
  · exact hclosed.mem_of_mutual hnodup hc hx

end Run

end Tarjan

end OpenstackBlueprint.Kit
