import OpenstackBlueprint.Kit.Dict
import OpenstackBlueprint.Kit.Reach

/-!
# Strongly connected components, iteratively

Tarjan's algorithm with an explicit stack of frames: a frame is a node and the
successors its loop has not come to yet. One step looks at one successor of the
top frame, or finishes the top node.

The result here is about the emitted components, in the order they are emitted:
an edge leads into its own component or into an earlier one (`Closed`). So two
points that reach each other are in one component, and where every component is
a single point without a loop the graph is acyclic (`acyclic_of_closed`).

The invariant (`Inv`) speaks of the nodes on the stack. Each belongs to the
last open frame that was entered before it (`Owns`), and what an examined edge
of it says about the stack is recorded in that frame's `low`.
-/

namespace OpenstackBlueprint.Kit

variable {V : Type} [DecidableEq V]

/-- The variables of the algorithm. Both stacks are kept top first. -/
structure Tarjan (V : Type) where
  index : Dict V Nat
  low : Dict V Nat
  onStack : List V
  stack : List V
  out : List (List V)
  work : List (V × List V)

namespace Tarjan

/-- Before anything is visited. -/
def init : Tarjan V := ⟨Dict.empty, Dict.empty, [], [], [], []⟩

/-- `index[v]`. -/
def idx (s : Tarjan V) (v : V) : Nat := (s.index.get? v).getD 0

/-- `low[v]`. -/
def lowOf (s : Tarjan V) (v : V) : Nat := (s.low.get? v).getD 0

/-- `index[v] = low[v] = len(index)`, and open a frame for `v`. -/
def enter (succ : V → List V) (s : Tarjan V) (v : V) : Tarjan V where
  index := s.index.set v s.index.entries.length
  low := s.low.set v s.index.entries.length
  onStack := v :: s.onStack
  stack := v :: s.stack
  out := s.out
  work := (v, succ v) :: s.work

/-- Pop until `node` is popped: what was popped, and what is left. -/
def popTo (node : V) : List V → List V × List V
  | [] => ([], [])
  | m :: st => if m = node then ([m], st) else (m :: (popTo node st).1, (popTo node st).2)

/-- `low` after `node` is finished: its value is passed to the frame below. -/
def passLow (s : Tarjan V) (node : V) : List (V × List V) → Dict V Nat
  | [] => s.low
  | (p, _) :: _ => s.low.set p (min (s.lowOf p) (s.lowOf node))

/-- The top frame is closed and its node stays on the stack. -/
def close (s : Tarjan V) (node : V) (below : List (V × List V)) : Tarjan V :=
  { s with low := s.passLow node below, work := below }

/-- The top frame is closed and a component is emitted. -/
def emitScc (s : Tarjan V) (node : V) (below : List (V × List V)) : Tarjan V where
  index := s.index
  low := s.passLow node below
  onStack := s.onStack.filter fun m => m ∉ (popTo node s.stack).1
  stack := (popTo node s.stack).2
  out := s.out ++ [(popTo node s.stack).1]
  work := below

/-- One step on the top frame. -/
def step (succ : V → List V) (s : Tarjan V) : Tarjan V :=
  match s.work with
  | [] => s
  | (node, child :: rest) :: below =>
    if s.index.get? child = none then
      enter succ { s with work := (node, rest) :: below } child
    else if child ∈ s.onStack then
      { s with
        low := s.low.set node (min (s.lowOf node) (s.idx child))
        work := (node, rest) :: below }
    else { s with work := (node, rest) :: below }
  | (node, []) :: below =>
    if s.lowOf node = s.idx node then s.emitScc node below else s.close node below

/-- Step until no frame is open; `none` when the bound runs out. -/
def run (succ : V → List V) : Nat → Tarjan V → Option (Tarjan V)
  | 0, s => if s.work.isEmpty then some s else none
  | fuel + 1, s => if s.work.isEmpty then some s else run succ fuel (step succ s)

/-- Visit every root that was not visited yet. -/
def visitAll (succ : V → List V) (fuel : Nat) : List V → Tarjan V → Option (Tarjan V)
  | [], s => some s
  | v :: rest, s =>
    if s.index.get? v = none then (run succ fuel (enter succ s v)).bind (visitAll succ fuel rest)
    else visitAll succ fuel rest s

/-- The components, in the order they are emitted. -/
def sccs (succ : V → List V) (roots : List V) (fuel : Nat) : Option (List (List V)) :=
  (visitAll succ fuel roots init).map (·.out)

/-! ## The invariant -/

/-- The nodes of the open frames. -/
def gray (s : Tarjan V) : List V := s.work.map Prod.fst

/-- `g` is the last open frame entered before `x`, or `x` itself. -/
structure Owns (s : Tarjan V) (g x : V) : Prop where
  open_ : g ∈ s.gray
  before : s.idx g ≤ s.idx x
  last : ∀ h ∈ s.gray, s.idx h ≤ s.idx x → s.idx h ≤ s.idx g

/-- The edge was examined: its end is visited, and if it is on the stack the
owner of its start knows it, or is below it. -/
structure EdgeOk (s : Tarjan V) (x y : V) : Prop where
  visited : y ∈ s.index.keys
  known : y ∈ s.stack → ∀ g, s.Owns g x → s.lowOf g ≤ s.idx y ∨ s.idx g ≤ s.idx y

/-- Every edge of a component leads into it or into an earlier one. -/
inductive Closed (succ : V → List V) : List (List V) → Prop
  | nil : Closed succ []
  | snoc {out : List (List V)} {scc : List V} : Closed succ out →
      (∀ x ∈ scc, ∀ y ∈ succ x, y ∈ scc ∨ ∃ c ∈ out, y ∈ c) → Closed succ (out ++ [scc])

/-- What holds between two steps. -/
structure Inv (succ : V → List V) (s : Tarjan V) : Prop where
  indexed : ∀ x, x ∈ s.index.keys ↔ x ∈ s.stack ∨ ∃ scc ∈ s.out, x ∈ scc
  bound : ∀ x ∈ s.index.keys, s.idx x < s.index.entries.length
  sorted : s.stack.Pairwise fun a b => s.idx b < s.idx a
  onStack : ∀ x, x ∈ s.onStack ↔ x ∈ s.stack
  gray_sorted : s.gray.Pairwise fun a b => s.idx b < s.idx a
  gray_stack : ∀ g ∈ s.gray, g ∈ s.stack
  owned : ∀ x ∈ s.stack, ∃ g ∈ s.gray, s.idx g ≤ s.idx x
  low_le : ∀ g ∈ s.gray, s.lowOf g ≤ s.idx g
  low_on : ∀ g ∈ s.gray, ∃ x ∈ s.stack, s.lowOf g = s.idx x
  examined : ∀ x rest, (x, rest) ∈ s.work →
    ∃ done, succ x = done ++ rest ∧ ∀ y ∈ done, s.EdgeOk x y
  finished : ∀ x ∈ s.stack, x ∉ s.gray → ∀ y ∈ succ x, s.EdgeOk x y
  closed : Closed succ s.out

/-! ## Small facts -/

section Facts

variable {succ : V → List V} {s : Tarjan V}

theorem Inv.mem_keys_of_stack (h : Inv succ s) {x : V} (hx : x ∈ s.stack) : x ∈ s.index.keys :=
  (h.indexed x).mpr (.inl hx)

/-- Nodes on the stack have different indices. -/
theorem Inv.idx_inj (h : Inv succ s) {x y : V} (hx : x ∈ s.stack) (hy : y ∈ s.stack)
    (heq : s.idx x = s.idx y) : x = y := by
  obtain ⟨i, hi, rfl⟩ := List.mem_iff_getElem.mp hx
  obtain ⟨j, hj, rfl⟩ := List.mem_iff_getElem.mp hy
  have hsorted := List.pairwise_iff_getElem.mp h.sorted
  rcases Nat.lt_trichotomy i j with hlt | rfl | hlt
  · exact absurd (hsorted i j hi hj hlt) (by omega)
  · rfl
  · exact absurd (hsorted j i hj hi hlt) (by omega)

/-- The top frame is the last one entered. -/
theorem Inv.top_last (h : Inv succ s) {node : V} {rest : List V} {below : List (V × List V)}
    (hwork : s.work = (node, rest) :: below) :
    (∀ g ∈ s.gray, s.idx g ≤ s.idx node) ∧ ∀ g ∈ below.map Prod.fst, s.idx g < s.idx node := by
  have hsorted := h.gray_sorted
  unfold gray at hsorted ⊢
  rw [hwork, List.map_cons, List.pairwise_cons] at hsorted
  refine ⟨fun g hg => ?_, hsorted.1⟩
  rw [hwork, List.map_cons] at hg
  rcases List.mem_cons.mp hg with rfl | hg
  · exact le_rfl
  · exact (hsorted.1 g hg).le

theorem popTo_spec {node : V} {st : List V} (h : node ∈ st) :
    ∃ above, (popTo node st).1 = above ++ [node] ∧ st = above ++ node :: (popTo node st).2 := by
  induction st with
  | nil => exact absurd h List.not_mem_nil
  | cons m st ih =>
    unfold popTo
    by_cases hm : m = node
    · subst hm
      rw [if_pos rfl]
      exact ⟨[], rfl, rfl⟩
    · rw [if_neg hm]
      obtain ⟨above, hpop, hst⟩ := ih ((List.mem_cons.mp h).resolve_left (Ne.symm hm))
      refine ⟨m :: above, by simp [hpop], ?_⟩
      dsimp only
      rw [List.cons_append, ← hst]

/-- An examined edge stays examined when the owner of its start knows no less. -/
theorem EdgeOk.transfer {s' : Tarjan V} {x y : V} (h : s.EdgeOk x y)
    (hkeys : y ∈ s'.index.keys) (hstack : y ∈ s'.stack → y ∈ s.stack)
    (hidx : s'.idx y = s.idx y)
    (howner : ∀ g, s'.Owns g x →
      ∃ g₀, s.Owns g₀ x ∧ s'.lowOf g ≤ s.lowOf g₀ ∧ s'.idx g ≤ s.idx g₀) :
    s'.EdgeOk x y := by
  refine ⟨hkeys, fun hy g hg => ?_⟩
  obtain ⟨g₀, hg₀, hlow, hle⟩ := howner g hg
  rw [hidx]
  rcases h.known (hstack hy) g₀ hg₀ with hknown | hbelow
  · exact .inl (hlow.trans hknown)
  · exact .inr (hle.trans hbelow)

/-- The top frame owns its own node. -/
theorem Inv.owns_top (h : Inv succ s) {node : V} {rest : List V} {below : List (V × List V)}
    (hwork : s.work = (node, rest) :: below) {x : V} (hx : s.idx node ≤ s.idx x) :
    s.Owns node x := by
  refine ⟨?_, hx, fun g hg _ => (h.top_last hwork).1 g hg⟩
  unfold gray
  rw [hwork]
  exact List.mem_cons_self

/-- A node entered after the top frame has no other owner. -/
theorem Inv.eq_top_of_owns (h : Inv succ s) {node : V} {rest : List V}
    {below : List (V × List V)} (hwork : s.work = (node, rest) :: below) {g x : V}
    (hx : s.idx node ≤ s.idx x) (hg : s.Owns g x) : g = node := by
  have hnode := h.owns_top hwork hx
  refine h.idx_inj (h.gray_stack g hg.open_) (h.gray_stack node hnode.open_) ?_
  exact le_antisymm (hnode.last g hg.open_ hg.before) (hg.last node hnode.open_ hx)

end Facts

/-! ## Entering a node -/

section Enter

variable {succ : V → List V} {s : Tarjan V} {v : V} {frames : List (V × List V)}

theorem idx_enter (x : V) :
    (enter succ { s with work := frames } v).idx x =
      if x = v then s.index.entries.length else s.idx x := by
  unfold idx enter
  dsimp only
  rw [Dict.get?_set]
  split <;> rfl

theorem lowOf_enter (x : V) :
    (enter succ { s with work := frames } v).lowOf x =
      if x = v then s.index.entries.length else s.lowOf x := by
  unfold lowOf enter
  dsimp only
  rw [Dict.get?_set]
  split <;> rfl

theorem mem_keys_enter {x : V} :
    x ∈ (enter succ { s with work := frames } v).index.keys ↔ x ∈ s.index.keys ∨ x = v :=
  Dict.mem_keys_set

theorem idx_enter_self :
    (enter succ { s with work := frames } v).idx v = s.index.entries.length := by
  rw [idx_enter, if_pos rfl]

theorem lowOf_enter_self :
    (enter succ { s with work := frames } v).lowOf v = s.index.entries.length := by
  rw [lowOf_enter, if_pos rfl]

/-- A visited node keeps its index and its `low`. -/
theorem idx_enter_of_mem (hv : v ∉ s.index.keys) {x : V} (hx : x ∈ s.index.keys) :
    (enter succ { s with work := frames } v).idx x = s.idx x := by
  have hne : x ≠ v := fun heq => hv (heq ▸ hx)
  rw [idx_enter, if_neg hne]

theorem lowOf_enter_of_mem (hv : v ∉ s.index.keys) {x : V} (hx : x ∈ s.index.keys) :
    (enter succ { s with work := frames } v).lowOf x = s.lowOf x := by
  have hne : x ≠ v := fun heq => hv (heq ▸ hx)
  rw [lowOf_enter, if_neg hne]

/-- The new node has the greatest index. -/
theorem Inv.idx_enter_lt (h : Inv succ s) (hv : v ∉ s.index.keys) {x : V}
    (hx : x ∈ s.index.keys) :
    (enter succ { s with work := frames } v).idx x <
      (enter succ { s with work := frames } v).idx v := by
  rw [idx_enter_of_mem hv hx, idx_enter_self]
  exact h.bound x hx

theorem gray_enter (hframes : frames.map Prod.fst = s.gray) :
    (enter succ { s with work := frames } v).gray = v :: s.gray := by
  rw [← hframes]
  rfl

theorem Inv.mem_keys_of_gray (h : Inv succ s) {g : V} (hg : g ∈ s.gray) : g ∈ s.index.keys :=
  h.mem_keys_of_stack (h.gray_stack g hg)

/-- The owner of a visited node stays its owner. -/
theorem Inv.owns_of_owns_enter (h : Inv succ s) (hv : v ∉ s.index.keys)
    (hframes : frames.map Prod.fst = s.gray) {g x : V} (hx : x ∈ s.index.keys)
    (hg : (Tarjan.enter succ { s with work := frames } v).Owns g x) : s.Owns g x := by
  have hgray : (Tarjan.enter succ { s with work := frames } v).gray = v :: s.gray :=
    gray_enter hframes
  have hgv : g ≠ v := by
    rintro rfl
    exact absurd hg.before (not_le.mpr (h.idx_enter_lt hv hx))
  have hg' : g ∈ s.gray := (List.mem_cons.mp (hgray ▸ hg.open_)).resolve_left hgv
  refine ⟨hg', ?_, fun k hk hkx => ?_⟩
  · have hbefore := hg.before
    rwa [idx_enter_of_mem hv (h.mem_keys_of_gray hg'), idx_enter_of_mem hv hx] at hbefore
  · have hlast := hg.last k (hgray ▸ List.mem_cons_of_mem v hk)
    rw [idx_enter_of_mem hv (h.mem_keys_of_gray hk), idx_enter_of_mem hv hx,
      idx_enter_of_mem hv (h.mem_keys_of_gray hg')] at hlast
    exact hlast hkx

/-- An edge that was examined before stays examined. -/
theorem Inv.edgeOk_enter (h : Inv succ s) (hv : v ∉ s.index.keys)
    (hframes : frames.map Prod.fst = s.gray) {x y : V} (hx : x ∈ s.index.keys)
    (hxy : s.EdgeOk x y) : (Tarjan.enter succ { s with work := frames } v).EdgeOk x y := by
  refine hxy.transfer (mem_keys_enter.mpr (.inl hxy.visited)) ?_
    (idx_enter_of_mem hv hxy.visited) ?_
  · intro hy
    exact (List.mem_cons.mp hy).resolve_left fun heq => hv (heq ▸ hxy.visited)
  · intro g hg
    have howns := h.owns_of_owns_enter hv hframes hx hg
    have hkey := h.mem_keys_of_gray howns.open_
    exact ⟨g, howns, (lowOf_enter_of_mem hv hkey).le, (idx_enter_of_mem hv hkey).le⟩

/-- An edge to the new node is below the frame it starts in. -/
theorem Inv.edgeOk_enter_self (h : Inv succ s) (hv : v ∉ s.index.keys)
    (hframes : frames.map Prod.fst = s.gray) (x : V) :
    (Tarjan.enter succ { s with work := frames } v).EdgeOk x v := by
  refine ⟨mem_keys_enter.mpr (.inr rfl), fun _ g hg => .inr ?_⟩
  have hopen := hg.open_
  rw [gray_enter hframes] at hopen
  rcases List.mem_cons.mp hopen with rfl | hg'
  · exact le_rfl
  · exact (h.idx_enter_lt hv (h.mem_keys_of_gray hg')).le

/-- A new node is owned by its own frame, and no other node changes its owner.
The frames may have stepped over an edge to the new node. -/
theorem Inv.enter (h : Inv succ s) (hv : v ∉ s.index.keys)
    (hframes : frames.map Prod.fst = s.gray)
    (hdone : ∀ x rest, (x, rest) ∈ frames →
      ∃ done, succ x = done ++ rest ∧ ∀ y ∈ done, s.EdgeOk x y ∨ y = v) :
    Inv succ (enter succ { s with work := frames } v) where
  indexed := by
    intro x
    rw [mem_keys_enter, h.indexed]
    show _ ↔ x ∈ v :: s.stack ∨ ∃ scc ∈ s.out, x ∈ scc
    rw [List.mem_cons, or_right_comm, @or_comm (x = v)]
  bound := by
    intro x hx
    have hlen : (Tarjan.enter succ { s with work := frames } v).index.entries.length =
        s.index.entries.length + 1 := Dict.length_set hv
    rw [hlen]
    rcases mem_keys_enter.mp hx with hx | rfl
    · rw [idx_enter_of_mem hv hx]
      exact Nat.lt_succ_of_lt (h.bound x hx)
    · rw [idx_enter_self]
      exact Nat.lt_succ_self _
  sorted := by
    show (v :: s.stack).Pairwise _
    refine List.pairwise_cons.mpr ⟨fun x hx => h.idx_enter_lt hv (h.mem_keys_of_stack hx), ?_⟩
    refine h.sorted.imp_of_mem fun {a b} ha hb hab => ?_
    rwa [idx_enter_of_mem hv (h.mem_keys_of_stack ha),
      idx_enter_of_mem hv (h.mem_keys_of_stack hb)]
  onStack := by
    intro x
    show x ∈ v :: s.onStack ↔ x ∈ v :: s.stack
    rw [List.mem_cons, List.mem_cons, h.onStack]
  gray_sorted := by
    rw [gray_enter hframes]
    refine List.pairwise_cons.mpr ⟨fun x hx => h.idx_enter_lt hv (h.mem_keys_of_gray hx), ?_⟩
    refine h.gray_sorted.imp_of_mem fun {a b} ha hb hab => ?_
    rwa [idx_enter_of_mem hv (h.mem_keys_of_gray ha), idx_enter_of_mem hv (h.mem_keys_of_gray hb)]
  gray_stack := by
    intro g hg
    show g ∈ v :: s.stack
    rw [gray_enter hframes] at hg
    rcases List.mem_cons.mp hg with rfl | hg
    · exact List.mem_cons_self
    · exact List.mem_cons_of_mem _ (h.gray_stack g hg)
  owned := by
    intro x hx
    rw [gray_enter hframes]
    rcases List.mem_cons.mp (show x ∈ v :: s.stack from hx) with rfl | hx
    · exact ⟨x, List.mem_cons_self, le_rfl⟩
    · obtain ⟨g, hg, hle⟩ := h.owned x hx
      refine ⟨g, List.mem_cons_of_mem _ hg, ?_⟩
      rwa [idx_enter_of_mem hv (h.mem_keys_of_gray hg),
        idx_enter_of_mem hv (h.mem_keys_of_stack hx)]
  low_le := by
    intro g hg
    rw [gray_enter hframes] at hg
    rcases List.mem_cons.mp hg with rfl | hg
    · rw [lowOf_enter_self, idx_enter_self]
    · have hkey := h.mem_keys_of_gray hg
      rw [lowOf_enter_of_mem hv hkey, idx_enter_of_mem hv hkey]
      exact h.low_le g hg
  low_on := by
    intro g hg
    show ∃ x ∈ v :: s.stack, _
    rw [gray_enter hframes] at hg
    rcases List.mem_cons.mp hg with rfl | hg
    · exact ⟨g, List.mem_cons_self, by rw [lowOf_enter_self, idx_enter_self]⟩
    · obtain ⟨x, hx, heq⟩ := h.low_on g hg
      refine ⟨x, List.mem_cons_of_mem _ hx, ?_⟩
      rw [lowOf_enter_of_mem hv (h.mem_keys_of_gray hg),
        idx_enter_of_mem hv (h.mem_keys_of_stack hx), heq]
  examined := by
    intro x rest hx
    rcases List.mem_cons.mp (show (x, rest) ∈ (v, succ v) :: frames from hx) with heq | hx
    · obtain ⟨rfl, rfl⟩ := Prod.mk.inj heq
      exact ⟨[], rfl, by simp⟩
    · have hkey : x ∈ s.index.keys :=
        h.mem_keys_of_gray (hframes ▸ List.mem_map.mpr ⟨_, hx, rfl⟩)
      obtain ⟨done, hsucc, hedges⟩ := hdone x rest hx
      refine ⟨done, hsucc, fun y hy => ?_⟩
      rcases hedges y hy with hok | rfl
      · exact h.edgeOk_enter hv hframes hkey hok
      · exact h.edgeOk_enter_self hv hframes x
  finished := by
    intro x hx hng y hy
    rw [gray_enter hframes, List.mem_cons, not_or] at hng
    have hx' : x ∈ s.stack := (List.mem_cons.mp (show x ∈ v :: s.stack from hx)).resolve_left hng.1
    exact h.edgeOk_enter hv hframes (h.mem_keys_of_stack hx') (h.finished x hx' hng.2 y hy)
  closed := h.closed

end Enter

/-! ## Stepping over an edge -/

section Advance

variable {succ : V → List V} {s : Tarjan V} {node child : V} {rest : List V}
  {below : List (V × List V)}

/-- The top frame steps over an edge to a visited node, and its `low` is lowered
as far as that node says. -/
theorem Inv.advance (h : Inv succ s) (hwork : s.work = (node, child :: rest) :: below)
    (hchild : child ∈ s.index.keys) {low : Dict V Nat}
    (hle : ∀ x, (low.get? x).getD 0 ≤ s.lowOf x)
    (hknown : child ∈ s.stack → (low.get? node).getD 0 ≤ s.idx child)
    (hon : ∀ g ∈ s.gray, ∃ x ∈ s.stack, (low.get? g).getD 0 = s.idx x) :
    Inv succ { s with low := low, work := (node, rest) :: below } := by
  set s' : Tarjan V := { s with low := low, work := (node, rest) :: below } with hs'
  have hgray : s'.gray = s.gray := by
    show ((node, rest) :: below).map Prod.fst = s.work.map Prod.fst
    rw [hwork]
    rfl
  have howns : ∀ g x, s'.Owns g x → s.Owns g x := by
    rintro g x ⟨hopen, hbefore, hlast⟩
    rw [hgray] at hopen hlast
    exact ⟨hopen, hbefore, hlast⟩
  have hold : ∀ x y, s.EdgeOk x y → s'.EdgeOk x y := fun x y hxy =>
    hxy.transfer hxy.visited id rfl fun g hg => ⟨g, howns g x hg, hle g, le_rfl⟩
  have hnew : s'.EdgeOk node child := by
    refine ⟨hchild, fun hy g hg => .inl ?_⟩
    rw [h.eq_top_of_owns hwork le_rfl (howns g node hg)]
    exact hknown hy
  refine ⟨h.indexed, h.bound, h.sorted, h.onStack, ?_, ?_, ?_, ?_, ?_, ?_, ?_, h.closed⟩
  · rw [hgray]
    exact h.gray_sorted
  · rw [hgray]
    exact h.gray_stack
  · rw [hgray]
    exact h.owned
  · rw [hgray]
    exact fun g hg => (hle g).trans (h.low_le g hg)
  · rw [hgray]
    exact hon
  · intro x rest' hx
    rcases List.mem_cons.mp (show (x, rest') ∈ (node, rest) :: below from hx) with heq | hx
    · obtain ⟨rfl, rfl⟩ := Prod.mk.inj heq
      obtain ⟨done, hsucc, hedges⟩ := h.examined x (child :: rest') (hwork ▸ List.mem_cons_self)
      refine ⟨done ++ [child], by rw [hsucc, List.append_assoc]; rfl, fun y hy => ?_⟩
      rcases List.mem_append.mp hy with hy | hy
      · exact hold x y (hedges y hy)
      · rw [List.mem_singleton.mp hy]
        exact hnew
    · obtain ⟨done, hsucc, hedges⟩ := h.examined x rest' (hwork ▸ List.mem_cons_of_mem _ hx)
      exact ⟨done, hsucc, fun y hy => hold x y (hedges y hy)⟩
  · intro x hx hng y hy
    rw [hgray] at hng
    exact hold x y (h.finished x hx hng y hy)

end Advance

/-! ## Closing a frame -/

section Close

variable {succ : V → List V} {s : Tarjan V} {node : V} {below : List (V × List V)}

/-- Every edge of a finished top node was examined. -/
theorem Inv.top_finished (h : Inv succ s) (hwork : s.work = (node, []) :: below) :
    ∀ y ∈ succ node, s.EdgeOk node y := by
  obtain ⟨done, hsucc, hedges⟩ := h.examined node [] (hwork ▸ List.mem_cons_self)
  rw [List.append_nil] at hsucc
  rw [hsucc]
  exact hedges

omit [DecidableEq V] in
theorem gray_of_work {rest : List V} (hwork : s.work = (node, rest) :: below) :
    s.gray = node :: below.map Prod.fst := by
  unfold gray
  rw [hwork]
  rfl

/-- A node that stays on the stack leaves a frame below it, entered no later
than what `low` of the node points at. -/
theorem Inv.exists_below (h : Inv succ s) (hwork : s.work = (node, []) :: below)
    (hlow : s.lowOf node ≠ s.idx node) : ∃ p r rest, below = (p, r) :: rest := by
  have hnode : node ∈ s.gray := gray_of_work hwork ▸ List.mem_cons_self
  obtain ⟨x, hx, heq⟩ := h.low_on node hnode
  obtain ⟨g, hg, hle⟩ := h.owned x hx
  have hlt : s.idx g < s.idx node := by
    have := h.low_le node hnode
    omega
  cases below with
  | nil =>
    rw [gray_of_work hwork] at hg
    rw [List.mem_singleton.mp hg] at hlt
    exact absurd hlt (lt_irrefl _)
  | cons frame rest => exact ⟨frame.1, frame.2, rest, rfl⟩

theorem lowOf_close {p : V} {r : List V} {rest : List (V × List V)} (g : V) :
    (s.close node ((p, r) :: rest)).lowOf g =
      if g = p then min (s.lowOf p) (s.lowOf node) else s.lowOf g := by
  show ((s.low.set p (min (s.lowOf p) (s.lowOf node))).get? g).getD 0 = _
  rw [Dict.get?_set]
  split <;> rfl

theorem lowOf_close_le {p : V} {r : List V} {rest : List (V × List V)} (g : V) :
    (s.close node ((p, r) :: rest)).lowOf g ≤ s.lowOf g := by
  rw [lowOf_close]
  split
  · rename_i hg
    rw [hg]
    exact min_le_left _ _
  · exact le_rfl

/-- What the closed frame owned goes to the frame below, which knows as much. -/
theorem Inv.edgeOk_close (h : Inv succ s) {p : V} {r : List V} {rest : List (V × List V)}
    (hwork : s.work = (node, []) :: (p, r) :: rest) {x y : V} (hxy : s.EdgeOk x y) :
    (s.close node ((p, r) :: rest)).EdgeOk x y := by
  set s' := s.close node ((p, r) :: rest) with hs'
  have hgray : s.gray = node :: s'.gray := gray_of_work hwork
  have hmem : ∀ g ∈ s'.gray, g ∈ s.gray := fun g hg => hgray ▸ List.mem_cons_of_mem _ hg
  have hbelow : ∀ g ∈ s'.gray, s.idx g < s.idx node := (h.top_last hwork).2
  have hp : p ∈ s'.gray := List.mem_cons_self
  refine hxy.transfer hxy.visited id rfl fun g hg => ?_
  by_cases hx : s.idx node ≤ s.idx x
  · -- owned by the closed node before, by the frame below it now
    have hptop : ∀ g ∈ s'.gray, s.idx g ≤ s.idx p := by
      have hsorted := h.gray_sorted
      rw [hgray, List.pairwise_cons] at hsorted
      intro g hg
      rcases List.mem_cons.mp (show g ∈ p :: rest.map Prod.fst from hg) with rfl | hg
      · exact le_rfl
      · exact ((List.pairwise_cons.mp hsorted.2).1 g hg).le
    have hgp : g = p := by
      refine h.idx_inj (h.gray_stack g (hmem g hg.open_)) (h.gray_stack p (hmem p hp)) ?_
      exact le_antisymm (hptop g hg.open_) (hg.last p hp ((hbelow p hp).le.trans hx))
    refine ⟨node, h.owns_top hwork hx, ?_, (hbelow g hg.open_).le⟩
    rw [hs', lowOf_close, if_pos hgp]
    exact min_le_right _ _
  · -- what was entered before the closed node keeps its owner
    refine ⟨g, ⟨hmem g hg.open_, hg.before, fun k hk hkx => ?_⟩, lowOf_close_le g, le_rfl⟩
    rcases List.mem_cons.mp (hgray ▸ hk) with rfl | hk
    · exact absurd hkx hx
    · exact hg.last k hk hkx

/-- The node is passed to the frame below, which learns its `low`. -/
theorem Inv.close (h : Inv succ s) (hwork : s.work = (node, []) :: below)
    (hlow : s.lowOf node ≠ s.idx node) : Inv succ (s.close node below) := by
  obtain ⟨p, r, rest, rfl⟩ := h.exists_below hwork hlow
  set s' := s.close node ((p, r) :: rest) with hs'
  have hgray : s.gray = node :: s'.gray := gray_of_work hwork
  have hmem : ∀ g ∈ s'.gray, g ∈ s.gray := fun g hg => hgray ▸ List.mem_cons_of_mem _ hg
  have hbelow : ∀ g ∈ s'.gray, s.idx g < s.idx node := (h.top_last hwork).2
  have hp : p ∈ s'.gray := List.mem_cons_self
  refine ⟨h.indexed, h.bound, h.sorted, h.onStack, ?_, ?_, ?_, ?_, ?_, ?_, ?_, h.closed⟩
  · have hsorted := h.gray_sorted
    rw [hgray] at hsorted
    exact (List.pairwise_cons.mp hsorted).2
  · exact fun g hg => h.gray_stack g (hmem g hg)
  · intro x hx
    obtain ⟨g, hg, hle⟩ := h.owned x hx
    rcases List.mem_cons.mp (hgray ▸ hg) with rfl | hg
    · exact ⟨p, hp, (hbelow p hp).le.trans hle⟩
    · exact ⟨g, hg, hle⟩
  · exact fun g hg => (lowOf_close_le g).trans (h.low_le g (hmem g hg))
  · intro g hg
    rw [hs', lowOf_close]
    split
    · rcases min_choice (s.lowOf p) (s.lowOf node) with hmin | hmin
      · rw [hmin]
        exact h.low_on p (hmem p hp)
      · rw [hmin]
        exact h.low_on node (hgray ▸ List.mem_cons_self)
    · exact h.low_on g (hmem g hg)
  · intro x rest' hx
    obtain ⟨done, hsucc, hedges⟩ := h.examined x rest' (hwork ▸ List.mem_cons_of_mem _ hx)
    exact ⟨done, hsucc, fun y hy => h.edgeOk_close hwork (hedges y hy)⟩
  · -- the closed node has become a finished one
    intro x hx hng y hy
    refine h.edgeOk_close hwork ?_
    by_cases hxn : x = node
    · subst hxn
      exact h.top_finished hwork y hy
    · refine h.finished x hx ?_ y hy
      rw [hgray, List.mem_cons, not_or]
      exact ⟨hxn, hng⟩

end Close

/-! ## Emitting a component -/

section Emit

variable {succ : V → List V} {s : Tarjan V} {node : V} {below : List (V × List V)}

/-- The component of the top node is what was entered since the node was; the
rest of the stack was entered before. -/
theorem Inv.popTo_idx (h : Inv succ s) (hnode : node ∈ s.stack) :
    (∀ x ∈ s.stack, x ∈ (popTo node s.stack).1 ∨ x ∈ (popTo node s.stack).2) ∧
      (∀ x ∈ (popTo node s.stack).1, x ∈ s.stack ∧ s.idx node ≤ s.idx x) ∧
      ∀ x ∈ (popTo node s.stack).2, x ∈ s.stack ∧ s.idx x < s.idx node := by
  obtain ⟨above, hpop, hst⟩ := popTo_spec hnode
  set left := (popTo node s.stack).2
  have hsorted := h.sorted
  rw [hst, List.pairwise_append, List.pairwise_cons] at hsorted
  rw [hpop]
  refine ⟨fun x hx => ?_, fun x hx => ?_, fun x hx => ?_⟩
  · rw [hst] at hx
    simp only [List.mem_append, List.mem_cons, List.not_mem_nil, or_false] at hx ⊢
    tauto
  · rcases List.mem_append.mp hx with hx | hx
    · refine ⟨hst ▸ List.mem_append_left _ hx, ?_⟩
      exact (hsorted.2.2 x hx node List.mem_cons_self).le
    · rw [List.mem_singleton.mp hx]
      exact ⟨hnode, le_rfl⟩
  · refine ⟨hst ▸ List.mem_append_right _ (List.mem_cons_of_mem _ hx), hsorted.2.1.1 x hx⟩

/-- A root has nothing to tell the frame below. -/
theorem Inv.lowOf_passLow (h : Inv succ s) (hwork : s.work = (node, []) :: below)
    (hlow : s.lowOf node = s.idx node) (x : V) :
    ((s.passLow node below).get? x).getD 0 = s.lowOf x := by
  cases below with
  | nil => rfl
  | cons frame rest =>
    have hp : frame.1 ∈ s.gray := gray_of_work hwork ▸ List.mem_cons_of_mem _ List.mem_cons_self
    have hlt : s.idx frame.1 < s.idx node := (h.top_last hwork).2 frame.1 List.mem_cons_self
    have hmin : min (s.lowOf frame.1) (s.lowOf node) = s.lowOf frame.1 := by
      have := h.low_le frame.1 hp
      omega
    unfold passLow
    dsimp only
    rw [Dict.get?_set, hmin]
    split
    · rename_i hx
      rw [hx]
      rfl
    · rfl

/-- What is popped is closed: it is owned by the node, and no edge of it leads
below the node. -/
theorem Inv.popped_closed (h : Inv succ s) (hwork : s.work = (node, []) :: below)
    (hlow : s.lowOf node = s.idx node) :
    ∀ x ∈ (popTo node s.stack).1, ∀ y ∈ succ x,
      y ∈ (popTo node s.stack).1 ∨ ∃ c ∈ s.out, y ∈ c := by
  have hnode : node ∈ s.gray := gray_of_work hwork ▸ List.mem_cons_self
  obtain ⟨hsplit, hpopped, hleft⟩ := h.popTo_idx (h.gray_stack node hnode)
  intro x hx y hy
  obtain ⟨hxs, hle⟩ := hpopped x hx
  have hok : s.EdgeOk x y := by
    by_cases hxn : x = node
    · subst hxn
      exact h.top_finished hwork y hy
    · refine h.finished x hxs (fun hg => hxn ?_) y hy
      exact h.idx_inj hxs (h.gray_stack node hnode) (le_antisymm ((h.top_last hwork).1 x hg) hle)
  rcases (h.indexed y).mp hok.visited with hys | hout
  · -- the edge is known to the root, and the root has nothing below itself
    have hidx : s.idx node ≤ s.idx y := by
      rcases hok.known hys node (h.owns_top hwork hle) with hknown | hbelow
      · rwa [hlow] at hknown
      · exact hbelow
    exact .inl ((hsplit y hys).resolve_right fun hy' => absurd (hleft y hy').2 (by omega))
  · exact .inr hout

/-- What was entered before a root stays on the stack. -/
theorem Inv.stays_emitScc (h : Inv succ s) (hnode : node ∈ s.stack) {x : V} (hx : x ∈ s.stack)
    (hlt : s.idx x < s.idx node) : x ∈ (s.emitScc node below).stack := by
  obtain ⟨hsplit, hpopped, _⟩ := h.popTo_idx hnode
  exact (hsplit x hx).resolve_left fun hx' => absurd (hpopped x hx').2 (not_le.mpr hlt)

/-- An edge from a node that stays was examined, and stays so. -/
theorem Inv.edgeOk_emitScc (h : Inv succ s) (hwork : s.work = (node, []) :: below)
    (hlow : s.lowOf node = s.idx node) {x y : V} (hx : s.idx x < s.idx node)
    (hxy : s.EdgeOk x y) : (s.emitScc node below).EdgeOk x y := by
  have hgray : s.gray = node :: (s.emitScc node below).gray := gray_of_work hwork
  have hnode : node ∈ s.gray := hgray ▸ List.mem_cons_self
  obtain ⟨_, _, hleft⟩ := h.popTo_idx (h.gray_stack node hnode)
  refine hxy.transfer hxy.visited (fun hy => (hleft y hy).1) rfl fun g hg => ?_
  refine ⟨g, ⟨hgray ▸ List.mem_cons_of_mem _ hg.open_, hg.before, fun k hk hkx => ?_⟩,
    (h.lowOf_passLow hwork hlow g).le, le_rfl⟩
  rcases List.mem_cons.mp (hgray ▸ hk) with rfl | hk
  · exact absurd hkx (not_le.mpr hx)
  · exact hg.last k hk hkx

/-- The nodes above a root are popped with it. -/
theorem Inv.emitScc (h : Inv succ s) (hwork : s.work = (node, []) :: below)
    (hlow : s.lowOf node = s.idx node) : Inv succ (s.emitScc node below) := by
  set s' := s.emitScc node below with hs'
  have hgray : s.gray = node :: s'.gray := gray_of_work hwork
  have hnode : node ∈ s.gray := hgray ▸ List.mem_cons_self
  have hmem : ∀ g ∈ s'.gray, g ∈ s.gray := fun g hg => hgray ▸ List.mem_cons_of_mem _ hg
  have hbelow : ∀ g ∈ s'.gray, s.idx g < s.idx node := (h.top_last hwork).2
  obtain ⟨hsplit, hpopped, hleft⟩ := h.popTo_idx (h.gray_stack node hnode)
  have hlows : ∀ x, s'.lowOf x = s.lowOf x := h.lowOf_passLow hwork hlow
  refine ⟨?_, h.bound, ?_, ?_, ?_, ?_, ?_, ?_, ?_, ?_, ?_, ?_⟩
  · intro x
    refine (h.indexed x).trans ?_
    show _ ↔ x ∈ (popTo node s.stack).2 ∨ ∃ scc ∈ s.out ++ [(popTo node s.stack).1], x ∈ scc
    simp only [List.mem_append, List.mem_singleton, or_and_right, exists_or, exists_eq_left]
    constructor
    · rintro (hx | hx)
      · exact (hsplit x hx).elim (fun hx => .inr (.inr hx)) .inl
      · exact .inr (.inl hx)
    · rintro (hx | hx | hx)
      · exact .inl (hleft x hx).1
      · exact .inr hx
      · exact .inl (hpopped x hx).1
  · obtain ⟨above, _, hst⟩ := popTo_spec (h.gray_stack node hnode)
    have hsorted := h.sorted
    rw [hst, List.pairwise_append, List.pairwise_cons] at hsorted
    exact hsorted.2.1.2
  · intro x
    show x ∈ s.onStack.filter _ ↔ x ∈ (popTo node s.stack).2
    rw [List.mem_filter, h.onStack, decide_eq_true_eq]
    constructor
    · rintro ⟨hx, hnot⟩
      exact (hsplit x hx).resolve_left hnot
    · intro hx
      exact ⟨(hleft x hx).1, fun hx' => absurd (hpopped x hx').2 (not_le.mpr (hleft x hx).2)⟩
  · have hsorted := h.gray_sorted
    rw [hgray] at hsorted
    exact (List.pairwise_cons.mp hsorted).2
  · intro g hg
    exact h.stays_emitScc (h.gray_stack node hnode) (h.gray_stack g (hmem g hg)) (hbelow g hg)
  · intro x hx
    obtain ⟨g, hg, hle⟩ := h.owned x (hleft x hx).1
    refine ⟨g, (List.mem_cons.mp (hgray ▸ hg)).resolve_left ?_, hle⟩
    rintro rfl
    exact absurd hle (not_le.mpr (hleft x hx).2)
  · intro g hg
    rw [hlows]
    exact h.low_le g (hmem g hg)
  · intro g hg
    obtain ⟨x, hx, heq⟩ := h.low_on g (hmem g hg)
    have hle := h.low_le g (hmem g hg)
    have hlt := hbelow g hg
    refine ⟨x, h.stays_emitScc (h.gray_stack node hnode) hx (by omega), ?_⟩
    rw [hlows]
    exact heq
  · intro x rest hx
    obtain ⟨done, hsucc, hedges⟩ := h.examined x rest (hwork ▸ List.mem_cons_of_mem _ hx)
    have hxg : x ∈ s'.gray := List.mem_map.mpr ⟨_, hx, rfl⟩
    exact ⟨done, hsucc, fun y hy => h.edgeOk_emitScc hwork hlow (hbelow x hxg) (hedges y hy)⟩
  · intro x hx hng y hy
    refine h.edgeOk_emitScc hwork hlow (hleft x hx).2 (h.finished x (hleft x hx).1 ?_ y hy)
    rw [hgray, List.mem_cons, not_or]
    refine ⟨?_, hng⟩
    rintro rfl
    exact absurd (hleft x hx).2 (lt_irrefl _)
  · exact h.closed.snoc (h.popped_closed hwork hlow)

end Emit

/-! ## Runs -/

section Run

variable {succ : V → List V} {s s' : Tarjan V}

theorem Inv.init : Inv succ (init : Tarjan V) := by
  refine ⟨?_, ?_, .nil, ?_, .nil, ?_, ?_, ?_, ?_, ?_, ?_, .nil⟩ <;>
    simp [Tarjan.init, Dict.keys, Dict.empty, gray]

theorem mem_keys_iff {child : V} : child ∈ s.index.keys ↔ s.index.get? child ≠ none := by
  rw [Ne, Dict.get?_eq_none_iff, not_not]

/-- Entering a successor of the top node. -/
theorem Inv.enter_child (h : Inv succ s) {node child : V} {rest : List V}
    {below : List (V × List V)} (hwork : s.work = (node, child :: rest) :: below)
    (hnew : child ∉ s.index.keys) :
    Inv succ (Tarjan.enter succ { s with work := (node, rest) :: below } child) := by
  refine h.enter hnew (by rw [gray_of_work hwork]; rfl) fun x rest' hx => ?_
  rcases List.mem_cons.mp hx with heq | hx
  · obtain ⟨rfl, rfl⟩ := Prod.mk.inj heq
    obtain ⟨done, hsucc, hedges⟩ := h.examined x (child :: rest') (hwork ▸ List.mem_cons_self)
    refine ⟨done ++ [child], by rw [hsucc, List.append_assoc]; rfl, fun y hy => ?_⟩
    rcases List.mem_append.mp hy with hy | hy
    · exact .inl (hedges y hy)
    · exact .inr (List.mem_singleton.mp hy)
  · obtain ⟨done, hsucc, hedges⟩ := h.examined x rest' (hwork ▸ List.mem_cons_of_mem _ hx)
    exact ⟨done, hsucc, fun y hy => .inl (hedges y hy)⟩

/-- A successor on the stack lowers the top frame's `low`. -/
theorem Inv.lower (h : Inv succ s) {node child : V} {rest : List V} {below : List (V × List V)}
    (hwork : s.work = (node, child :: rest) :: below) (hstack : child ∈ s.stack) :
    Inv succ { s with
      low := s.low.set node (min (s.lowOf node) (s.idx child))
      work := (node, rest) :: below } := by
  have hget : ∀ x, ((s.low.set node (min (s.lowOf node) (s.idx child))).get? x).getD 0 =
      if x = node then min (s.lowOf node) (s.idx child) else s.lowOf x := by
    intro x
    rw [Dict.get?_set]
    split <;> rfl
  refine h.advance hwork (h.mem_keys_of_stack hstack) (fun x => ?_) (fun _ => ?_) fun g hg => ?_
  · rw [hget]
    split
    · rename_i hx
      rw [hx]
      exact min_le_left _ _
    · exact le_rfl
  · rw [hget, if_pos rfl]
    exact min_le_right _ _
  · rw [hget]
    split
    · rcases min_choice (s.lowOf node) (s.idx child) with hmin | hmin
      · rw [hmin]
        rename_i hgn
        exact hgn ▸ h.low_on g hg
      · exact ⟨child, hstack, hmin⟩
    · exact h.low_on g hg

/-- One step keeps the invariant. -/
theorem Inv.step (h : Inv succ s) : Inv succ (step succ s) := by
  unfold Tarjan.step
  split
  · exact h
  · rename_i node child rest below hwork
    split
    · rename_i hnew
      exact h.enter_child hwork (Dict.get?_eq_none_iff.mp hnew)
    · rename_i hold
      split
      · rename_i hon
        exact h.lower hwork ((h.onStack child).mp hon)
      · rename_i hoff
        refine h.advance hwork (mem_keys_iff.mpr hold) (fun _ => le_rfl) (fun hst => ?_) h.low_on
        exact absurd ((h.onStack child).mpr hst) hoff
  · rename_i node below hwork
    split
    · rename_i hlow
      exact h.emitScc hwork hlow
    · rename_i hlow
      exact h.close hwork hlow

/-- A step forgets no visited node. -/
theorem keys_step {x : V} (hx : x ∈ s.index.keys) : x ∈ (step succ s).index.keys := by
  unfold Tarjan.step
  split
  · exact hx
  · split
    · exact Dict.mem_keys_set.mpr (.inl hx)
    · split
      · exact hx
      · exact hx
  · split
    · exact hx
    · exact hx

/-- A run keeps the invariant, forgets no visited node and closes every frame. -/
theorem run_spec {fuel : Nat} (h : Inv succ s) (hrun : run succ fuel s = some s') :
    Inv succ s' ∧ s'.work = [] ∧ ∀ x ∈ s.index.keys, x ∈ s'.index.keys := by
  induction fuel generalizing s with
  | zero =>
    unfold run at hrun
    split at hrun
    · rename_i hwork
      cases hrun
      exact ⟨h, List.isEmpty_iff.mp hwork, fun _ hx => hx⟩
    · cases hrun
  | succ fuel ih =>
    unfold run at hrun
    split at hrun
    · rename_i hwork
      cases hrun
      exact ⟨h, List.isEmpty_iff.mp hwork, fun _ hx => hx⟩
    · obtain ⟨hinv, hwork, hkeys⟩ := ih h.step hrun
      exact ⟨hinv, hwork, fun x hx => hkeys x (keys_step hx)⟩

/-- Entering a root. -/
theorem Inv.enter_root (h : Inv succ s) (hwork : s.work = []) {v : V} (hv : v ∉ s.index.keys) :
    Inv succ (Tarjan.enter succ s v) := by
  have hdone : ∀ x rest, (x, rest) ∈ s.work →
      ∃ done, succ x = done ++ rest ∧ ∀ y ∈ done, s.EdgeOk x y ∨ y = v := by
    intro x rest hx
    rw [hwork] at hx
    exact absurd hx List.not_mem_nil
  exact h.enter hv rfl hdone

/-- After every root was visited, every root is indexed. -/
theorem visitAll_spec {fuel : Nat} {roots : List V} (h : Inv succ s) (hwork : s.work = [])
    (hvisit : visitAll succ fuel roots s = some s') :
    Inv succ s' ∧ s'.work = [] ∧ (∀ x ∈ s.index.keys, x ∈ s'.index.keys) ∧
      ∀ r ∈ roots, r ∈ s'.index.keys := by
  induction roots generalizing s with
  | nil =>
    cases hvisit
    exact ⟨h, hwork, fun _ hx => hx, by simp⟩
  | cons v rest ih =>
    unfold visitAll at hvisit
    split at hvisit
    · rename_i hnew
      obtain ⟨s₁, hrun, hrest⟩ := Option.bind_eq_some_iff.mp hvisit
      obtain ⟨h₁, hwork₁, hkeys₁⟩ :=
        run_spec (h.enter_root hwork (Dict.get?_eq_none_iff.mp hnew)) hrun
      obtain ⟨h₂, hwork₂, hkeys₂, hroots₂⟩ := ih h₁ hwork₁ hrest
      refine ⟨h₂, hwork₂, fun x hx => hkeys₂ x (hkeys₁ x (Dict.mem_keys_set.mpr (.inl hx))), ?_⟩
      intro r hr
      rcases List.mem_cons.mp hr with rfl | hr
      · exact hkeys₂ r (hkeys₁ r (Dict.mem_keys_set.mpr (.inr rfl)))
      · exact hroots₂ r hr
    · rename_i hold
      obtain ⟨h₂, hwork₂, hkeys₂, hroots₂⟩ := ih h hwork hvisit
      refine ⟨h₂, hwork₂, hkeys₂, fun r hr => ?_⟩
      rcases List.mem_cons.mp hr with rfl | hr
      · exact hkeys₂ r (mem_keys_iff.mpr hold)
      · exact hroots₂ r hr

/-- The components cover the roots, and every edge of one leads into it or into
an earlier one. -/
theorem sccs_spec {fuel : Nat} {roots : List V} {out : List (List V)}
    (h : sccs succ roots fuel = some out) :
    Closed succ out ∧ ∀ r ∈ roots, ∃ scc ∈ out, r ∈ scc := by
  obtain ⟨s, hvisit, rfl⟩ := Option.map_eq_some_iff.mp h
  obtain ⟨hinv, hwork, _, hroots⟩ := visitAll_spec Inv.init rfl hvisit
  refine ⟨hinv.closed, fun r hr => ?_⟩
  -- a node on the stack has an owner, and no frame is open
  refine ((hinv.indexed r).mp (hroots r hr)).resolve_left fun hst => ?_
  obtain ⟨g, hg, _⟩ := hinv.owned r hst
  unfold gray at hg
  rw [hwork] at hg
  exact absurd hg List.not_mem_nil

end Run

/-! ## Acyclic graphs -/

section Acyclic

variable {succ : V → List V}

omit [DecidableEq V] in
/-- Where every component is one point without a loop, every descent ends. -/
theorem Closed.acc {out : List (List V)} (h : Closed succ out)
    (hsingle : ∀ scc ∈ out, ∀ x ∈ scc, ∀ y ∈ scc, x = y ∧ x ∉ succ x) :
    ∀ scc ∈ out, ∀ x ∈ scc, Acc (fun b a => b ∈ succ a) x := by
  induction h with
  | nil => simp
  | @snoc out scc _ hedges ih =>
    have ih' := ih fun c hc => hsingle c (List.mem_append_left _ hc)
    intro c hc x hx
    rcases List.mem_append.mp hc with hc | hc
    · exact ih' c hc x hx
    · rw [List.mem_singleton.mp hc] at hx
      refine Acc.intro x fun y hy => ?_
      rcases hedges x hx y hy with hy' | ⟨c', hc', hy'⟩
      · obtain ⟨rfl, hloop⟩ := hsingle scc (by simp) x hx y hy'
        exact absurd hy hloop
      · exact ih' c' hc' y hy'

/-- A point whose descents all end does not lead back to itself. -/
theorem not_transGen_of_acc {α : Type*} {r : α → α → Prop} {a : α}
    (h : Acc (fun b a => r a b) a) : ¬ Relation.TransGen r a a := by
  induction h with
  | intro a _ ih =>
    intro hcycle
    obtain ⟨b, hab, hba⟩ := Relation.TransGen.head'_iff.mp hcycle
    exact ih b hab (.tail' hba hab)

/-- A graph whose components are single points without loops is acyclic. -/
theorem acyclic_of_sccs {fuel : Nat} {roots : List V} {out : List (List V)}
    (h : sccs succ roots fuel = some out) (hroots : ∀ a, succ a ≠ [] → a ∈ roots)
    (hsingle : ∀ scc ∈ out, ∀ x ∈ scc, ∀ y ∈ scc, x = y ∧ x ∉ succ x) :
    Acyclic fun a b => b ∈ succ a := by
  obtain ⟨hclosed, hcover⟩ := sccs_spec h
  intro a hcycle
  obtain ⟨b, hab, _⟩ := Relation.TransGen.head'_iff.mp hcycle
  obtain ⟨scc, hscc, ha⟩ := hcover a (hroots a (List.ne_nil_of_mem hab))
  exact not_transGen_of_acc (hclosed.acc hsingle scc hscc a ha) hcycle

end Acyclic

/-! ## Termination -/

section Fuel

variable {succ : V → List V} {s : Tarjan V}

/-- What is left to do: the open frames, and the nodes not yet visited. -/
def cost (succ : V → List V) (nodes : List V) (s : Tarjan V) : Nat :=
  (s.work.map fun frame => frame.2.length + 1).sum +
    ((nodes.filter fun v => v ∉ s.index.keys).map fun v => (succ v).length + 1).sum

/-- Entering a node pays for its frame. -/
theorem cost_enter (succ : V → List V) {nodes : List V} {v : V} (hv : v ∉ s.index.keys) (hnodes : v ∈ nodes) :
    cost succ nodes (enter succ s v) ≤ cost succ nodes s := by
  have hsum := sum_unmarked_le (fun v => (succ v).length + 1)
    (fun x => x ∉ s.index.keys)
    (fun x => x ∉ (s.index.set v s.index.entries.length).keys)
    (by simpa using hv) (by simp) nodes
  rw [if_pos hnodes] at hsum
  unfold cost enter
  dsimp only
  rw [List.map_cons, List.sum_cons]
  dsimp only
  omega

/-- A step with an open frame lowers the cost. -/
theorem cost_step {nodes : List V} (h : Inv succ s)
    (hnodes : ∀ x, ∀ y ∈ succ x, y ∈ nodes) (hwork : s.work ≠ []) :
    cost succ nodes (step succ s) < cost succ nodes s := by
  have hframe : ∀ node rest below, s.work = (node, rest) :: below →
      cost succ nodes s = rest.length + 1 + cost succ nodes { s with work := below } := by
    intro node rest below hw
    unfold cost
    rw [hw, List.map_cons, List.sum_cons]
    exact Nat.add_assoc _ _ _
  unfold Tarjan.step
  split
  · rename_i hnil
    exact absurd hnil hwork
  · rename_i node child rest below hw
    -- the frame is one shorter, whatever is done with the successor
    have hshort : cost succ nodes { s with work := (node, rest) :: below } < cost succ nodes s := by
      have hleft : cost succ nodes { s with work := (node, rest) :: below } =
          rest.length + 1 + cost succ nodes { s with work := below } := by
        unfold cost
        rw [List.map_cons, List.sum_cons]
        exact Nat.add_assoc _ _ _
      rw [hleft, hframe node (child :: rest) below hw, List.length_cons]
      omega
    split
    · rename_i hnew
      obtain ⟨done, hsucc, _⟩ := h.examined node (child :: rest) (hw ▸ List.mem_cons_self)
      have hchild : child ∈ succ node := hsucc ▸ List.mem_append_right _ List.mem_cons_self
      exact (cost_enter succ (s := { s with work := (node, rest) :: below })
        (Dict.get?_eq_none_iff.mp hnew) (hnodes node child hchild)).trans_lt hshort
    · split
      · exact hshort
      · exact hshort
  · rename_i node below hw
    have hclosed : cost succ nodes { s with work := below } < cost succ nodes s := by
      rw [hframe node [] below hw]
      omega
    split
    · exact hclosed
    · exact hclosed

/-- Steps enough for the cost close every frame. -/
theorem exists_run {nodes : List V} {fuel : Nat} (h : Inv succ s)
    (hnodes : ∀ x, ∀ y ∈ succ x, y ∈ nodes) (hfuel : cost succ nodes s ≤ fuel) :
    ∃ s', run succ fuel s = some s' ∧ cost succ nodes s' ≤ cost succ nodes s := by
  induction fuel generalizing s with
  | zero =>
    have hwork : s.work = [] := by
      by_contra hne
      exact absurd (cost_step h hnodes hne) (by omega)
    exact ⟨s, by unfold run; rw [hwork]; rfl, le_rfl⟩
  | succ fuel ih =>
    unfold run
    split
    · exact ⟨s, rfl, le_rfl⟩
    · rename_i hwork
      have hlt := cost_step h hnodes fun hnil => hwork (by rw [hnil]; rfl)
      obtain ⟨s', hrun, hle⟩ := ih h.step (by omega)
      exact ⟨s', hrun, by omega⟩

theorem exists_visitAll {nodes roots : List V} {fuel : Nat} (h : Inv succ s) (hwork : s.work = [])
    (hnodes : ∀ x, ∀ y ∈ succ x, y ∈ nodes) (hroots : ∀ r ∈ roots, r ∈ nodes)
    (hfuel : cost succ nodes s ≤ fuel) : ∃ s', visitAll succ fuel roots s = some s' := by
  induction roots generalizing s with
  | nil => exact ⟨s, rfl⟩
  | cons v rest ih =>
    have hrest : ∀ r ∈ rest, r ∈ nodes := fun r hr => hroots r (List.mem_cons_of_mem _ hr)
    unfold visitAll
    split
    · rename_i hnew
      have hv := Dict.get?_eq_none_iff.mp hnew
      have hroot := h.enter_root hwork hv
      have hcost := cost_enter succ hv (hroots v List.mem_cons_self)
      obtain ⟨s₁, hrun, hle⟩ := exists_run hroot hnodes (hcost.trans hfuel)
      obtain ⟨h₁, hwork₁, _⟩ := run_spec hroot hrun
      rw [hrun, Option.bind_some]
      exact ih h₁ hwork₁ hrest (by omega)
    · exact ih h hwork hrest hfuel

/-- A bound of one for each node and each edge is enough. -/
theorem exists_sccs (nodes : List V) {roots : List V} {fuel : Nat}
    (hnodes : ∀ x, ∀ y ∈ succ x, y ∈ nodes) (hroots : ∀ r ∈ roots, r ∈ nodes)
    (hfuel : (nodes.map fun v => (succ v).length + 1).sum ≤ fuel) :
    ∃ out, sccs succ roots fuel = some out := by
  have hcost : cost succ nodes init ≤ fuel := by
    have hall : nodes.filter (fun v => v ∉ (init : Tarjan V).index.keys) = nodes :=
      List.filter_eq_self.mpr fun v _ => by simp [Tarjan.init, Dict.keys, Dict.empty]
    unfold cost
    rw [hall]
    simpa [Tarjan.init] using hfuel
  obtain ⟨s, hs⟩ := exists_visitAll Inv.init rfl hnodes hroots hcost
  exact ⟨s.out, by unfold sccs; rw [hs]; rfl⟩

end Fuel

end Tarjan

end OpenstackBlueprint.Kit
