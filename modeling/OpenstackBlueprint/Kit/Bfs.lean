import OpenstackBlueprint.Kit.Dict
import OpenstackBlueprint.Kit.Reach

/-!
# The shortest way back, breadth first

A breadth-first search from a point for a closed walk through it. The search
keeps a queue and, for each point it has found, the point it was found from; the
start has no such entry. The first point of the queue with an edge to the start
ends the search, and the walk is read off the entries backwards.

* `Chain` counts the steps of a walk (`Kit.Reach`), `distance` is the fewest.
* `Tree`: an entry is a step, and it leads one further from the start.
* `Inv`: the queue is in order of distance, what was found is at most one step
  further than any point of the queue, and the points that left the queue have
  all their successors among the entries.

`search_shortest` is the result: within a bound the search returns a closed walk,
and no closed walk through the start is shorter.
-/

namespace OpenstackBlueprint.Kit

/-! ## Distance -/

section Distance

variable {α : Type*} {r : α → α → Prop}

theorem Chain.trans {m n : Nat} {a b c : α} (hab : Chain r m a b) (hbc : Chain r n b c) :
    Chain r (n + m) a c := by
  induction hab with
  | nil a => exact hbc
  | cons hstep _ ih => exact .cons hstep (ih hbc)

/-- A list that steps along `r` is a chain from its head to its last point. -/
theorem chain_of_isChain {a b : α} {walk : List α} (h : (a :: walk).IsChain r)
    (hlast : (a :: walk).getLast? = some b) : Chain r walk.length a b := by
  induction walk generalizing a with
  | nil =>
    cases hlast
    exact .nil a
  | cons c rest ih =>
    rw [List.isChain_cons_cons] at h
    rw [List.getLast?_cons_cons] at hlast
    exact .cons h.1 (ih h.2 hlast)

/-- A path of one step or more is a chain. -/
theorem exists_chain_of_transGen {a b : α} (h : Relation.TransGen r a b) :
    ∃ n, Chain r (n + 1) a b := by
  induction h with
  | single hab => exact ⟨0, .cons hab (.nil _)⟩
  | tail _ hbc ih =>
    obtain ⟨n, hn⟩ := ih
    exact ⟨n + 1, hn.snoc hbc⟩

/-- The fewest steps from `a` to `b`. -/
noncomputable def distance (r : α → α → Prop) (a b : α) : Nat := sInf {n | Chain r n a b}

theorem distance_le {n : Nat} {a b : α} (h : Chain r n a b) : distance r a b ≤ n := Nat.sInf_le h

theorem chain_distance {n : Nat} {a b : α} (h : Chain r n a b) : Chain r (distance r a b) a b :=
  Nat.sInf_mem (s := {n | Chain r n a b}) ⟨n, h⟩

@[simp] theorem distance_self (a : α) : distance r a a = 0 :=
  Nat.le_zero.mp (distance_le (.nil a))

/-- One step more is at most one further. -/
theorem distance_step {n : Nat} {a b c : α} (hab : Chain r n a b) (hbc : r b c) :
    distance r a c ≤ distance r a b + 1 :=
  distance_le ((chain_distance hab).snoc hbc)

/-- A walk from `a` back to `a`, of one step or more, as the list of its points. -/
structure ClosedWalk (r : α → α → Prop) (a : α) (walk : List α) : Prop where
  first : walk.head? = some a
  last : walk.getLast? = some a
  steps : 2 ≤ walk.length
  along : walk.IsChain r

theorem ClosedWalk.imp {r' : α → α → Prop} {a : α} {walk : List α} (h : ClosedWalk r a walk)
    (hr : ∀ x y, r x y → r' x y) : ClosedWalk r' a walk :=
  ⟨h.first, h.last, h.steps, h.along.imp hr⟩

/-- What holds of the start and of the end of every step holds along the walk. -/
theorem ClosedWalk.forall_mem {p : α → Prop} {a : α} {walk : List α} (h : ClosedWalk r a walk)
    (ha : p a) (hr : ∀ x y, r x y → p y) : ∀ b ∈ walk, p b := by
  refine List.IsChain.induction p walk h.along (fun _ y hxy _ => hr _ y hxy) fun hne => ?_
  have hfirst := h.first
  rw [List.head?_eq_some_head hne, Option.some.injEq] at hfirst
  rwa [hfirst]

/-- A closed walk turned to start at a point it goes through. -/
theorem ClosedWalk.chain_through {a b : α} {walk : List α} (h : ClosedWalk r a walk)
    (hb : b ∈ walk) : ∃ n, walk.length = n + 2 ∧ Chain r (n + 1) b b := by
  obtain ⟨before, after, rfl⟩ := List.append_of_mem hb
  have hsteps := h.steps
  rw [List.length_append, List.length_cons] at hsteps ⊢
  obtain ⟨hbefore, hafter⟩ := List.isChain_split.mp h.along
  have hout : Chain r after.length b a := by
    refine chain_of_isChain hafter ?_
    rw [← h.last, List.getLast?_append_cons]
  have hback : Chain r before.length a b := by
    cases before with
    | nil =>
      have hfirst := h.first
      rw [List.nil_append, List.head?_cons, Option.some.injEq] at hfirst
      exact hfirst ▸ .nil b
    | cons c rest =>
      have hfirst := h.first
      rw [List.cons_append, List.head?_cons, Option.some.injEq] at hfirst
      subst hfirst
      have hlast : (c :: (rest ++ [b])).getLast? = some b := by
        rw [← List.cons_append, List.getLast?_concat]
      have hrest : Chain r (rest ++ [b]).length c b := chain_of_isChain hbefore hlast
      rwa [List.length_append, List.length_singleton] at hrest
  have hround := hout.trans hback
  refine ⟨before.length + after.length - 1, by omega, ?_⟩
  rwa [show before.length + after.length - 1 + 1 = before.length + after.length by omega]

end Distance

/-! ## The search -/

/-- The variables of the search. -/
structure Bfs (V : Type) where
  prev : Dict V V
  queue : List V

namespace Bfs

/-- How the loop over the children of a node ends: at a child that is the start,
or after the last child. -/
inductive Scan (V : Type)
  | closes (prev : Dict V V)
  | goesOn (s : Bfs V)

variable {V : Type} [DecidableEq V]

/-- The loop over the children of `node`. -/
def scan (members : List V) (start node : V) : List V → Bfs V → Scan V
  | [], s => .goesOn s
  | child :: rest, s =>
    if child ∉ members then scan members start node rest s
    else if child = start then .closes s.prev
    else if child ∉ s.prev.keys then
      scan members start node rest ⟨s.prev.set child node, s.queue ++ [child]⟩
    else scan members start node rest s

/-- The entries followed from `node` to `start`, with a bound on their number;
`none` also where an entry is missing. -/
def climb (prev : Dict V V) (start : V) : Nat → V → Option (List V)
  | 0, _ => none
  | fuel + 1, node =>
    if node = start then some [node]
    else (prev.get? node).bind fun p => (climb prev start fuel p).map fun path => node :: path

/-- The loop over the queue, with a bound on its iterations. A queue that runs
empty gives `[start, start]`. -/
def search (succ : V → List V) (members : List V) (start : V) : Nat → Bfs V → Option (List V)
  | 0, _ => none
  | _ + 1, ⟨_, []⟩ => some [start, start]
  | fuel + 1, ⟨prev, node :: queue⟩ =>
    match scan members start node (succ node) ⟨prev, queue⟩ with
    | .closes prev =>
      (climb prev start (prev.keys.length + 1) node).map fun path => path.reverse ++ [start]
    | .goesOn s => search succ members start fuel s

/-- Nothing found but the start. -/
def init (start : V) : Bfs V := ⟨Dict.empty, [start]⟩

/-! ## The entries -/

theorem length_keys_set {prev : Dict V V} {v p : V} (h : v ∉ prev.keys) :
    (prev.set v p).keys.length = prev.keys.length + 1 := by
  unfold Dict.keys
  rw [List.length_map, List.length_map, Dict.length_set h]

/-- The start, or a point with an entry. -/
def Found (start : V) (prev : Dict V V) (v : V) : Prop := v = start ∨ v ∈ prev.keys

/-- An entry is a step that leads one further from the start. -/
structure Tree (r : V → V → Prop) (start : V) (prev : Dict V V) : Prop where
  parent : ∀ v p, prev.get? v = some p → v ≠ start ∧ r p v ∧ Found start prev p ∧
    distance r start v = distance r start p + 1
  shallow : ∀ v, Found start prev v → distance r start v ≤ prev.keys.length

section Entries

variable {r : V → V → Prop} {start : V} {prev : Dict V V}

theorem found_set_iff {child p v : V} :
    Found start (prev.set child p) v ↔ v = child ∨ Found start prev v := by
  unfold Found
  rw [Dict.mem_keys_set, ← or_assoc, or_comm]

/-- An entry for a new point that is one further than its parent. -/
theorem Tree.set (h : Tree r start prev) {node child : V} (hstep : r node child)
    (hstart : child ≠ start) (hkey : child ∉ prev.keys) (hnode : Found start prev node)
    (hdist : distance r start child = distance r start node + 1) :
    Tree r start (prev.set child node) where
  parent := fun v p hget => by
    rw [Dict.get?_set] at hget
    split at hget
    · next heq =>
      cases hget
      subst heq
      exact ⟨hstart, hstep, found_set_iff.mpr (.inr hnode), hdist⟩
    · obtain ⟨hne, hr, hp, hd⟩ := h.parent v p hget
      exact ⟨hne, hr, found_set_iff.mpr (.inr hp), hd⟩
  shallow := fun v hv => by
    rw [length_keys_set hkey]
    rcases found_set_iff.mp hv with rfl | hv
    · rw [hdist]
      exact Nat.succ_le_succ (h.shallow node hnode)
    · exact (h.shallow v hv).trans (Nat.le_succ _)

/-- The entry of a found point that is not the start. -/
theorem Tree.exists_parent (h : Tree r start prev) {v : V} (hv : v ∈ prev.keys) :
    ∃ p, prev.get? v = some p ∧ v ≠ start ∧ r p v ∧ Found start prev p ∧
      distance r start v = distance r start p + 1 := by
  cases hget : prev.get? v with
  | none => exact absurd hv (Dict.get?_eq_none_iff.mp hget)
  | some p => exact ⟨p, rfl, h.parent v p hget⟩

/-- Following the entries of a found point leads to the start in as many steps
as it is away. -/
theorem Tree.climb_eq (h : Tree r start prev) {fuel : Nat} {v : V} (hv : Found start prev v)
    (hfuel : distance r start v < fuel) :
    ∃ path, climb prev start fuel v = some (v :: path) ∧ path.length = distance r start v ∧
      (v :: path).getLast? = some start ∧ (v :: path).IsChain fun a b => r b a := by
  induction fuel generalizing v with
  | zero => exact absurd hfuel (Nat.not_lt_zero _)
  | succ fuel ih =>
    unfold climb
    by_cases hstart : v = start
    · subst hstart
      rw [if_pos rfl]
      exact ⟨[], rfl, (distance_self v).symm, rfl, .singleton v⟩
    · obtain ⟨p, hget, _, hstep, hp, hdist⟩ := h.exists_parent (hv.resolve_left hstart)
      obtain ⟨path, hclimb, hlen, hlast, halong⟩ := ih hp (by omega)
      rw [if_neg hstart, hget, Option.bind_some, hclimb]
      refine ⟨p :: path, rfl, ?_, ?_, List.isChain_cons_cons.mpr ⟨hstep, halong⟩⟩
      · rw [List.length_cons, hlen, hdist]
      · rw [List.getLast?_cons_cons, hlast]

/-- The climb read backwards, and the step to the start. -/
theorem Tree.closedWalk_climb (h : Tree r start prev) {node : V} (hnode : Found start prev node)
    (hback : r node start) :
    ∃ walk, (climb prev start (prev.keys.length + 1) node).map
        (fun path => path.reverse ++ [start]) = some walk ∧
      ClosedWalk r start walk ∧ walk.length = distance r start node + 2 := by
  obtain ⟨path, hclimb, hlen, hlast, halong⟩ :=
    h.climb_eq hnode (Nat.lt_succ_of_le (h.shallow node hnode))
  have hlength : ((node :: path).reverse ++ [start]).length = distance r start node + 2 := by
    rw [List.length_append, List.length_reverse, List.length_cons, List.length_singleton, hlen]
  refine ⟨(node :: path).reverse ++ [start], by rw [hclimb, Option.map_some], ?_, hlength⟩
  refine ⟨?_, List.getLast?_concat, by omega, ?_⟩
  · rw [List.head?_append, List.head?_reverse, hlast, Option.some_or]
  · rw [List.isChain_append]
    refine ⟨List.isChain_reverse.mpr halong, .singleton start, fun a ha b hb => ?_⟩
    rw [List.getLast?_reverse, List.head?_cons, Option.mem_some_iff] at ha
    rw [List.head?_cons, Option.mem_some_iff] at hb
    rw [← ha, ← hb]
    exact hback

/-- A found point is reached from the start. -/
theorem Tree.chain_of_found (h : Tree r start prev) {v : V} (hv : Found start prev v) :
    ∃ n, Chain r n start v := by
  generalize hd : distance r start v = d
  induction d generalizing v with
  | zero =>
    rcases hv with rfl | hv
    · exact ⟨0, .nil v⟩
    · obtain ⟨p, _, _, _, _, hdist⟩ := h.exists_parent hv
      omega
  | succ d ih =>
    rcases hv with rfl | hv
    · exact ⟨0, .nil v⟩
    · obtain ⟨p, _, _, hstep, hp, hdist⟩ := h.exists_parent hv
      obtain ⟨n, hn⟩ := ih hp (by omega)
      exact ⟨n + 1, hn.snoc hstep⟩

end Entries

/-! ## The invariant of the queue -/

/-- What holds between two iterations. -/
structure Inv (r : V → V → Prop) (start : V) (s : Bfs V) : Prop where
  tree : Tree r start s.prev
  queued : ∀ q ∈ s.queue, Found start s.prev q
  sorted : s.queue.Pairwise fun a b => distance r start a ≤ distance r start b
  near : ∀ v q, Found start s.prev v → q ∈ s.queue →
    distance r start v ≤ distance r start q + 1
  done : ∀ v w, Found start s.prev v → v ∉ s.queue → r v w → w ∈ s.prev.keys

section Queue

variable {r : V → V → Prop} {start : V}

theorem inv_init (r : V → V → Prop) (start : V) : Inv r start (init start) where
  tree :=
    { parent := fun v p h => by
        rw [init, Dict.get?_empty] at h
        cases h
      shallow := fun v hv => by
        rcases hv with rfl | hv
        · rw [distance_self]
          exact Nat.zero_le _
        · exact absurd hv List.not_mem_nil }
  queued := fun q hq => .inl (List.mem_singleton.mp hq)
  sorted := List.pairwise_singleton _ _
  near := fun v q hv hq => by
    rcases hv with rfl | hv
    · rw [distance_self]
      exact Nat.zero_le _
    · exact absurd hv List.not_mem_nil
  done := fun v w hv hq _ => by
    rcases hv with rfl | hv
    · exact absurd (List.mem_singleton.mpr rfl) hq
    · exact absurd hv List.not_mem_nil

/-- Whatever is no further from the start than the queue is found, and a walk
that long has not come back to the start. -/
theorem Inv.frontier {s : Bfs V} (h : Inv r start s) {n : Nat} {v : V} (hv : Chain r n start v)
    (hn : ∀ q ∈ s.queue, n ≤ distance r start q) :
    Found start s.prev v ∧ (0 < n → v ∈ s.prev.keys) := by
  induction n generalizing v with
  | zero =>
    cases hv
    exact ⟨.inl rfl, fun hpos => absurd hpos (lt_irrefl 0)⟩
  | succ n ih =>
    obtain ⟨u, hu, huv⟩ := hv.unsnoc
    have hfound := (ih hu fun q hq => (Nat.le_succ n).trans (hn q hq)).1
    -- `u` is nearer than everything in the queue, so it has left it
    have hleft : u ∉ s.queue := fun hmem => by
      have hle := distance_le hu
      have hge := hn u hmem
      omega
    have hkey := h.done u v hfound hleft huv
    exact ⟨.inr hkey, fun _ => hkey⟩

/-- The head of the queue is nearest. -/
theorem Inv.head_le {prev : Dict V V} {node : V} {queue : List V}
    (h : Inv r start ⟨prev, node :: queue⟩) {q : V} (hq : q ∈ node :: queue) :
    distance r start node ≤ distance r start q := by
  rcases List.mem_cons.mp hq with rfl | hq
  · exact le_rfl
  · exact (List.pairwise_cons.mp h.sorted).1 q hq

/-- A new child of the head is one further from the start than the head. -/
theorem Inv.distance_child {prev : Dict V V} {node : V} {queue : List V}
    (h : Inv r start ⟨prev, node :: queue⟩) {child : V} (hstep : r node child)
    (hnew : ¬ Found start prev child) :
    distance r start child = distance r start node + 1 := by
  obtain ⟨n, hn⟩ := h.tree.chain_of_found (h.queued node List.mem_cons_self)
  refine le_antisymm (distance_step hn hstep) (Nat.succ_le_of_lt (not_le.mp fun hle => ?_))
  exact hnew (h.frontier (chain_distance (hn.snoc hstep)) fun q hq => hle.trans (h.head_le hq)).1

/-- A new child of the head gets an entry and a place at the end of the queue. -/
theorem Inv.push {prev : Dict V V} {node : V} {queue : List V}
    (h : Inv r start ⟨prev, node :: queue⟩) {child : V} (hstep : r node child)
    (hstart : child ≠ start) (hkey : child ∉ prev.keys) :
    Inv r start ⟨prev.set child node, node :: (queue ++ [child])⟩ := by
  have hnew : ¬ Found start prev child := fun hf => hf.elim hstart hkey
  have hdist := h.distance_child hstep hnew
  have hnode : Found start prev node := h.queued node List.mem_cons_self
  have hqueue : ∀ {q}, q ∈ node :: (queue ++ [child]) ↔ q ∈ node :: queue ∨ q = child := by
    intro q
    rw [← List.cons_append, List.mem_append, List.mem_singleton]
  refine ⟨h.tree.set hstep hstart hkey hnode hdist, fun q hq => ?_, ?_, fun v q hv hq => ?_,
    fun v w hv hq hvw => ?_⟩
  · -- the queue holds found points
    rw [found_set_iff]
    exact (hqueue.mp hq).symm.imp_right (h.queued q)
  · -- the order of the queue
    rw [← List.cons_append, List.pairwise_append]
    refine ⟨h.sorted, List.pairwise_singleton _ _, fun q hq c hc => ?_⟩
    rw [List.mem_singleton.mp hc, hdist]
    exact h.near q node (h.queued q hq) List.mem_cons_self
  · -- nothing is far behind the queue
    rcases hqueue.mp hq with hold | rfl
    · rcases found_set_iff.mp hv with rfl | hv
      · rw [hdist]
        exact Nat.succ_le_succ (h.head_le hold)
      · exact h.near v q hv hold
    · rcases found_set_iff.mp hv with rfl | hv
      · exact Nat.le_succ _
      · have hnear := h.near v node hv List.mem_cons_self
        omega
  · -- the points that left the queue
    have hout : v ∉ node :: queue ∧ v ≠ child := not_or.mp fun hor => hq (hqueue.mpr hor)
    have hold := (found_set_iff.mp hv).resolve_left hout.2
    exact Dict.mem_keys_set.mpr (.inl (h.done v w hold hout.1 hvw))

/-- The head leaves the queue once its successors have entries. -/
theorem Inv.pop {prev : Dict V V} {node : V} {queue : List V}
    (h : Inv r start ⟨prev, node :: queue⟩) (hall : ∀ w, r node w → w ∈ prev.keys) :
    Inv r start ⟨prev, queue⟩ where
  tree := h.tree
  queued := fun q hq => h.queued q (List.mem_cons_of_mem node hq)
  sorted := (List.pairwise_cons.mp h.sorted).2
  near := fun v q hv hq => h.near v q hv (List.mem_cons_of_mem node hq)
  done := fun v w hv hq hvw => by
    by_cases heq : v = node
    · subst heq
      exact hall w hvw
    · exact h.done v w hv (fun hmem => (List.mem_cons.mp hmem).elim heq hq) hvw

end Queue

/-! ## The loops -/

section Loops

variable {succ : V → List V} {members : List V} {start : V}

/-- The steps the search follows. -/
def Step (succ : V → List V) (members : List V) (a b : V) : Prop := b ∈ succ a ∧ b ∈ members

/-- A child that is the start ends the loop over the children of the head. -/
theorem scan_closes {node : V} {children queue : List V} {prev prev' : Dict V V}
    (hinv : Inv (Step succ members) start ⟨prev, node :: queue⟩)
    (hchildren : ∀ c ∈ children, c ∈ succ node)
    (h : scan members start node children ⟨prev, queue⟩ = .closes prev') :
    Step succ members node start ∧ Tree (Step succ members) start prev' ∧
      Found start prev' node := by
  induction children generalizing prev queue with
  | nil => cases h
  | cons child rest ih =>
    have hrest : ∀ c ∈ rest, c ∈ succ node := fun c hc => hchildren c (List.mem_cons_of_mem _ hc)
    unfold scan at h
    split at h
    · exact ih hinv hrest h
    · next hmember =>
      have hstep : Step succ members node child :=
        ⟨hchildren child List.mem_cons_self, not_not.mp hmember⟩
      split at h
      · next heq =>
        cases h
        exact ⟨heq ▸ hstep, hinv.tree, hinv.queued node List.mem_cons_self⟩
      · next hstart =>
        split at h
        · next hkey => exact ih (hinv.push hstep hstart hkey) hrest h
        · exact ih hinv hrest h

/-- Without such a child every child inside has an entry, and each entry made has
its point in the queue. -/
theorem scan_goesOn {node : V} {children queue : List V} {prev : Dict V V} {s : Bfs V}
    (hinv : Inv (Step succ members) start ⟨prev, node :: queue⟩)
    (hchildren : ∀ c ∈ children, c ∈ succ node)
    (h : scan members start node children ⟨prev, queue⟩ = .goesOn s) :
    Inv (Step succ members) start ⟨s.prev, node :: s.queue⟩ ∧
      (∀ v ∈ prev.keys, v ∈ s.prev.keys) ∧ (∀ c ∈ children, c ∈ members → c ∈ s.prev.keys) ∧
      s.queue.length + prev.keys.length = queue.length + s.prev.keys.length := by
  induction children generalizing prev queue with
  | nil =>
    cases h
    exact ⟨hinv, fun _ hv => hv, fun c hc => absurd hc List.not_mem_nil, rfl⟩
  | cons child rest ih =>
    have hrest : ∀ c ∈ rest, c ∈ succ node := fun c hc => hchildren c (List.mem_cons_of_mem _ hc)
    unfold scan at h
    split at h
    · next hmember =>
      obtain ⟨hinv', hold, hall, hcount⟩ := ih hinv hrest h
      exact ⟨hinv', hold, List.forall_mem_cons.mpr ⟨fun hin => absurd hin hmember, hall⟩, hcount⟩
    · next hmember =>
      have hstep : Step succ members node child :=
        ⟨hchildren child List.mem_cons_self, not_not.mp hmember⟩
      split at h
      · cases h
      · next hstart =>
        split at h
        · next hkey =>
          change child ∉ prev.keys at hkey
          obtain ⟨hinv', hold, hall, hcount⟩ := ih (hinv.push hstep hstart hkey) hrest h
          rw [length_keys_set hkey, List.length_append, List.length_singleton] at hcount
          have hchild : child ∈ s.prev.keys := hold child (Dict.mem_keys_set.mpr (.inr rfl))
          refine ⟨hinv', fun v hv => hold v (Dict.mem_keys_set.mpr (.inl hv)),
            List.forall_mem_cons.mpr ⟨fun _ => hchild, hall⟩, by omega⟩
        · next hkey =>
          obtain ⟨hinv', hold, hall, hcount⟩ := ih hinv hrest h
          have hchild := hold child (not_not.mp hkey)
          exact ⟨hinv', hold, List.forall_mem_cons.mpr ⟨fun _ => hchild, hall⟩, hcount⟩

/-- A higher bound changes no answer. -/
theorem search_mono {fuel fuel' : Nat} {s : Bfs V} {walk : List V} (hle : fuel ≤ fuel')
    (h : search succ members start fuel s = some walk) :
    search succ members start fuel' s = some walk := by
  induction fuel generalizing fuel' s with
  | zero => cases h
  | succ fuel ih =>
    obtain ⟨bound, rfl⟩ : ∃ bound, fuel' = bound + 1 := ⟨fuel' - 1, by omega⟩
    obtain ⟨prev, queue⟩ := s
    cases queue with
    | nil => exact h
    | cons node queue =>
      unfold search at h ⊢
      cases hscan : scan members start node (succ node) ⟨prev, queue⟩ with
      | closes prev' => rwa [hscan] at h
      | goesOn s =>
        rw [hscan] at h
        exact ih (Nat.le_of_succ_le_succ hle) h

/-- There are no more entries than members. -/
theorem Inv.length_keys_le {s : Bfs V} (h : Inv (Step succ members) start s) :
    s.prev.keys.length ≤ members.length := by
  refine (s.prev.nodup.subperm fun v hv => ?_).length_le
  obtain ⟨p, _, _, hstep, _⟩ := h.tree.exists_parent hv
  exact hstep.2

/-- Where some closed walk goes through the start, the search returns one, within
a bound, and none is shorter. -/
theorem search_shortest {fuel n : Nat} {s : Bfs V} (hinv : Inv (Step succ members) start s)
    (hfuel : s.queue.length + (members.length - s.prev.keys.length) < fuel)
    (hclosed : Chain (Step succ members) (n + 1) start start) :
    ∃ walk, search succ members start fuel s = some walk ∧
      ClosedWalk (Step succ members) start walk ∧
      ∀ m, Chain (Step succ members) (m + 1) start start → walk.length ≤ m + 2 := by
  induction fuel generalizing s with
  | zero => exact absurd hfuel (Nat.not_lt_zero _)
  | succ fuel ih =>
    obtain ⟨prev, queue⟩ := s
    -- the start has no entry
    have hnot : start ∉ prev.keys := fun hkey => by
      obtain ⟨_, _, hne, _⟩ := hinv.tree.exists_parent hkey
      exact hne rfl
    cases queue with
    | nil =>
      have hkey := (hinv.frontier hclosed fun q hq => absurd hq List.not_mem_nil).2
      exact absurd (hkey (Nat.succ_pos n)) hnot
    | cons node queue =>
      unfold search
      cases hscan : scan members start node (succ node) ⟨prev, queue⟩ with
      | closes prev' =>
        obtain ⟨hback, htree, hnode⟩ := scan_closes hinv (fun _ hc => hc) hscan
        obtain ⟨walk, hwalk, hcw, hlen⟩ := htree.closedWalk_climb hnode hback
        refine ⟨walk, hwalk, hcw, fun m hm => ?_⟩
        -- a closed walk no longer than the head is far would have made an entry
        refine not_lt.mp fun hlt => hnot ((hinv.frontier hm fun q hq => ?_).2 (Nat.succ_pos m))
        have hhead := hinv.head_le hq
        omega
      | goesOn s =>
        obtain ⟨hinv', _, hall, hcount⟩ := scan_goesOn hinv (fun _ hc => hc) hscan
        have hpop := hinv'.pop fun w hw => hall w hw.1 hw.2
        have hle := hinv'.length_keys_le
        refine ih hpop ?_
        rw [List.length_cons] at hfuel
        dsimp only at hfuel hle ⊢
        omega

end Loops

end Bfs

end OpenstackBlueprint.Kit
