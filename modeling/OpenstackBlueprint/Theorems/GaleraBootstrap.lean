import OpenstackBlueprint.Mariadb.Start

/-!
# One bootstrap for each Galera cluster

Pods start in any order, race for the ConfigMap, are restarted at any point, and
lose patches to collisions. As long as a read fails only while the ConfigMap is
missing:

* at most one pod ever enters `mysqld_bootstrap` (`one_pod_bootstraps`), the one
  whose create went through;
* a bootstrap that was interrupted in the state `init` is never taken up again:
  from then on no pod launches `mysqld` (`interrupted_bootstrap_never_resumes`).

The invariant is stated pod by pod, relative to the pod that created the
ConfigMap. Until the state is `live` for the first time, every other pod is
outside: it has no thread and no write pending, so the leader stays the creator.
-/

namespace OpenstackBlueprint.Mariadb

open OpenstackBlueprint.Kit

/-- The cluster has come up once. -/
def ClusterState.Settled (s : ClusterState) : Prop := s = .live ∨ s = .reboot

/-! ## Instructions -/

/-- A state the instruction writes is `live` or `reboot`. -/
def Instr.Late : Instr → Prop
  | .write (.state s) => s.Settled
  | _ => True

/-- A leader the instruction writes is the pod itself. -/
def Instr.Own (host : Host) : Instr → Prop
  | .write (.leader name) => name = host.name
  | _ => True

/-- What every program but the bootstrap consists of. -/
def Instr.Plain (host : Host) (i : Instr) : Prop := i.Late ∧ i.Own host ∧ i ≠ .bootstrap

theorem Instr.Minor.plain {host : Host} {i : Instr} (h : i.Minor host) : i.Plain host := by
  unfold Instr.Minor at h
  split at h <;> simp_all [Instr.Plain, Instr.Late, Instr.Own]

section Programs

variable (host : Host)

theorem plain_runMysqld (newCluster : Bool) : ∀ i ∈ runMysqld newCluster, i.Plain host := by
  simp [runMysqld, Instr.Plain, Instr.Late, Instr.Own]

theorem plain_joinRest : ∀ i ∈ joinRest, i.Plain host := by
  simp [joinRest, runMysqld, Instr.Plain, Instr.Late, Instr.Own]

theorem plain_joinProgram : ∀ i ∈ joinProgram, i.Plain host := by
  simp [joinProgram, joinRest, runMysqld, Instr.Plain, Instr.Late, Instr.Own]

theorem plain_waitForLead : ∀ i ∈ waitForLead, i.Plain host := by
  simp [waitForLead, runMysqld, Instr.Plain, Instr.Late, Instr.Own, ClusterState.Settled]

theorem plain_liveProgram (replicas : Nat) : ∀ i ∈ liveProgram replicas host, i.Plain host := by
  unfold liveProgram
  split <;> simp [mysqldReboot, runMysqld, Instr.Plain, Instr.Late, Instr.Own, ClusterState.Settled]

theorem plain_rebootProgram (mine : Bool) : ∀ i ∈ rebootProgram mine, i.Plain host := by
  unfold rebootProgram
  split <;> simp [mysqldReboot, runMysqld, Instr.Plain, Instr.Late, Instr.Own, ClusterState.Settled]

/-- The bootstrap writes `init` first; everything after it is late. -/
theorem late_bootstrapProgram_tail : ∀ i ∈ bootstrapProgram.tail, i.Late := by
  simp [bootstrapProgram, runMysqld, Instr.Late, ClusterState.Settled]

theorem own_bootstrapProgram : ∀ i ∈ bootstrapProgram, i.Own host := by
  simp [bootstrapProgram, runMysqld, Instr.Own]

end Programs

/-! ## Where a pod stands -/

/-- The pod has not read the ConfigMap yet, or took the cluster for new. -/
def Pc.ViewsNew : Pc → Prop
  | .absent _ | .ensuring _ _ | .creating _ _ | .asking => True
  | _ => False

/-- The call sites of a pod that has not seen the cluster live. -/
def Site.Outside : Site → Prop
  | .isNew | .isInit | .isLive | .isReboot => True
  | .await rest => rest = joinRest
  | .lead _ => False

/-- The pod has not seen the cluster live. -/
def Pc.Outside : Pc → Prop
  | .state site | .absent site | .ensuring site _ | .creating site _ => site.Outside
  | .asking | .exited => True
  | .rebooting => False
  | .run t => t = ⟨none, joinProgram⟩

/-- A failed read is the first read of a pod. -/
def Pc.FirstRead : Pc → Prop
  | .absent site | .ensuring site _ | .creating site _ => site = .isNew
  | _ => True

theorem plain_of_outside {pc : Pc} (h : pc.Outside) (host : Host) :
    ∀ i ∈ pc.pending, i.Plain host := by
  have hsite : ∀ site : Site, site.Outside → ∀ i ∈ site.pending, i.Plain host := by
    intro site hsite
    cases site with
    | await rest =>
      cases (show rest = joinRest from hsite)
      exact plain_joinRest host
    | lead rest => exact hsite.elim
    | isNew | isInit | isLive | isReboot => simp [Site.pending]
  cases pc with
  | state site | absent site => exact hsite site h
  | ensuring site _ | creating site _ => exact hsite site h
  | asking | exited => simp [Pc.pending]
  | rebooting => exact h.elim
  | run t =>
    cases (show t = ⟨none, joinProgram⟩ from h)
    exact plain_joinProgram host

/-- What follows a call of `get_cluster_state` is what was pending, or a plain program. -/
theorem pending_returned (replicas : Nat) (host : Host) (s : ClusterState) (site : Site) :
    (returned replicas host s site).pending = site.pending ∨
      ∀ i ∈ (returned replicas host s site).pending, i.Plain host := by
  cases site with
  | isNew | isReboot =>
    dsimp only [returned]
    split
    · exact .inl rfl
    · exact .inl rfl
  | isInit =>
    dsimp only [returned]
    split
    · exact .inr (plain_joinProgram host)
    · exact .inl rfl
  | isLive =>
    dsimp only [returned]
    split
    · exact .inr (plain_liveProgram host replicas)
    · exact .inl rfl
  | await rest =>
    dsimp only [returned]
    split
    · exact .inl rfl
    · exact .inl rfl
  | lead rest =>
    dsimp only [returned]
    split
    · exact .inl rfl
    · exact .inr (plain_waitForLead host)

section Moves

variable {readsFail : Prop} {replicas ttl : Nat} {w : World} {host : Host} {pc pc' : Pc}
  {log : List Event}

/-- The main logic enters the bootstrap, or goes on with what was pending or a plain program. -/
theorem move_pending (h : Move readsFail replicas ttl w host pc pc' log) :
    (pc = .asking ∧ pc' = .run ⟨none, bootstrapProgram⟩ ∧
      ∃ o, w.config.object = some o ∧ o.value.leader = host.name) ∨
    pc'.pending = pc.pending ∨ (∃ i, pc.pending = i :: pc'.pending) ∨
    ∀ i ∈ pc'.pending, i.Plain host := by
  cases h with
  | state o site pc ho hpc =>
    subst hpc
    rcases pending_returned replicas host o.value.state site with h | h
    · exact .inr (.inl h)
    · exact .inr (.inr (.inr h))
  | stateFails site _ => exact .inr (.inl rfl)
  | draft site active _ => exact .inr (.inl rfl)
  | ensured o site draft pc ho hpc =>
    subst hpc
    rcases pending_returned replicas host draft.state site with h | h
    · exact .inr (.inl h)
    · exact .inr (.inr (.inr h))
  | notEnsured site draft _ => exact .inr (.inl rfl)
  | leads o ho hleader => exact .inl ⟨rfl, rfl, o, ho, hleader⟩
  | joins o _ _ => exact .inr (.inr (.inr (plain_joinProgram host)))
  | reboots o mine _ _ => exact .inr (.inr (.inr (plain_rebootProgram host mine)))
  | active rest _ => exact .inr (.inr (.inr (plain_runMysqld host false)))
  | notHighest o nodes leader rest _ _ _ _ =>
    exact .inr (.inr (.inr (plain_waitForLead host)))
  | notInactive rest _ => exact .inr (.inr (.inr (plain_waitForLead host)))
  | bootstrap rest => exact .inr (.inr (.inl ⟨_, rfl⟩))
  | awaitLive rest => exact .inr (.inr (.inl ⟨_, rfl⟩))
  | awaitActive rest _ => exact .inr (.inr (.inl ⟨_, rfl⟩))
  | noneActive rest => exact .inr (.inr (.inl ⟨_, rfl⟩))
  | highest o nodes rest _ _ _ => exact .inr (.inr (.inl ⟨_, rfl⟩))
  | inactive rest => exact .inr (.inr (.inl ⟨_, rfl⟩))
  | ifLive rest => exact .inr (.inr (.inl ⟨_, rfl⟩))
  | mysqld newCluster rest => exact .inr (.inr (.inl ⟨_, rfl⟩))

/-- A pod outside stays outside, and logs nothing, while the cluster has not come up. -/
theorem outside_move (h : Move False replicas ttl w host pc pc' log) (hout : pc.Outside)
    (hfirst : pc.FirstRead) {o : Versioned ConfigMap} (ho : w.config.object = some o)
    (hstate : ¬ o.value.state.Settled)
    (hleader : pc.ViewsNew → o.value.leader ≠ host.name) : pc'.Outside ∧ log = [] := by
  have hlive : o.value.state ≠ .live := fun h => hstate (.inl h)
  have hreboot : o.value.state ≠ .reboot := fun h => hstate (.inr h)
  cases h with
  | state o' site pc ho' hpc =>
    cases ho.symm.trans ho'
    subst hpc
    refine ⟨?_, rfl⟩
    cases site with
    | isNew =>
      dsimp only [returned]
      split <;> trivial
    | isInit =>
      dsimp only [returned]
      split
      · rfl
      · trivial
    | isLive =>
      dsimp only [returned]
      rw [if_neg hlive]
      trivial
    | isReboot =>
      dsimp only [returned]
      rw [if_neg hreboot]
      trivial
    | await rest =>
      dsimp only [returned]
      rw [if_neg hlive]
      exact hout
    | lead rest => exact hout.elim
  | stateFails site hfail => simp [ho] at hfail
  | draft site active _ => exact ⟨hout, rfl⟩
  | ensured o' site draft pc ho' hpc =>
    subst hpc
    cases (show site = .isNew from hfirst)
    refine ⟨?_, rfl⟩
    dsimp only [returned]
    split <;> trivial
  | notEnsured site draft hfail => simp [ho] at hfail
  | leads o' ho' hleads =>
    cases ho.symm.trans ho'
    exact absurd hleads (hleader trivial)
  | joins o' _ _ => exact ⟨rfl, rfl⟩
  | reboots o' mine _ _ => exact hout.elim
  | awaitLive rest =>
    cases (show (⟨none, .awaitLive :: rest⟩ : Thread) = ⟨none, joinProgram⟩ from hout)
    exact ⟨rfl, rfl⟩
  | bootstrap rest => cases (show (⟨none, .bootstrap :: rest⟩ : Thread) = ⟨none, joinProgram⟩ from hout)
  | awaitActive rest _ => cases hout
  | active rest _ => cases hout
  | noneActive rest => cases hout
  | highest o' nodes rest _ _ _ => cases hout
  | notHighest o' nodes leader rest _ _ _ _ => cases hout
  | inactive rest => cases hout
  | notInactive rest _ => cases hout
  | ifLive rest => cases hout
  | mysqld newCluster rest => cases hout

/-- A pod comes to take the cluster for new by its first read of the state. -/
theorem viewsNew_move (h : Move False replicas ttl w host pc pc' log) {o : Versioned ConfigMap}
    (ho : w.config.object = some o) (hviews : pc'.ViewsNew) :
    pc.ViewsNew ∨ pc = .state .isNew ∧ pc' = .asking ∧ o.value.state = .new := by
  cases h with
  | state o' site pc ho' hpc =>
    cases ho.symm.trans ho'
    subst hpc
    cases site with
    | isNew =>
      dsimp only [returned] at hviews ⊢
      split at hviews
      · rename_i hnew
        exact .inr ⟨rfl, if_pos hnew, hnew⟩
      · exact hviews.elim
    | isInit | isLive | isReboot | await _ | lead _ =>
      dsimp only [returned] at hviews
      split at hviews <;> exact hviews.elim
  | stateFails site hfail => simp [ho] at hfail
  | draft site active _ => exact .inl trivial
  | ensured o' site draft pc _ _ => exact .inl trivial
  | notEnsured site draft _ => exact .inl trivial
  | leads o' _ _ => exact .inl trivial
  | joins o' _ _ => exact .inl trivial
  | _ => exact hviews.elim

theorem returned_ne_start (replicas : Nat) (host : Host) (s : ClusterState) (site : Site) :
    returned replicas host s site ≠ .state .isNew := by
  cases site <;> dsimp only [returned] <;> split <;> simp

theorem firstRead_returned (replicas : Nat) (host : Host) (s : ClusterState) (site : Site) :
    (returned replicas host s site).FirstRead := by
  cases site <;> dsimp only [returned] <;> split <;> trivial

theorem move_ne_start (h : Move readsFail replicas ttl w host pc pc' log) :
    pc' ≠ .state .isNew := by
  cases h with
  | state o site pc ho hpc => exact hpc ▸ returned_ne_start _ _ _ _
  | ensured o site draft pc ho hpc => exact hpc ▸ returned_ne_start _ _ _ _
  | _ => simp

theorem firstRead_move (h : Move False replicas ttl w host pc pc' log) (hfirst : pc.FirstRead)
    {o : Versioned ConfigMap} (ho : w.config.object = some o) : pc'.FirstRead := by
  cases h with
  | state o site pc ho hpc => exact hpc ▸ firstRead_returned _ _ _ _
  | ensured o site draft pc ho hpc => exact hpc ▸ firstRead_returned _ _ _ _
  | stateFails site hfail => simp [ho] at hfail
  | draft site active _ => exact hfirst
  | notEnsured site draft _ => exact hfirst
  | _ => trivial

/-- Only a pod about to bootstrap logs a bootstrap. -/
theorem move_log (h : Move readsFail replicas ttl w host pc pc' log) {other : Host}
    (hlog : Event.bootstrap other ∈ log) : other = host ∧ Instr.bootstrap ∈ pc.pending := by
  cases h with
  | bootstrap rest =>
    cases List.mem_singleton.mp hlog
    exact ⟨rfl, List.mem_cons_self⟩
  | highest o nodes rest _ _ _ => cases List.mem_singleton.mp hlog
  | mysqld newCluster rest => cases List.mem_singleton.mp hlog
  | _ => cases hlog

end Moves

/-! ## The invariant -/

/-- The pod has not left its first call of `get_cluster_state`. -/
def Pc.Starting (pc : Pc) : Prop := pc = .state .isNew ∨ pc.ViewsNew

/-- What holds of one pod once `c` has created the ConfigMap. -/
structure PodInv (c : Host) (cm : ConfigMap) (host : Host) (pod : Pod) : Prop where
  views : host ≠ c → pod.main.ViewsNew → cm.leader ≠ host.name
  creator : host = c → pod.main.ViewsNew → pod.main = .asking ∧ ¬ cm.state.Settled
  early : ¬ cm.state.Settled → host ≠ c →
    pod.main.Outside ∧ pod.election = none ∧ pod.monitor = none
  tail : ¬ cm.state.Settled → ∀ i ∈ pod.main.pending.tail, i.Late
  late : cm.state.Settled → ∀ i ∈ pod.main.pending, i.Late
  own : ∀ i ∈ pod.main.pending, i.Own host
  boot : Instr.bootstrap ∈ pod.main.pending → host = c
  off : pod.main.Starting → pod.election = none ∧ pod.monitor = none
  election : ∀ t, pod.election = some t → ∀ i ∈ t.todo, i.Minor host
  monitor : ∀ t, pod.monitor = some t → ∀ i ∈ t.todo, i.Minor host
  first : pod.main.FirstRead

/-- What holds of all pods and of the log once `c` has created the ConfigMap. -/
structure Created (c : Host) (cm : ConfigMap) (pods : Host → Pod) (log : List Event) : Prop where
  leader : ¬ cm.state.Settled → cm.leader = c.name
  pods : ∀ host, PodInv c cm host (pods host)
  log : ∀ host, Event.bootstrap host ∈ log → host = c

/-- Where a pod stands before there is a ConfigMap. -/
def Pc.Waiting (pc : Pc) : Prop :=
  pc = .state .isNew ∨ pc = .absent .isNew ∨ ∃ draft, draft.active = false ∧
    (pc = .ensuring .isNew draft ∨ pc = .creating .isNew draft)

/-- What holds of the namespace before there is a ConfigMap. -/
structure Missing (w : World) : Prop where
  main : ∀ host, (w.pods host).main.Waiting
  threads : ∀ host, (w.pods host).election = none ∧ (w.pods host).monitor = none
  log : w.log = []

/-- The invariant of a namespace whose reads fail only while the ConfigMap is missing. -/
def Inv (w : World) : Prop :=
  match w.config.stored with
  | none => Missing w
  | some cm => ∃ c, Created c cm w.pods w.log

/-- A pod that moves keeps the invariant when it does so itself. -/
theorem Created.update {c host : Host} {cm : ConfigMap} {pods : Host → Pod} {pod : Pod}
    {log log' : List Event} (h : Created c cm pods log) (hpod : PodInv c cm host pod)
    (hlog : ∀ other, Event.bootstrap other ∈ log' → other = c) :
    Created c cm (Function.update pods host pod) (log' ++ log) where
  leader := h.leader
  pods := by
    intro other
    by_cases hother : other = host
    · subst hother
      rw [Function.update_self]
      exact hpod
    · rw [Function.update_of_ne hother]
      exact h.pods other
  log := by
    intro other hmem
    rcases List.mem_append.mp hmem with hmem | hmem
    · exact hlog other hmem
    · exact h.log other hmem

theorem Created.setPod {c host : Host} {cm : ConfigMap} {pods : Host → Pod} {pod : Pod}
    {log : List Event} (h : Created c cm pods log) (hpod : PodInv c cm host pod) :
    Created c cm (Function.update pods host pod) log := by
  have hset : Created c cm (Function.update pods host pod) ([] ++ log) := h.update hpod (by simp)
  exact hset

/-- The restarted pod. -/
theorem podInv_restart (c : Host) (cm : ConfigMap) (host : Host) :
    PodInv c cm host ⟨.state .isNew, none, none⟩ where
  views := by intro _ h; exact h.elim
  creator := by intro _ h; exact h.elim
  early := by intro _ _; exact ⟨trivial, rfl, rfl⟩
  tail := by simp [Pc.pending, Site.pending]
  late := by simp [Pc.pending, Site.pending]
  own := by simp [Pc.pending, Site.pending]
  boot := by simp [Pc.pending, Site.pending]
  off := by intro _; exact ⟨rfl, rfl⟩
  election := by simp
  monitor := by simp
  first := trivial

/-- A move of the main logic keeps what holds of its pod. -/
theorem PodInv.move {c host : Host} {w : World} {pod : Pod} {pc : Pc} {log : List Event}
    {replicas ttl : Nat} {o : Versioned ConfigMap} (h : PodInv c o.value host pod)
    (hleader : ¬ o.value.state.Settled → o.value.leader = c.name)
    (ho : w.config.object = some o) (hmove : Move False replicas ttl w host pod.main pc log) :
    PodInv c o.value host { pod with main := pc } := by
  have hunsettled : o.value.state = .new → ¬ o.value.state.Settled := by
    intro hnew
    simp [hnew, ClusterState.Settled]
  have hviews : ∀ hne : host ≠ c, pod.main.ViewsNew ∨ o.value.state = .new →
      o.value.leader ≠ host.name := by
    rintro hne (hold | hnew) heq
    · exact h.views hne hold heq
    · exact hne (Host.ext_name (heq.symm.trans (hleader (hunsettled hnew))))
  -- only the creator finds its own name in the leader
  have hleads : (∃ o', w.config.object = some o' ∧ o'.value.leader = host.name) →
      pod.main = .asking → host = c := by
    rintro ⟨o', ho', heq⟩ hasking
    cases ho.symm.trans ho'
    by_contra hne
    exact h.views hne (hasking ▸ trivial) heq
  constructor
  · intro hne hnew
    rcases viewsNew_move hmove ho hnew with hold | ⟨_, _, hstate⟩
    · exact hviews hne (.inl hold)
    · exact hviews hne (.inr hstate)
  · intro hc hnew
    rcases viewsNew_move hmove ho hnew with hold | ⟨_, hpc, hstate⟩
    · -- the creator only ever asks, and from there it does not come back
      obtain ⟨hasking, _⟩ := h.creator hc hold
      rw [hasking] at hmove
      cases hmove with
      | leads o' _ _ => exact hnew.elim
      | joins o' _ _ => exact hnew.elim
    · exact ⟨hpc, hunsettled hstate⟩
  · intro hstate hne
    obtain ⟨hout, helection, hmonitor⟩ := h.early hstate hne
    exact ⟨(outside_move hmove hout h.first ho hstate (h.views hne)).1, helection, hmonitor⟩
  · intro hstate i hi
    rcases move_pending hmove with ⟨_, rfl, _⟩ | heq | ⟨j, heq⟩ | hplain
    · exact late_bootstrapProgram_tail i hi
    · exact h.tail hstate i (heq ▸ hi)
    · refine h.tail hstate i ?_
      rw [heq]
      exact List.mem_of_mem_tail hi
    · exact (hplain i (List.mem_of_mem_tail hi)).1
  · intro hstate i hi
    rcases move_pending hmove with ⟨hasking, rfl, hname⟩ | heq | ⟨j, heq⟩ | hplain
    · -- a settled cluster is not bootstrapped again
      exact absurd hstate (h.creator (hleads hname hasking) (hasking ▸ trivial)).2
    · exact h.late hstate i (heq ▸ hi)
    · exact h.late hstate i (heq ▸ List.mem_cons_of_mem _ hi)
    · exact (hplain i hi).1
  · intro i hi
    rcases move_pending hmove with ⟨_, rfl, _⟩ | heq | ⟨j, heq⟩ | hplain
    · exact own_bootstrapProgram host i hi
    · exact h.own i (heq ▸ hi)
    · exact h.own i (heq ▸ List.mem_cons_of_mem _ hi)
    · exact (hplain i hi).2.1
  · intro hi
    rcases move_pending hmove with ⟨hasking, rfl, hname⟩ | heq | ⟨j, heq⟩ | hplain
    · exact hleads hname hasking
    · exact h.boot (heq ▸ hi)
    · exact h.boot (heq ▸ List.mem_cons_of_mem _ hi)
    · exact absurd rfl (hplain _ hi).2.2
  · rintro (hstart | hnew)
    · exact absurd hstart (move_ne_start hmove)
    · rcases viewsNew_move hmove ho hnew with hold | ⟨hold, _⟩
      · exact h.off (.inr hold)
      · exact h.off (.inl hold)
  · exact h.election
  · exact h.monitor
  · exact firstRead_move hmove h.first ho

section Threads

variable {c host : Host} {cm : ConfigMap} {pod : Pod} {ttl now : Nat}
  {config config' : Server ConfigMap} {t t' : Thread}

/-- A pod waiting for the cluster executes no instruction of a thread. -/
theorem exec_not_join (h : Exec ttl now host config t t' config') : t ≠ ⟨none, joinProgram⟩ := by
  cases h <;> simp [joinProgram]

/-- A program that advances keeps what holds of its pod, on the same ConfigMap. -/
theorem PodInv.advance (h : PodInv c cm host pod) (hmain : pod.main = .run t)
    (hnot : t ≠ ⟨none, joinProgram⟩) (hadvance : t.Advances host t') :
    PodInv c cm host { pod with main := .run t' } := by
  have hpending : pod.main.pending = t.todo := by rw [hmain]; rfl
  have hown := h.own
  have hlate := h.late
  have htail := h.tail
  have hboot := h.boot
  rw [hpending] at hown hlate htail hboot
  constructor
  · intro _ hviews
    exact hviews.elim
  · intro _ hviews
    exact hviews.elim
  · intro hstate hne
    have hout := (h.early hstate hne).1
    rw [hmain] at hout
    exact absurd hout hnot
  · intro hstate i hi
    rcases hadvance with heq | ⟨j, minor, rest, htodo, htodo', hminor⟩
    · exact htail hstate i (heq ▸ hi)
    · have hi : i ∈ (minor ++ rest).tail := htodo' ▸ hi
      rcases List.mem_append.mp (List.mem_of_mem_tail hi) with hi | hi
      · exact (hminor i hi).plain.1
      · exact htail hstate i (by rw [htodo]; exact hi)
  · intro hstate i hi
    rcases hadvance.mem i hi with hi | hi
    · exact hlate hstate i hi
    · exact hi.plain.1
  · intro i hi
    rcases hadvance.mem i hi with hi | hi
    · exact hown i hi
    · exact hi.plain.2.1
  · intro hi
    rcases hadvance.mem _ hi with hi | hi
    · exact hboot hi
    · exact hi.elim
  · rintro (hstart | hviews)
    · cases hstart
    · exact hviews.elim
  · exact h.election
  · exact h.monitor
  · trivial

/-- Threads of a pod past its start keep what holds of it when they only do minor things. -/
theorem PodInv.setThreads {election monitor : Option Thread} (h : PodInv c cm host pod)
    (hstart : ¬ pod.main.Starting) (hearly : ¬ cm.state.Settled → host = c)
    (helection : ∀ t, election = some t → ∀ i ∈ t.todo, i.Minor host)
    (hmonitor : ∀ t, monitor = some t → ∀ i ∈ t.todo, i.Minor host) :
    PodInv c cm host { pod with election := election, monitor := monitor } :=
  { h with
    early := fun hstate hne => absurd (hearly hstate) hne
    off := fun hpc => absurd hpc hstart
    election := helection
    monitor := hmonitor }

/-- A write of another pod keeps what holds of a pod. -/
theorem PodInv.write_other {writer : Host} {wr : Write} (h : PodInv c cm host pod)
    (hne : host ≠ writer) (hown : ∀ name, wr = .leader name → name = writer.name)
    (hsettled : cm.state.Settled → ∀ s, wr = .state s → s.Settled)
    (hearly : ¬ cm.state.Settled → writer = c) : PodInv c (wr.apply cm) host pod := by
  cases wr with
  | expiry time => exact { h with }
  | rebootNode name => exact { h with }
  | data key value => exact { h with }
  | leader name =>
    refine { h with views := ?_ }
    intro _ _ heq
    exact hne (Host.ext_name (heq.symm.trans (hown name rfl)))
  | state s =>
    by_cases hstate : cm.state.Settled
    · have hs := hsettled hstate s rfl
      refine { h with creator := ?_, early := ?_, tail := ?_, late := ?_ }
      · intro hc hviews
        exact absurd hstate (h.creator hc hviews).2
      · intro hnot
        exact absurd hs hnot
      · intro hnot
        exact absurd hs hnot
      · intro _
        exact h.late hstate
    · -- the cluster comes up: everybody but the writer is outside
      have hc : host ≠ c := fun heq => hne (heq.trans (hearly hstate).symm)
      have hout := h.early hstate hc
      refine { h with creator := ?_, early := ?_, tail := ?_, late := ?_ }
      · intro heq
        exact absurd heq hc
      · intro _ _
        exact hout
      · intro _
        exact h.tail hstate
      · intro _ i hi
        exact (plain_of_outside hout.1 host i hi).1

/-- A write keeps what holds of the pod that makes it. -/
theorem PodInv.write_self {wr : Write} (h : PodInv c cm host pod) (hstart : ¬ pod.main.Starting)
    (hsettled : cm.state.Settled → ∀ s, wr = .state s → s.Settled)
    (hearly : ¬ cm.state.Settled → host = c)
    (hrest : ¬ cm.state.Settled → ∀ s, wr = .state s → ∀ i ∈ pod.main.pending, i.Late) :
    PodInv c (wr.apply cm) host pod := by
  have hviews : ¬ pod.main.ViewsNew := fun hv => hstart (.inr hv)
  cases wr with
  | expiry time => exact { h with }
  | rebootNode name => exact { h with }
  | data key value => exact { h with }
  | leader name => exact { h with views := fun _ hv => absurd hv hviews }
  | state s =>
    refine { h with creator := fun _ hv => absurd hv hviews, early := ?_, tail := ?_, late := ?_ }
    · intro hnot hne
      by_cases hstate : cm.state.Settled
      · exact absurd (hsettled hstate s rfl) hnot
      · exact absurd (hearly hstate) hne
    · intro hnot
      by_cases hstate : cm.state.Settled
      · exact absurd (hsettled hstate s rfl) hnot
      · exact h.tail hstate
    · intro hs
      by_cases hstate : cm.state.Settled
      · exact h.late hstate
      · exact hrest hstate s rfl

end Threads

/-! ## Every step -/

/-- A write by a pod that is past its start keeps the invariant. -/
theorem Created.write {c host : Host} {cm : ConfigMap} {pods : Host → Pod} {pod : Pod}
    {log : List Event} {wr : Write} (h : Created c cm pods log) (hpod : PodInv c cm host pod)
    (hstart : ¬ pod.main.Starting) (hown : ∀ name, wr = .leader name → name = host.name)
    (hsettled : cm.state.Settled → ∀ s, wr = .state s → s.Settled)
    (hearly : ¬ cm.state.Settled → host = c)
    (hrest : ¬ cm.state.Settled → ∀ s, wr = .state s → ∀ i ∈ pod.main.pending, i.Late) :
    Created c (wr.apply cm) (Function.update pods host pod) log where
  leader := by
    intro hnot
    cases wr with
    | expiry time => exact h.leader hnot
    | rebootNode name => exact h.leader hnot
    | data key value => exact h.leader hnot
    | leader name => exact (hown name rfl).trans (congrArg Host.name (hearly hnot))
    | state s => exact h.leader fun hstate => hnot (hsettled hstate s rfl)
  pods := by
    intro other
    by_cases hother : other = host
    · subst hother
      rw [Function.update_self]
      exact hpod.write_self hstart hsettled hearly hrest
    · rw [Function.update_of_ne hother]
      exact (h.pods other).write_other hother hown hsettled hearly
  log := h.log

theorem stored_of_object {config : Server ConfigMap} {o : Versioned ConfigMap}
    (h : config.object = some o) : config.stored = some o.value := by
  rw [Server.stored, h]
  rfl

theorem object_of_stored {config : Server ConfigMap} {cm : ConfigMap}
    (h : config.stored = some cm) : ∃ o, config.object = some o ∧ o.value = cm :=
  Option.map_eq_some_iff.mp h

/-- An instruction of any thread keeps the invariant. -/
theorem inv_exec {c host : Host} {cm : ConfigMap} {w : World} {pod : Pod} {ttl : Nat}
    {config : Server ConfigMap} {t t' : Thread} (hstored : w.config.stored = some cm)
    (h : Created c cm w.pods w.log) (hpod : PodInv c cm host pod)
    (hstart : ¬ pod.main.Starting) (hearly : ¬ cm.state.Settled → host = c)
    (hexec : Exec ttl w.now host w.config t t' config)
    (hwrite : ∀ wr rest, t.todo = .write wr :: rest → t'.todo = rest →
      (∀ name, wr = .leader name → name = host.name) ∧
      (cm.state.Settled → ∀ s, wr = .state s → s.Settled) ∧
      (¬ cm.state.Settled → ∀ s, wr = .state s → ∀ i ∈ pod.main.pending, i.Late)) :
    Inv { w.setPod host pod with config := config } := by
  rcases exec_config hexec with rfl | ⟨wr, rest, o, htodo, htodo', hobject, rfl⟩
  · unfold Inv
    simp only [World.setPod, hstored]
    exact ⟨c, h.setPod hpod⟩
  · obtain rfl : o.value = cm := Option.some.inj ((stored_of_object hobject).symm.trans hstored)
    obtain ⟨hown, hsettled, hrest⟩ := hwrite wr rest htodo htodo'
    unfold Inv
    simp only [World.setPod, Server.stored_set]
    exact ⟨c, h.write hpod hstart hown hsettled hearly hrest⟩

section Missing

variable {w : World} {host : Host}

theorem Pc.Waiting.not_run {t : Thread} (h : (Pc.run t).Waiting) : False := by
  rcases h with h | h | ⟨_, _, h | h⟩ <;> cases h

theorem Missing.setPod (h : Missing w) {pc : Pc} (hpc : pc.Waiting) :
    Missing { w.setPod host { w.pods host with main := pc } with log := [] ++ w.log } where
  main := by
    intro other
    by_cases hother : other = host
    · subst hother
      simpa [World.setPod] using hpc
    · simpa [World.setPod, hother] using h.main other
  threads := by
    intro other
    by_cases hother : other = host
    · subst hother
      simpa [World.setPod] using h.threads other
    · simpa [World.setPod, hother] using h.threads other
  log := h.log

/-- Without a ConfigMap a pod goes on waiting, and logs nothing. -/
theorem waiting_move {replicas ttl : Nat} {pc : Pc} {log : List Event} (h : Missing w)
    (hnone : w.config.object = none)
    (hmove : Move False replicas ttl w host (w.pods host).main pc log) :
    pc.Waiting ∧ log = [] := by
  have hmain : (w.pods host).main.Waiting := h.main host
  generalize (w.pods host).main = before at hmove hmain
  rcases hmain with rfl | rfl | ⟨draft, hinactive, rfl | rfl⟩
  · cases hmove with
    | state o site pc ho _ => simp [hnone] at ho
    | stateFails site _ => exact ⟨.inr (.inl rfl), rfl⟩
  · cases hmove with
    | draft site active hanswer =>
      -- no `mysqld` was launched, so no node is active
      have hinactive : active = false := by
        by_contra hactive
        obtain ⟨_, _, hmem⟩ := hanswer (by simpa using hactive)
        simp [h.log] at hmem
      exact ⟨.inr (.inr ⟨_, hinactive, .inl rfl⟩), rfl⟩
  · cases hmove with
    | ensured o site _ pc ho _ => simp [hnone] at ho
    | notEnsured site _ _ => exact ⟨.inr (.inr ⟨_, hinactive, .inr rfl⟩), rfl⟩
  · cases hmove

/-- The pod whose create goes through is the creator. -/
theorem created_of_missing {replicas : Nat} {site : Site} {draft : Draft} (h : Missing w)
    (hmain : (w.pods host).main = .creating site draft) :
    Created host (initialConfigmap host draft)
      (Function.update w.pods host
        { w.pods host with main := returned replicas host draft.state site }) w.log := by
  have hcreating : site = .isNew ∧ draft.active = false := by
    rcases h.main host with hm | hm | ⟨draft', hinactive, hm | hm⟩
    · cases hm.symm.trans hmain
    · cases hm.symm.trans hmain
    · cases hm.symm.trans hmain
    · cases hm.symm.trans hmain
      exact ⟨rfl, hinactive⟩
  obtain ⟨rfl, hinactive⟩ := hcreating
  have hstate : draft.state = .new := by simp [Draft.state, hinactive]
  have hleader : (initialConfigmap host draft).leader = host.name := by
    simp [initialConfigmap, hinactive]
  have hunsettled : ¬ (initialConfigmap host draft).state.Settled := by
    simp [initialConfigmap, hstate, ClusterState.Settled]
  refine ⟨fun _ => hleader, fun other => ?_, fun other hmem => by simp [h.log] at hmem⟩
  obtain ⟨helection, hmonitor⟩ := h.threads other
  by_cases hother : other = host
  · subst hother
    rw [Function.update_self, hstate]
    refine ⟨fun hne => absurd rfl hne, fun _ _ => ⟨rfl, hunsettled⟩, fun _ hne => absurd rfl hne,
      ?_, ?_, ?_, ?_, fun _ => ⟨helection, hmonitor⟩, by simp [helection], by simp [hmonitor],
      trivial⟩
    all_goals simp [returned, Pc.pending]
  · rw [Function.update_of_ne hother]
    have hout : (w.pods other).main.Outside ∧ (w.pods other).main.FirstRead := by
      rcases h.main other with hm | hm | ⟨draft', _, hm | hm⟩
      all_goals
        rw [hm]
        exact ⟨trivial, by trivial⟩
    have hplain := plain_of_outside hout.1 other
    refine ⟨fun _ _ heq => hother (Host.ext_name (heq.symm.trans hleader)),
      fun heq => absurd heq hother, fun _ _ => ⟨hout.1, helection, hmonitor⟩,
      fun _ i hi => (hplain i (List.mem_of_mem_tail hi)).1, fun _ i hi => (hplain i hi).1,
      fun i hi => (hplain i hi).2.1, fun hi => absurd rfl (hplain _ hi).2.2,
      fun _ => ⟨helection, hmonitor⟩, by simp [helection], by simp [hmonitor], hout.2⟩

end Missing

/-- Before there is a ConfigMap, one step keeps the invariant. -/
theorem inv_step_missing {replicas ttl : Nat} {w w' : World} (hm : Missing w)
    (hnone : w.config.object = none) (hs : Step False replicas ttl w w') : Inv w' := by
  have hstored : w.config.stored = none := by simp [Server.stored, hnone]
  have hpod : ∀ (host : Host) {t : Thread}, (w.pods host).main ≠ .run t := by
    intro host t hrun
    exact (hrun ▸ hm.main host).not_run
  cases hs with
  | tick now _ =>
    simp only [Inv, hstored]
    exact ⟨hm.main, hm.threads, hm.log⟩
  | move host pc log hmove =>
    obtain ⟨hwaiting, rfl⟩ := waiting_move hm hnone hmove
    simpa only [Inv, World.setPod, hstored] using hm.setPod hwaiting
  | created host site draft hmain _ =>
    simp only [Inv, Server.stored_write]
    exact ⟨host, created_of_missing hm hmain⟩
  | main host t t' config hmain _ => exact absurd hmain (hpod host)
  | launchElection host rest hmain => exact absurd hmain (hpod host)
  | launchMonitor host rest hmain => exact absurd hmain (hpod host)
  | election host t t' config ht _ => simp [(hm.threads host).1] at ht
  | monitor host t t' config ht _ => simp [(hm.threads host).2] at ht
  | electionRound host t ht => simp [(hm.threads host).1] at ht
  | monitorRound host t ht => simp [(hm.threads host).2] at ht
  | restart host =>
    obtain ⟨helection, hmonitor⟩ := hm.threads host
    have hset : Missing { w.setPod host { w.pods host with main := .state .isNew } with
        log := [] ++ w.log } := hm.setPod (.inl rfl)
    dsimp only at hset
    rw [helection, hmonitor] at hset
    simpa only [Inv, World.setPod, hstored, List.nil_append] using hset

section Created

variable {c host : Host} {cm : ConfigMap} {pods : Host → Pod} {log : List Event}

/-- Until the cluster is up, only the creator runs a program. -/
theorem Created.creator_of_run (h : Created c cm pods log) {t : Thread}
    (hmain : (pods host).main = .run t) (hnot : t ≠ ⟨none, joinProgram⟩)
    (hstate : ¬ cm.state.Settled) : host = c := by
  by_contra hne
  have hout := ((h.pods host).early hstate hne).1
  rw [hmain] at hout
  exact hnot hout

/-- A pod with a thread is past its start, and the creator until the cluster is up. -/
theorem Created.past_start (h : Created c cm pods log) (host : Host)
    (hthread : (pods host).election ≠ none ∨ (pods host).monitor ≠ none) :
    ¬ (pods host).main.Starting ∧ (¬ cm.state.Settled → host = c) := by
  have hoff : ¬ ((pods host).election = none ∧ (pods host).monitor = none) := by
    rintro ⟨helection, hmonitor⟩
    simp [helection, hmonitor] at hthread
  refine ⟨fun hstart => hoff ((h.pods host).off hstart), fun hstate => ?_⟩
  by_contra hne
  exact hoff ((h.pods host).early hstate hne).2

/-- A pod that launches a thread. -/
theorem Created.launch (h : Created c cm pods log) {i : Instr} {rest : List Instr}
    {election monitor : Option Thread} (hmain : (pods host).main = .run ⟨none, i :: rest⟩)
    (hi : i ≠ .awaitLive) (helection : ∀ t, election = some t → ∀ i ∈ t.todo, i.Minor host)
    (hmonitor : ∀ t, monitor = some t → ∀ i ∈ t.todo, i.Minor host) :
    PodInv c cm host ⟨.run ⟨none, rest⟩, election, monitor⟩ := by
  have hnot : (⟨none, i :: rest⟩ : Thread) ≠ ⟨none, joinProgram⟩ := by simp [joinProgram, hi]
  have hadvance : (⟨none, i :: rest⟩ : Thread).Advances host ⟨none, rest⟩ :=
    .inr ⟨i, [], rest, rfl, rfl, by simp⟩
  refine ((h.pods host).advance hmain hnot hadvance).setThreads ?_ (h.creator_of_run hmain hnot)
    helection hmonitor
  rintro (hstart | hviews)
  · cases hstart
  · exact hviews

end Created

/-- Once there is a ConfigMap, one step keeps the invariant. -/
theorem inv_step_created {replicas ttl : Nat} {w w' : World} {c : Host} {o : Versioned ConfigMap}
    (hc : Created c o.value w.pods w.log) (ho : w.config.object = some o)
    (hs : Step False replicas ttl w w') : Inv w' := by
  have hstored := stored_of_object ho
  -- a minor write changes no state and names the pod itself
  have hminor : ∀ {host : Host} (wr : Write), (Instr.write wr).Minor host →
      (∀ name, wr = .leader name → name = host.name) ∧
      (o.value.state.Settled → ∀ s, wr = .state s → s.Settled) ∧
      (¬ o.value.state.Settled → ∀ s, wr = .state s →
        ∀ i ∈ (w.pods host).main.pending, i.Late) := by
    intro host wr hwr
    refine ⟨?_, ?_, ?_⟩
    · rintro name rfl
      exact hwr
    · rintro _ s rfl
      exact hwr.elim
    · rintro _ s rfl
      exact hwr.elim
  cases hs with
  | tick now _ =>
    simp only [Inv, hstored]
    exact ⟨c, hc⟩
  | move host pc log hmove =>
    simp only [Inv, World.setPod, hstored]
    refine ⟨c, hc.update ((hc.pods host).move hc.leader ho hmove) ?_⟩
    intro other hmem
    obtain ⟨rfl, hboot⟩ := move_log hmove hmem
    exact (hc.pods other).boot hboot
  | created host site draft _ hnone => simp [hnone] at ho
  | main host t t' config hmain hexec =>
    have hpod := hc.pods host
    have hpending : (w.pods host).main.pending = t.todo := by rw [hmain]; rfl
    refine inv_exec hstored hc (hpod.advance hmain (exec_not_join hexec) (exec_advances hexec))
      ?_ (hc.creator_of_run hmain (exec_not_join hexec)) hexec ?_
    · rintro (hstart | hviews)
      · cases hstart
      · exact hviews
    · intro wr rest htodo htodo'
      have hmem : Instr.write wr ∈ (w.pods host).main.pending := by simp [hpending, htodo]
      refine ⟨?_, ?_, ?_⟩
      · rintro name rfl
        exact hpod.own _ hmem
      · rintro hstate s rfl
        exact hpod.late hstate _ hmem
      · rintro hstate s rfl i hi
        refine hpod.tail hstate i ?_
        rw [hpending, htodo]
        exact htodo' ▸ hi
  | launchElection host rest hmain =>
    simp only [Inv, World.setPod, hstored]
    refine ⟨c, hc.setPod (hc.launch hmain (by simp) ?_ (hc.pods host).monitor)⟩
    exact minor_launched (hc.pods host).election
  | launchMonitor host rest hmain =>
    simp only [Inv, World.setPod, hstored]
    refine ⟨c, hc.setPod (hc.launch hmain (by simp) (hc.pods host).election ?_)⟩
    exact minor_launched (hc.pods host).monitor
  | election host t t' config ht hexec =>
    have hpod := hc.pods host
    obtain ⟨hstart, hearly⟩ := hc.past_start host (.inl (by simp [ht]))
    refine inv_exec hstored hc (hpod.setThreads hstart hearly ?_ hpod.monitor) hstart hearly
      hexec ?_
    · rintro t'' ⟨⟩ i hi
      exact ((exec_advances hexec).mem i hi).elim (hpod.election t ht i) id
    · intro wr rest htodo _
      exact hminor wr (hpod.election t ht _ (htodo ▸ List.mem_cons_self))
  | monitor host t t' config ht hexec =>
    have hpod := hc.pods host
    obtain ⟨hstart, hearly⟩ := hc.past_start host (.inr (by simp [ht]))
    refine inv_exec hstored hc (hpod.setThreads hstart hearly hpod.election ?_) hstart hearly
      hexec ?_
    · rintro t'' ⟨⟩ i hi
      exact ((exec_advances hexec).mem i hi).elim (hpod.monitor t ht i) id
    · intro wr rest htodo _
      exact hminor wr (hpod.monitor t ht _ (htodo ▸ List.mem_cons_self))
  | electionRound host t ht =>
    have hpod := hc.pods host
    obtain ⟨hstart, hearly⟩ := hc.past_start host (.inl (by simp [ht]))
    simp only [Inv, World.setPod, hstored]
    refine ⟨c, hc.setPod (hpod.setThreads hstart hearly ?_ hpod.monitor)⟩
    rintro t' ⟨⟩ i hi
    cases List.mem_singleton.mp hi
    trivial
  | monitorRound host t ht =>
    have hpod := hc.pods host
    obtain ⟨hstart, hearly⟩ := hc.past_start host (.inr (by simp [ht]))
    simp only [Inv, World.setPod, hstored]
    refine ⟨c, hc.setPod (hpod.setThreads hstart hearly hpod.election ?_)⟩
    rintro t' ⟨⟩ i hi
    cases List.mem_singleton.mp hi
    trivial
  | restart host =>
    simp only [Inv, World.setPod, hstored]
    exact ⟨c, hc.setPod (podInv_restart c o.value host)⟩

theorem inv_invariant (replicas ttl : Nat) : (system False replicas ttl).Invariant Inv := by
  refine TSys.Inductive.invariant ⟨?_, ?_⟩
  · intro w hw
    have hstored : w.config.stored = none := by simp [Server.stored, hw.config]
    simp only [Inv, hstored]
    exact ⟨fun host => .inl (by rw [hw.pods]), fun host => by rw [hw.pods]; exact ⟨rfl, rfl⟩,
      hw.log⟩
  · intro w w' h hs
    cases hobject : w.config.object with
    | none =>
      have hstored : w.config.stored = none := by simp [Server.stored, hobject]
      exact inv_step_missing (by simpa only [Inv, hstored] using h) hobject hs
    | some o =>
      obtain ⟨c, hc⟩ : ∃ c, Created c o.value w.pods w.log := by
        simpa only [Inv, stored_of_object hobject] using h
      exact inv_step_created hc hobject hs

/-- At most one pod ever bootstraps the cluster. -/
theorem one_pod_bootstraps (replicas ttl : Nat) :
    (system False replicas ttl).Invariant fun w =>
      ∀ a b, Event.bootstrap a ∈ w.log → Event.bootstrap b ∈ w.log → a = b := by
  intro w hw a b ha hb
  have h := inv_invariant replicas ttl w hw
  cases hobject : w.config.object with
  | none =>
    have hstored : w.config.stored = none := by simp [Server.stored, hobject]
    have hm : Missing w := by simpa only [Inv, hstored] using h
    simp [hm.log] at ha
  | some o =>
    obtain ⟨c, hc⟩ : ∃ c, Created c o.value w.pods w.log := by
      simpa only [Inv, stored_of_object hobject] using h
    exact (hc.log a ha).trans (hc.log b hb).symm

/-! ## An interrupted bootstrap -/

/-- A pod that waits for a state it will not write itself. -/
structure Stalled (cm : ConfigMap) (host : Host) (pod : Pod) : Prop where
  outside : pod.main.Outside
  threads : pod.election = none ∧ pod.monitor = none
  views : pod.main.ViewsNew → cm.leader ≠ host.name
  first : pod.main.FirstRead

theorem stalled_restart (cm : ConfigMap) (host : Host) :
    Stalled cm host ⟨.state .isNew, none, none⟩ :=
  ⟨trivial, ⟨rfl, rfl⟩, fun h => h.elim, trivial⟩

/-- Every pod waits for a state that nobody is left to write. -/
structure Stuck (cm : ConfigMap) (log : List Event) (w : World) : Prop where
  stored : w.config.stored = some cm
  log : w.log = log
  pods : ∀ host, Stalled cm host (w.pods host)

theorem Stuck.update {cm : ConfigMap} {log : List Event} {w : World} (h : Stuck cm log w)
    {host : Host} {pod : Pod} (hpod : Stalled cm host pod) :
    Stuck cm log { w.setPod host pod with log := [] ++ w.log } := by
  refine ⟨h.stored, h.log, fun other => ?_⟩
  by_cases hother : other = host
  · subst hother
    simpa [World.setPod] using hpod
  · simpa [World.setPod, hother] using h.pods other

theorem stuck_step {replicas ttl : Nat} {cm : ConfigMap} {log : List Event} {w w' : World}
    (hinit : cm.state = .init) (h : Stuck cm log w) (hs : Step False replicas ttl w w') :
    Stuck cm log w' := by
  obtain ⟨o, ho, rfl⟩ := object_of_stored h.stored
  have hrun : ∀ {host : Host} {t : Thread}, (w.pods host).main = .run t →
      t = ⟨none, joinProgram⟩ := by
    intro host t hmain
    have hout := (h.pods host).outside
    rwa [hmain] at hout
  cases hs with
  | tick now _ => exact { h with }
  | move host pc log' hmove =>
    have hstate : ¬ o.value.state.Settled := by simp [hinit, ClusterState.Settled]
    obtain ⟨houtside, hthreads, hviews, hfirst⟩ := h.pods host
    obtain ⟨hout, rfl⟩ := outside_move hmove houtside hfirst ho hstate hviews
    refine h.update ⟨hout, hthreads, fun hnew => ?_, firstRead_move hmove hfirst ho⟩
    rcases viewsNew_move hmove ho hnew with hold | ⟨_, _, hstate⟩
    · exact hviews hold
    · simp [hinit] at hstate
  | created host site draft _ hnone => simp [hnone] at ho
  | main host t t' config hmain hexec => exact absurd (hrun hmain) (exec_not_join hexec)
  | launchElection host rest hmain => simpa [joinProgram] using hrun hmain
  | launchMonitor host rest hmain => simpa [joinProgram] using hrun hmain
  | election host t t' config ht _ => simp [(h.pods host).threads.1] at ht
  | monitor host t t' config ht _ => simp [(h.pods host).threads.2] at ht
  | electionRound host t ht => simp [(h.pods host).threads.1] at ht
  | monitorRound host t ht => simp [(h.pods host).threads.2] at ht
  | restart host => exact h.update (stalled_restart _ host)

/-- Once the leader was restarted with the state at `init`, the ConfigMap never changes again and
no pod ever launches `mysqld`, whatever the pods do. -/
theorem interrupted_bootstrap_never_resumes (replicas ttl : Nat) {w w' : World} {cm : ConfigMap}
    {leader : Host} (hw : (system False replicas ttl).Reachable w)
    (hstored : w.config.stored = some cm) (hinit : cm.state = .init)
    (hleader : cm.leader = leader.name) (hrestarted : (w.pods leader).main = .state .isNew)
    (hrun : Relation.ReflTransGen (Step False replicas ttl) w w') :
    w'.config.stored = some cm ∧ w'.log = w.log := by
  have hstuck : Stuck cm w.log w := by
    obtain ⟨c, hc⟩ : ∃ c, Created c cm w.pods w.log := by
      simpa only [Inv, hstored] using inv_invariant replicas ttl w hw
    have hstate : ¬ cm.state.Settled := by simp [hinit, ClusterState.Settled]
    obtain rfl : c = leader := Host.ext_name ((hc.leader hstate).symm.trans hleader)
    refine ⟨hstored, rfl, fun host => ?_⟩
    have hpod := hc.pods host
    by_cases hhost : host = c
    · subst hhost
      obtain ⟨helection, hmonitor⟩ := hpod.off (.inl hrestarted)
      refine ⟨hrestarted ▸ trivial, ⟨helection, hmonitor⟩, fun hviews => ?_, hpod.first⟩
      rw [hrestarted] at hviews
      exact hviews.elim
    · obtain ⟨hout, hthreads⟩ := hpod.early hstate hhost
      exact ⟨hout, hthreads, hpod.views hhost, hpod.first⟩
  have hend : Stuck cm w.log w' := by
    induction hrun with
    | refl => exact hstuck
    | tail _ hs ih => exact stuck_step hinit ih hs
  exact ⟨hend.stored, hend.log⟩

/-- The first pod of a StatefulSet, and a fresh namespace. -/
def server0 : Host := ⟨"mariadb-server-0", by decide⟩

def freshWorld : World := ⟨Server.empty, fun _ => ⟨.state .isNew, none, none⟩, 0, []⟩

/-- The first pod creates the ConfigMap, writes `init` and is restarted; nothing changes after. -/
theorem interrupted_bootstrap_never_resumes_server0 :
    ∃ w cm, (system False 3 120).Reachable w ∧ w.config.stored = some cm ∧ cm.state = .init ∧
      ∀ w', Relation.ReflTransGen (Step False 3 120) w w' →
        w'.config.stored = some cm ∧ w'.log = [] := by
  have hfresh : (system False 3 120).Reachable freshWorld := .init ⟨rfl, fun _ => rfl, rfl⟩
  have habsent := hfresh.step (.move _ server0 _ _ (.stateFails .isNew (.inl rfl)))
  have hdraft := habsent.step (.move _ server0 _ _ (.draft .isNew false (by simp [World.MayAnswer])))
  have hensure := hdraft.step (.move _ server0 _ _ (.notEnsured .isNew ⟨false, 120⟩ (.inl rfl)))
  have hcreated := hensure.step (.created _ server0 .isNew ⟨false, 120⟩ rfl rfl)
  have hleads := hcreated.step (.move _ server0 _ _ (.leads _ rfl rfl))
  have hread := hleads.step (.main _ server0 _ _ _ rfl (.read _ _ _ rfl))
  have hpatched := hread.step (.main _ server0 _ _ _ rfl (.patched _ _ _ _ rfl))
  have hrestart := hpatched.step (.restart _ server0)
  refine ⟨_, _, hrestart, rfl, rfl, fun w' hrun => ?_⟩
  exact @interrupted_bootstrap_never_resumes 3 120 _ w' _ server0 hrestart rfl rfl rfl rfl hrun

end OpenstackBlueprint.Mariadb
