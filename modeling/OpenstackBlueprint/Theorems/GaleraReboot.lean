import OpenstackBlueprint.Mariadb.Start

/-!
# Who may form a new Galera cluster

`mysqld --wsrep-new-cluster` makes a pod's data the data of the cluster. In every
run, whatever reads fail, patches collide and pods restart, a pod launches it only
after one of three things (`new_cluster_is_vouched`): the pod bootstrapped the
cluster, the cluster has a single replica, or the pod was resolved from the
recorded positions as one with the highest sequence number, none of them unknown.

The pod keeps the right across restarts only through the annotation
`reboot.node`, so the invariant also says that a name stands there only when its
pod is entitled to it.
-/

namespace OpenstackBlueprint.Mariadb

open OpenstackBlueprint.Kit

/-- No recorded position is unknown, and none is ahead of the pod's own. -/
def Highest (data : Dict String String) (host : Host) : Prop :=
  ∃ positions own, seqnos data = some positions ∧ positions.get? host.name = some own ∧
    (∀ node n, positions.get? node = some n → 0 ≤ n ∧ n ≤ own)

/-- What entitles a pod to form a new cluster, in the log. -/
def Vouched (replicas : Nat) (log : List Event) (host : Host) : Prop :=
  replicas ≤ 1 ∨ Event.bootstrap host ∈ log ∨
    ∃ data, Event.won host data ∈ log ∧ Highest data host

theorem Vouched.append {replicas : Nat} {log : List Event} {host : Host}
    (h : Vouched replicas log host) (events : List Event) :
    Vouched replicas (events ++ log) host := by
  rcases h with h | h | ⟨data, h, hhighest⟩
  · exact .inl h
  · exact .inr (.inl (List.mem_append_right _ h))
  · exact .inr (.inr ⟨data, List.mem_append_right _ h, hhighest⟩)

/-! ## The resolved pod -/

theorem resolveFrom_mem {lowest : Int} {leader name : String} {nodes : List String}
    (h : resolveFrom lowest leader nodes = some name) : name = leader ∨ name ∈ nodes := by
  induction nodes generalizing lowest leader with
  | nil => exact .inl (Option.some.inj h).symm
  | cons node rest ih =>
    cases hnum : nodeNum node with
    | none => simp [resolveFrom, hnum] at h
    | some nodenum =>
      simp only [resolveFrom, hnum, Option.bind_eq_bind, Option.bind_some] at h
      split at h
      · rcases ih h with rfl | hmem
        · exact .inr List.mem_cons_self
        · exact .inr (List.mem_cons_of_mem _ hmem)
      · rcases ih h with rfl | hmem
        · exact .inl rfl
        · exact .inr (List.mem_cons_of_mem _ hmem)

theorem resolveLeaderNode_mem {nodes : List String} {name : String}
    (h : resolveLeaderNode nodes = some name) : name ∈ nodes := by
  cases nodes with
  | nil => cases h
  | cons first rest =>
    rcases resolveFrom_mem h with rfl | hmem
    · exact List.mem_cons_self
    · exact hmem

/-- The pod that `check_if_i_lead` resolves has the highest position. -/
theorem highest_of_resolved {data : Dict String String} {nodes : List String} {host : Host}
    (hnodes : getNodesWithHighestSeqno data = some (some nodes))
    (hleader : resolveLeaderNode nodes = some host.name) : Highest data host := by
  unfold getNodesWithHighestSeqno at hnodes
  obtain ⟨positions, hpositions, hnodes⟩ := Option.bind_eq_some_iff.mp hnodes
  obtain ⟨own, hown, hnodes⟩ := Option.bind_eq_some_iff.mp hnodes
  dsimp only at hnodes
  split at hnodes
  · cases hnodes
  · rename_i hknown
    cases hnodes
    have hmem := resolveLeaderNode_mem hleader
    rw [mem_sortAlpha] at hmem
    obtain ⟨⟨name, n⟩, hfiltered, rfl⟩ := List.mem_map.mp hmem
    obtain ⟨hentry, hn⟩ := List.mem_filter.mp hfiltered
    obtain rfl : n = own := by simpa using hn
    refine ⟨positions, n, hpositions, Dict.get?_of_mem_entries hentry, fun node m hm => ?_⟩
    have hvalue : m ∈ positions.values :=
      List.mem_map.mpr ⟨(node, m), Dict.mem_entries_of_get? hm, rfl⟩
    refine ⟨?_, (List.max?_eq_some_iff.mp hown).2 m hvalue⟩
    by_contra hneg
    exact hknown (List.any_eq_true.mpr ⟨m, hvalue, by simpa using hneg⟩)

/-! ## Programs -/

/-- Every launch of a new cluster, and every claim to the reboot, is allowed by `V` or stands
behind an instruction that vouches for the pod. -/
@[simp] def Guarded (host : Host) (V : Prop) : List Instr → Prop
  | [] => True
  | .ifHighest :: rest | .bootstrap :: rest => Guarded host True rest
  | .mysqld true :: rest => V ∧ Guarded host V rest
  | .write (.rebootNode name) :: rest => (name = "" ∨ name = host.name ∧ V) ∧ Guarded host V rest
  | _ :: rest => Guarded host V rest

section Guarded

variable {host : Host} {V V' : Prop} {i : Instr} {l rest added : List Instr}

theorem Guarded.mono (h : Guarded host V l) (hV : V → V') : Guarded host V' l := by
  induction V, l using Guarded.induct generalizing V' with
  | case1 => trivial
  | case2 V rest ih => exact h
  | case3 V rest ih => exact h
  | case4 V rest ih => exact ⟨hV h.1, ih h.2 hV⟩
  | case5 V name rest ih => exact ⟨h.1.imp id fun h => ⟨h.1, hV h.2⟩, ih h.2 hV⟩
  | case6 V i rest hhighest hboot hmysqld hreboot ih =>
    simp only [Guarded] at h ⊢
    exact ih h hV

/-- Executing an instruction that vouches for nothing. -/
theorem Guarded.tail (h : Guarded host V (i :: rest)) (hhighest : i ≠ .ifHighest)
    (hboot : i ≠ .bootstrap) : Guarded host V rest := by
  unfold Guarded at h
  split at h
  · rename_i heq
    cases heq
  · rename_i heq
    cases heq
    exact absurd rfl hhighest
  · rename_i heq
    cases heq
    exact absurd rfl hboot
  · rename_i heq
    cases heq
    exact h.2
  · rename_i heq
    cases heq
    exact h.2
  · rename_i heq
    cases heq
    exact h

/-- Executing one that does. -/
theorem Guarded.vouched (h : Guarded host V (i :: rest)) (hi : i = .ifHighest ∨ i = .bootstrap)
    (hV : V') : Guarded host V' rest := by
  rcases hi with rfl | rfl
  · exact Guarded.mono (show Guarded host True rest from h) fun _ => hV
  · exact Guarded.mono (show Guarded host True rest from h) fun _ => hV

theorem Guarded.minor (h : Guarded host V rest) (hminor : ∀ m ∈ added, m.Minor host) :
    Guarded host V (added ++ rest) := by
  induction added with
  | nil => exact h
  | cons m added ih =>
    have hm := hminor m List.mem_cons_self
    have hrest := ih fun m hm => hminor m (List.mem_cons_of_mem _ hm)
    unfold Instr.Minor at hm
    split at hm <;> simp_all

theorem guarded_bootstrapProgram : Guarded host V bootstrapProgram := by
  simp [bootstrapProgram, runMysqld]

theorem guarded_joinRest : Guarded host V joinRest := by
  simp [joinRest, runMysqld]

theorem guarded_joinProgram : Guarded host V joinProgram := by
  simpa [joinProgram] using guarded_joinRest

theorem guarded_runMysqld : Guarded host V (runMysqld false) := by
  simp [runMysqld]

theorem guarded_waitForLead : Guarded host V waitForLead := by
  simp [waitForLead, runMysqld]

theorem guarded_liveProgram {replicas : Nat} {log : List Event} :
    Guarded host (Vouched replicas log host) (liveProgram replicas host) := by
  unfold liveProgram
  split
  · simp [mysqldReboot, runMysqld]
  · rename_i hreplicas
    have hvouched : Vouched replicas log host := .inl (by omega)
    simp [mysqldReboot, runMysqld, hvouched]

theorem guarded_rebootProgram {mine : Bool} (h : mine = true → V) :
    Guarded host V (rebootProgram mine) := by
  unfold rebootProgram
  split
  · rename_i hmine
    simp [mysqldReboot, runMysqld, h hmine]
  · simp [runMysqld]

end Guarded

/-- A call of `get_cluster_state` keeps the guard. -/
theorem guarded_returned {replicas : Nat} {host : Host} {log : List Event} {site : Site}
    (h : Guarded host (Vouched replicas log host) site.pending) (s : ClusterState) :
    Guarded host (Vouched replicas log host) (returned replicas host s site).pending := by
  cases site with
  | isNew =>
    dsimp only [returned]
    split <;> exact h
  | isInit =>
    dsimp only [returned]
    split
    · exact guarded_joinProgram
    · exact h
  | isLive =>
    dsimp only [returned]
    split
    · exact guarded_liveProgram
    · exact h
  | isReboot =>
    dsimp only [returned]
    split <;> exact h
  | await rest =>
    dsimp only [returned]
    split <;> exact h
  | lead rest =>
    dsimp only [returned]
    split
    · exact h
    · exact guarded_waitForLead

/-! ## The invariant -/

/-- Whoever launched, claims or is about to form a new cluster is entitled to it. -/
structure Entitled (replicas : Nat) (w : World) : Prop where
  log : ∀ recent past host, w.log = recent ++ Event.mysqld host true :: past →
    Vouched replicas past host
  reboot : ∀ cm host, w.config.stored = some cm → cm.rebootNode = host.name →
    Vouched replicas w.log host
  main : ∀ host, Guarded host (Vouched replicas w.log host) (w.pods host).main.pending
  threads : ∀ host t, (w.pods host).election = some t ∨ (w.pods host).monitor = some t →
    ∀ i ∈ t.todo, i.Minor host

section Steps

variable {readsFail : Prop} {replicas ttl : Nat} {w w' : World} {host : Host} {pc : Pc}
  {log : List Event} {t t' : Thread} {config : Server ConfigMap}

/-- A move of the main logic keeps the guard, and launches a new cluster only when vouched for. -/
theorem guarded_move (h : Entitled replicas w)
    (hmove : Move readsFail replicas ttl w host (w.pods host).main pc log) :
    Guarded host (Vouched replicas (log ++ w.log) host) pc.pending ∧
      (log = [] ∨ ∃ event, log = [event] ∧
        ∀ other, event = .mysqld other true → Vouched replicas w.log other) := by
  have hmain := h.main host
  generalize (w.pods host).main = before at hmove hmain
  cases hmove with
  | state o site pc ho hpc => exact ⟨hpc ▸ guarded_returned hmain _, .inl rfl⟩
  | stateFails site _ => exact ⟨hmain, .inl rfl⟩
  | draft site active _ => exact ⟨hmain, .inl rfl⟩
  | ensured o site draft pc ho hpc => exact ⟨hpc ▸ guarded_returned hmain _, .inl rfl⟩
  | notEnsured site draft _ => exact ⟨hmain, .inl rfl⟩
  | leads o _ _ => exact ⟨guarded_bootstrapProgram, .inl rfl⟩
  | joins o _ _ => exact ⟨guarded_joinProgram, .inl rfl⟩
  | reboots o mine ho hmine =>
    refine ⟨guarded_rebootProgram fun htrue => ?_, .inl rfl⟩
    have hstored : w.config.stored = some o.value := by simp [Server.stored, ho]
    exact h.reboot o.value host hstored (hmine.mp htrue)
  | bootstrap rest =>
    refine ⟨hmain.vouched (.inr rfl) ?_, .inr ⟨_, rfl, by rintro other ⟨⟩⟩⟩
    exact .inr (.inl List.mem_cons_self)
  | awaitLive rest => exact ⟨hmain.tail (by simp) (by simp), .inl rfl⟩
  | awaitActive rest _ => exact ⟨hmain.tail (by simp) (by simp), .inl rfl⟩
  | active rest _ => exact ⟨guarded_runMysqld, .inl rfl⟩
  | noneActive rest => exact ⟨hmain.tail (by simp) (by simp), .inl rfl⟩
  | highest o nodes rest ho hnodes hleader =>
    refine ⟨hmain.vouched (.inl rfl) ?_, .inr ⟨_, rfl, by rintro other ⟨⟩⟩⟩
    exact .inr (.inr ⟨_, List.mem_cons_self, highest_of_resolved hnodes hleader⟩)
  | notHighest o nodes leader rest _ _ _ _ => exact ⟨guarded_waitForLead, .inl rfl⟩
  | inactive rest => exact ⟨hmain.tail (by simp) (by simp), .inl rfl⟩
  | notInactive rest _ => exact ⟨guarded_waitForLead, .inl rfl⟩
  | ifLive rest => exact ⟨hmain.tail (by simp) (by simp), .inl rfl⟩
  | mysqld newCluster rest =>
    refine ⟨(hmain.tail (by simp) (by simp)).mono fun hv => hv.append _, .inr ⟨_, rfl, ?_⟩⟩
    rintro other ⟨⟩
    exact (show Vouched replicas w.log host ∧ _ from hmain).1

/-- The program of a thread that executes an instruction starts with none that vouches. -/
theorem exec_head (h : Exec ttl w.now host w.config t t' config) :
    ∃ i rest, t.todo = i :: rest ∧ i ≠ .ifHighest ∧ i ≠ .bootstrap := by
  cases h <;> exact ⟨_, _, rfl, by simp, by simp⟩

theorem guarded_exec {V : Prop} (h : Guarded host V t.todo)
    (hexec : Exec ttl w.now host w.config t t' config) : Guarded host V t'.todo := by
  obtain ⟨i, rest, htodo, hhighest, hboot⟩ := exec_head hexec
  rcases exec_advances hexec with heq | ⟨j, added, rest', htodo', hadded, hminor⟩
  · exact heq ▸ h
  · rw [htodo] at htodo' h
    cases htodo'
    rw [hadded]
    exact (h.tail hhighest hboot).minor hminor

/-- An instruction leaves in `reboot.node` the name that was there, none, or an entitled pod. -/
theorem reboot_exec (h : Entitled replicas w)
    (hexec : Exec ttl w.now host w.config t t' config)
    (hwrite : ∀ name rest, t.todo = .write (.rebootNode name) :: rest →
      name = "" ∨ name = host.name ∧ Vouched replicas w.log host) :
    ∀ cm other, config.stored = some cm → cm.rebootNode = other.name →
      Vouched replicas w.log other := by
  intro cm other hstored hname
  rcases exec_config hexec with rfl | ⟨wr, rest, o, htodo, _, hobject, rfl⟩
  · exact h.reboot cm other hstored hname
  · have hold : w.config.stored = some o.value := by simp [Server.stored, hobject]
    rw [Server.stored_set] at hstored
    obtain rfl : wr.apply o.value = cm := Option.some.inj hstored
    cases wr with
    | state s => exact h.reboot _ other hold hname
    | leader name => exact h.reboot _ other hold hname
    | expiry time => exact h.reboot _ other hold hname
    | data key value => exact h.reboot _ other hold hname
    | rebootNode name =>
      rcases hwrite name rest htodo with rfl | ⟨rfl, hvouched⟩
      · exact absurd hname.symm other.nonempty
      · have hother : host = other := Host.ext_name hname
        exact hother ▸ hvouched

/-- A pod that keeps its program guarded and its threads minor keeps the invariant, on a
ConfigMap that names an entitled pod. -/
theorem Entitled.update {pod : Pod} {now : Nat} (h : Entitled replicas w)
    (hmain : Guarded host (Vouched replicas w.log host) pod.main.pending)
    (hthreads : ∀ t, pod.election = some t ∨ pod.monitor = some t → ∀ i ∈ t.todo, i.Minor host)
    (hreboot : ∀ cm other, config.stored = some cm → cm.rebootNode = other.name →
      Vouched replicas w.log other) :
    Entitled replicas ⟨config, Function.update w.pods host pod, now, w.log⟩ where
  log := h.log
  reboot := hreboot
  main := by
    intro other
    by_cases hother : other = host
    · subst hother
      simpa using hmain
    · simpa [hother] using h.main other
  threads := by
    intro other
    by_cases hother : other = host
    · subst hother
      simpa using hthreads
    · simpa [hother] using h.threads other

/-- The log grows by at most one event, which is vouched for when it has to be. -/
theorem entitled_log (h : Entitled replicas w)
    (hlog : log = [] ∨ ∃ event, log = [event] ∧
      ∀ other, event = .mysqld other true → Vouched replicas w.log other) :
    ∀ recent past other, log ++ w.log = recent ++ Event.mysqld other true :: past →
      Vouched replicas past other := by
  intro recent past other heq
  rcases hlog with rfl | ⟨event, rfl, hevent⟩
  · exact h.log recent past other heq
  · cases recent with
    | nil =>
      obtain ⟨hhead, rfl⟩ : event = .mysqld other true ∧ w.log = past := by simpa using heq
      exact hevent other hhead
    | cons first recent =>
      exact h.log recent past other (List.cons.inj heq).2

theorem entitled_step (h : Entitled replicas w) (hs : Step readsFail replicas ttl w w') :
    Entitled replicas w' := by
  cases hs with
  | tick now _ => exact { h with }
  | move host pc log hmove =>
    obtain ⟨hmain, hlog⟩ := guarded_move h hmove
    refine ⟨entitled_log h hlog, ?_, ?_, ?_⟩
    · intro cm other hstored hname
      exact (h.reboot cm other hstored hname).append log
    · intro other
      by_cases hother : other = host
      · subst hother
        simpa [World.setPod] using hmain
      · simpa [World.setPod, hother] using (h.main other).mono fun hv => hv.append log
    · intro other
      by_cases hother : other = host
      · subst hother
        simpa [World.setPod] using h.threads other
      · simpa [World.setPod, hother] using h.threads other
  | created host site draft hmain _ =>
    have hpending := h.main host
    rw [hmain] at hpending
    refine h.update (guarded_returned hpending _) (h.threads host) ?_
    intro cm other hstored hname
    obtain rfl : initialConfigmap host draft = cm := Option.some.inj hstored
    exact absurd hname.symm other.nonempty
  | main host t t' config hmain hexec =>
    have hpending := h.main host
    rw [hmain] at hpending
    refine h.update (guarded_exec hpending hexec) (h.threads host) (reboot_exec h hexec ?_)
    intro name rest htodo
    have hguard : Guarded host (Vouched replicas w.log host) (.write (.rebootNode name) :: rest) :=
      htodo ▸ hpending
    exact hguard.1
  | launchElection host rest hmain =>
    have hpending := h.main host
    rw [hmain] at hpending
    refine h.update (hpending.tail (by simp) (by simp)) ?_ h.reboot
    rintro t (ht | ht)
    · exact minor_launched (fun t ht => h.threads host t (.inl ht)) t ht
    · exact h.threads host t (.inr ht)
  | launchMonitor host rest hmain =>
    have hpending := h.main host
    rw [hmain] at hpending
    refine h.update (hpending.tail (by simp) (by simp)) ?_ h.reboot
    rintro t (ht | ht)
    · exact h.threads host t (.inl ht)
    · exact minor_launched (fun t ht => h.threads host t (.inr ht)) t ht
  | election host t t' config ht hexec =>
    have hminor := h.threads host t (.inl ht)
    refine h.update (h.main host) ?_ (reboot_exec h hexec ?_)
    · rintro t'' (heq | hmonitor)
      · cases heq
        intro i hi
        exact ((exec_advances hexec).mem i hi).elim (hminor i) id
      · exact h.threads host t'' (.inr hmonitor)
    · intro name rest htodo
      exact False.elim (hminor (.write (.rebootNode name)) (htodo ▸ List.mem_cons_self))
  | monitor host t t' config ht hexec =>
    have hminor := h.threads host t (.inr ht)
    refine h.update (h.main host) ?_ (reboot_exec h hexec ?_)
    · rintro t'' (helection | heq)
      · exact h.threads host t'' (.inl helection)
      · cases heq
        intro i hi
        exact ((exec_advances hexec).mem i hi).elim (hminor i) id
    · intro name rest htodo
      exact False.elim (hminor (.write (.rebootNode name)) (htodo ▸ List.mem_cons_self))
  | electionRound host t ht =>
    refine h.update (h.main host) ?_ h.reboot
    rintro t' (heq | hmonitor)
    · cases heq
      simp [Instr.Minor]
    · exact h.threads host t' (.inr hmonitor)
  | monitorRound host t ht =>
    refine h.update (h.main host) ?_ h.reboot
    rintro t' (helection | heq)
    · exact h.threads host t' (.inl helection)
    · cases heq
      simp [Instr.Minor]
  | restart host =>
    refine h.update trivial ?_ h.reboot
    rintro t (⟨⟨⟩⟩ | ⟨⟨⟩⟩)

end Steps

/-- In every run, a pod that launches a new cluster was vouched for before. -/
theorem new_cluster_is_vouched (readsFail : Prop) (replicas ttl : Nat) :
    (system readsFail replicas ttl).Invariant fun w => ∀ recent past host,
      w.log = recent ++ Event.mysqld host true :: past → Vouched replicas past host := by
  intro w hw
  have hinv : (system readsFail replicas ttl).Invariant (Entitled replicas) := by
    refine TSys.Inductive.invariant ⟨?_, fun w w' h hs => entitled_step h hs⟩
    intro w hw
    refine ⟨?_, ?_, ?_, ?_⟩
    · intro recent past host heq
      simp [hw.log] at heq
    · intro cm host hstored
      simp [Server.stored, hw.config] at hstored
    · intro host
      rw [hw.pods]
      trivial
    · intro host t ht
      simp [hw.pods] at ht
  exact (hinv w hw).log

end OpenstackBlueprint.Mariadb
