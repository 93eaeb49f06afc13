import OpenstackBlueprint.Kit.Dict
import OpenstackBlueprint.Kit.Occ
import OpenstackBlueprint.Kit.Python
import OpenstackBlueprint.Kit.TSys
import OpenstackBlueprint.Kit.Text

/-!
# The start script of a Galera pod

`start.py` of the mariadb chart. Every pod of the StatefulSet runs it; the pods
know each other only through one ConfigMap, whose annotations hold the state of
the cluster, a leader with a lease, and the pod that reboots the cluster. A
write to it is a read followed by a patch under the version that was read, and a
patch that collides is dropped.

A pod has up to three threads: the main logic, the leader election and the
monitor. Each is a list of instructions of the script still to be executed; one
step of the system is one request of one thread. A pod may be restarted at any
point, which ends its threads and keeps its disk.
-/

namespace OpenstackBlueprint.Mariadb

open OpenstackBlueprint.Kit

/-! ## The state ConfigMap -/

/-- The annotation `openstackhelm.openstack.org/cluster.state`. -/
inductive ClusterState
  | new
  | init
  | live
  | reboot
deriving DecidableEq, Repr

/-- The name of a pod, which Kubernetes never leaves empty. -/
structure Host where
  name : String
  nonempty : name ≠ ""
deriving DecidableEq

theorem Host.ext_name {a b : Host} (h : a.name = b.name) : a = b := by
  cases a
  cases b
  simpa using h

/-- The state ConfigMap: its four annotations and its data. Times are seconds. -/
structure ConfigMap where
  state : ClusterState
  leader : String
  expiry : Nat
  rebootNode : String
  data : Dict String String
deriving DecidableEq

/-- The value `set_configmap_annotation` or `set_configmap_data` gives to one key. -/
inductive Write
  | state (s : ClusterState)
  | leader (name : String)
  | expiry (t : Nat)
  | rebootNode (name : String)
  | data (key value : String)

/-- The merge of a patch. -/
def Write.apply (cm : ConfigMap) : Write → ConfigMap
  | state s => { cm with state := s }
  | leader name => { cm with leader := name }
  | expiry t => { cm with expiry := t }
  | rebootNode name => { cm with rebootNode := name }
  | data key value => { cm with data := cm.data.set key value }

/-! ## Sequence numbers -/

/-- The two names a data key is read as: `key.split('.')[0]` and `[1]`. -/
def keyItems (key : String) : Option (String × String) :=
  match splitList '.' key with
  | first :: second :: _ => some (first, second)
  | _ => none

/-- The `seqnos` of `get_nodes_with_highest_seqno`; `none` where the loop raises. -/
def seqnos (data : Dict String String) : Option (Dict String Int) :=
  data.entries.foldlM (fun seqnos e => do
    let (key, node) ← keyItems e.1
    if key = "seqno" then
      let n ← pyInt e.2
      some (seqnos.set node n)
    else some seqnos) Dict.empty

/-- `get_nodes_with_highest_seqno`: `none` where it raises, `some none` where it waits for the
next sample because a node has not reported a position yet. -/
def getNodesWithHighestSeqno (data : Dict String String) : Option (Option (List String)) := do
  let seqnos ← seqnos data
  let maxSeqno ← seqnos.values.max?
  let nodes := sortAlpha ((seqnos.entries.filter fun e => e.2 = maxSeqno).map Prod.fst)
  if seqnos.values.any (· < 0) then some none else some (some nodes)

/-- `int(nodename[nodename.rindex('-') + 1:])`. -/
def nodeNum (nodename : String) : Option Int :=
  match (splitList '-' nodename).reverse with
  | last :: _ :: _ => pyInt last
  | _ => none

/-- The loop of `resolve_leader_node`. -/
def resolveFrom (lowest : Int) (leader : String) : List String → Option String
  | [] => some leader
  | nodename :: rest => do
    let nodenum ← nodeNum nodename
    if nodenum < lowest then resolveFrom nodenum nodename rest
    else resolveFrom lowest leader rest

/-- `resolve_leader_node`. -/
def resolveLeaderNode : List String → Option String
  | [] => none
  | first :: rest => resolveFrom (2 ^ 63 - 1) first (first :: rest)

/-! ## The script -/

/-- One instruction of the script, as far as it touches the cluster. -/
inductive Instr
  /-- `set_configmap_annotation`, `set_configmap_data`: a read, then a patch -/
  | write (w : Write)
  /-- the comparison of `update_grastate_configmap` before its `set_configmap_data` -/
  | record (key value : String)
  /-- `update_grastate_configmap` and, on a disk with no `grastate.dat`,
  `update_grastate_on_restart` -/
  | grastate
  /-- `declare_myself_cluster_leader` -/
  | declare
  /-- `deadmans_leader_election`: the read of the leader -/
  | elect
  /-- `deadmans_leader_election`: the read of the lease -/
  | renew (leader : String)
  | launchElection
  | launchMonitor
  /-- `mysqld_bootstrap` -/
  | bootstrap
  /-- `while not get_cluster_state() == 'live'` -/
  | awaitLive
  /-- `while not check_for_active_nodes()` -/
  | awaitActive
  /-- `if check_for_active_nodes()` of the live branch -/
  | unlessActive
  /-- the three tests of `check_if_i_lead` -/
  | ifHighest
  | ifInactive
  | ifLive
  /-- the launch of `mysqld` -/
  | mysqld (newCluster : Bool)

/-- `run_mysqld`. -/
def runMysqld (newCluster : Bool) : List Instr :=
  [.launchElection, .launchMonitor, .mysqld newCluster]

/-- `mysqld_reboot`. -/
def mysqldReboot : List Instr := .declare :: runMysqld true

/-- The first branch of the main logic, on the leader. -/
def bootstrapProgram : List Instr :=
  [.write (.state .init), .declare, .launchElection, .bootstrap, .grastate,
    .write (.state .live)] ++ runMysqld true

/-- After the wait for the cluster to be live. -/
def joinRest : List Instr := [.awaitActive, .launchElection] ++ runMysqld false

/-- The first branch on any other pod, and the second branch. -/
def joinProgram : List Instr := .awaitLive :: joinRest

/-- A pod that does not lead the reboot. -/
def waitForLead : List Instr :=
  [.awaitActive, .write (.state .live), .write (.rebootNode "")] ++ runMysqld false

/-- The third branch. -/
def liveProgram (replicas : Nat) (host : Host) : List Instr :=
  if 1 < replicas then
    [.unlessActive, .grastate, .launchElection, .launchMonitor, .ifHighest, .ifInactive, .ifLive,
      .write (.state .reboot), .write (.rebootNode host.name)] ++ mysqldReboot
  else .grastate :: mysqldReboot

/-- The fourth branch, on the pod that leads the reboot and on the others. -/
def rebootProgram (mine : Bool) : List Instr :=
  if mine then [.grastate, .launchElection, .launchMonitor] ++ mysqldReboot
  else [.grastate, .launchElection, .launchMonitor, .awaitActive, .write (.state .live)] ++
    runMysqld false

/-- A thread: what is left to execute, and the version its pending patch was read under. -/
structure Thread where
  held : Option Nat
  todo : List Instr

/-- Where `get_cluster_state` was called from. -/
inductive Site
  | isNew
  | isInit
  | isLive
  | isReboot
  /-- the loop that waits for `live`, with what follows it -/
  | await (rest : List Instr)
  /-- the last test of `check_if_i_lead`, with what follows it -/
  | lead (rest : List Instr)

/-- What `get_cluster_state` found when there was no ConfigMap: whether nodes are active, and
when the lease it is about to declare ends. -/
structure Draft where
  active : Bool
  expiry : Nat

/-- Where the main logic stands. -/
inductive Pc
  /-- `get_cluster_state`: before the read -/
  | state (site : Site)
  /-- `get_cluster_state`: the read raised -/
  | absent (site : Site)
  /-- `ensure_state_configmap`: before the read -/
  | ensuring (site : Site) (draft : Draft)
  /-- `ensure_state_configmap`: before the create -/
  | creating (site : Site) (draft : Draft)
  /-- the state was `new`: before the read of the leader -/
  | asking
  /-- the state was `reboot`: before the read of the rebooting pod -/
  | rebooting
  | run (thread : Thread)
  | exited

/-- What follows a `get_cluster_state` that returned `s`. -/
def returned (replicas : Nat) (host : Host) (s : ClusterState) : Site → Pc
  | .isNew => if s = .new then .asking else .state .isInit
  | .isInit => if s = .init then .run ⟨none, joinProgram⟩ else .state .isLive
  | .isLive => if s = .live then .run ⟨none, liveProgram replicas host⟩ else .state .isReboot
  | .isReboot => if s = .reboot then .rebooting else .exited
  | .await rest => if s = .live then .run ⟨none, rest⟩ else .state (.await rest)
  | .lead rest => if s = .live then .run ⟨none, rest⟩ else .run ⟨none, waitForLead⟩

/-- The state `get_cluster_state` declares when it found no ConfigMap. -/
def Draft.state (draft : Draft) : ClusterState := if draft.active then .live else .new

/-- The first pod of the StatefulSet: `"{0}-0".format("-".join(local_hostname.split("-")[:-1]))`. -/
def firstPod (host : Host) : String := join '-' (splitList '-' host.name).dropLast ++ "-0"

/-- `initial_configmap_body`. -/
def initialConfigmap (host : Host) (draft : Draft) : ConfigMap where
  state := draft.state
  leader := if draft.active then firstPod host else host.name
  expiry := draft.expiry
  rebootNode := ""
  data := Dict.empty

/-- The keys `update_grastate_configmap` samples, under the name of the pod. -/
def samples (host : Host) (values : String → String) : List Instr :=
  ["version", "uuid", "seqno", "safe_to_bootstrap", "sample_time"].map fun key =>
    .record (key ++ "." ++ host.name) (values key)

/-! ## The system -/

/-- A pod: its main logic, and the two threads once they are launched. -/
structure Pod where
  main : Pc
  election : Option Thread
  monitor : Option Thread

/-- What the log of a run tells. -/
inductive Event
  /-- `mysqld_bootstrap` was entered -/
  | bootstrap (host : Host)
  /-- `check_if_i_lead` resolved the pod from this data -/
  | won (host : Host) (data : Dict String String)
  /-- `mysqld` was launched -/
  | mysqld (host : Host) (newCluster : Bool)

/-- The namespace. The log is newest first. -/
structure World where
  config : Server ConfigMap
  pods : Host → Pod
  now : Nat
  log : List Event

namespace World

/-- Pod `host` moves on. -/
def setPod (w : World) (host : Host) (pod : Pod) : World :=
  { w with pods := Function.update w.pods host pod }

/-- Endpoints are active only once some pod has launched `mysqld`. -/
def MayAnswer (w : World) (active : Bool) : Prop :=
  active = true → ∃ host newCluster, Event.mysqld host newCluster ∈ w.log

end World

section System

-- whether a read can fail although the ConfigMap exists: the script takes any failed read for
-- a missing ConfigMap
variable (readsFail : Prop) (replicas ttl : Nat)

/-- One instruction that any thread can execute. A patch is applied or dropped; the script
goes on in both cases. -/
inductive Exec (now : Nat) (host : Host) (config : Server ConfigMap) :
    Thread → Thread → Server ConfigMap → Prop
  | read (o : Versioned ConfigMap) (w : Write) (rest : List Instr) :
      config.object = some o →
      Exec now host config ⟨none, .write w :: rest⟩ ⟨some o.version, .write w :: rest⟩ config
  | patched (version : Nat) (w : Write) (rest : List Instr) (config' : Server ConfigMap) :
      config.patch version w.apply = some config' →
      Exec now host config ⟨some version, .write w :: rest⟩ ⟨none, rest⟩ config'
  | dropped (version : Nat) (w : Write) (rest : List Instr) :
      Exec now host config ⟨some version, .write w :: rest⟩ ⟨none, rest⟩ config
  | same (o : Versioned ConfigMap) (key value : String) (rest : List Instr) :
      config.object = some o → o.value.data.get? key = some value →
      Exec now host config ⟨none, .record key value :: rest⟩ ⟨none, rest⟩ config
  | differs (o : Versioned ConfigMap) (key value : String) (rest : List Instr) :
      config.object = some o → o.value.data.get? key ≠ some value →
      Exec now host config ⟨none, .record key value :: rest⟩
        ⟨none, .write (.data key value) :: rest⟩ config
  | sample (values : String → String) (rest todo : List Instr) :
      todo = samples host values ++ rest →
      Exec now host config ⟨none, .grastate :: rest⟩ ⟨none, todo⟩ config
  | noSample (rest : List Instr) :
      Exec now host config ⟨none, .grastate :: rest⟩ ⟨none, rest⟩ config
  | declare (rest : List Instr) :
      Exec now host config ⟨none, .declare :: rest⟩
        ⟨none, .write (.leader host.name) :: .write (.expiry (now + ttl)) :: rest⟩ config
  | elect (o : Versioned ConfigMap) (rest : List Instr) :
      config.object = some o →
      Exec now host config ⟨none, .elect :: rest⟩ ⟨none, .renew o.value.leader :: rest⟩ config
  | renew (o : Versioned ConfigMap) (leader : String) (rest : List Instr) :
      config.object = some o → (o.value.expiry < now ∨ host.name = leader) →
      Exec now host config ⟨none, .renew leader :: rest⟩ ⟨none, .declare :: rest⟩ config
  | noRenew (o : Versioned ConfigMap) (leader : String) (rest : List Instr) :
      config.object = some o → ¬ (o.value.expiry < now ∨ host.name = leader) →
      Exec now host config ⟨none, .renew leader :: rest⟩ ⟨none, rest⟩ config

/-- One move of the main logic that leaves the ConfigMap alone: where it goes, and what it logs. -/
inductive Move (w : World) (host : Host) : Pc → Pc → List Event → Prop
  | state (o : Versioned ConfigMap) (site : Site) (pc : Pc) :
      w.config.object = some o → pc = returned replicas host o.value.state site →
      Move w host (.state site) pc []
  | stateFails (site : Site) :
      (w.config.object = none ∨ readsFail) → Move w host (.state site) (.absent site) []
  | draft (site : Site) (active : Bool) :
      w.MayAnswer active →
      Move w host (.absent site) (.ensuring site ⟨active, w.now + ttl⟩) []
  | ensured (o : Versioned ConfigMap) (site : Site) (draft : Draft) (pc : Pc) :
      w.config.object = some o → pc = returned replicas host draft.state site →
      Move w host (.ensuring site draft) pc []
  | notEnsured (site : Site) (draft : Draft) :
      (w.config.object = none ∨ readsFail) →
      Move w host (.ensuring site draft) (.creating site draft) []
  | leads (o : Versioned ConfigMap) :
      w.config.object = some o → o.value.leader = host.name →
      Move w host .asking (.run ⟨none, bootstrapProgram⟩) []
  | joins (o : Versioned ConfigMap) :
      w.config.object = some o → o.value.leader ≠ host.name →
      Move w host .asking (.run ⟨none, joinProgram⟩) []
  | reboots (o : Versioned ConfigMap) (mine : Bool) :
      w.config.object = some o → (mine = true ↔ o.value.rebootNode = host.name) →
      Move w host .rebooting (.run ⟨none, rebootProgram mine⟩) []
  | bootstrap (rest : List Instr) :
      Move w host (.run ⟨none, .bootstrap :: rest⟩) (.run ⟨none, rest⟩) [.bootstrap host]
  | awaitLive (rest : List Instr) :
      Move w host (.run ⟨none, .awaitLive :: rest⟩) (.state (.await rest)) []
  | awaitActive (rest : List Instr) :
      w.MayAnswer true →
      Move w host (.run ⟨none, .awaitActive :: rest⟩) (.run ⟨none, rest⟩) []
  | active (rest : List Instr) :
      w.MayAnswer true →
      Move w host (.run ⟨none, .unlessActive :: rest⟩) (.run ⟨none, runMysqld false⟩) []
  | noneActive (rest : List Instr) :
      Move w host (.run ⟨none, .unlessActive :: rest⟩) (.run ⟨none, rest⟩) []
  | highest (o : Versioned ConfigMap) (nodes : List String) (rest : List Instr) :
      w.config.object = some o → getNodesWithHighestSeqno o.value.data = some (some nodes) →
      resolveLeaderNode nodes = some host.name →
      Move w host (.run ⟨none, .ifHighest :: rest⟩) (.run ⟨none, rest⟩) [.won host o.value.data]
  | notHighest (o : Versioned ConfigMap) (nodes : List String) (leader : String)
      (rest : List Instr) :
      w.config.object = some o → getNodesWithHighestSeqno o.value.data = some (some nodes) →
      resolveLeaderNode nodes = some leader → leader ≠ host.name →
      Move w host (.run ⟨none, .ifHighest :: rest⟩) (.run ⟨none, waitForLead⟩) []
  | inactive (rest : List Instr) :
      Move w host (.run ⟨none, .ifInactive :: rest⟩) (.run ⟨none, rest⟩) []
  | notInactive (rest : List Instr) :
      w.MayAnswer true →
      Move w host (.run ⟨none, .ifInactive :: rest⟩) (.run ⟨none, waitForLead⟩) []
  | ifLive (rest : List Instr) :
      Move w host (.run ⟨none, .ifLive :: rest⟩) (.state (.lead rest)) []
  | mysqld (newCluster : Bool) (rest : List Instr) :
      Move w host (.run ⟨none, .mysqld newCluster :: rest⟩) (.run ⟨none, rest⟩)
        [.mysqld host newCluster]

/-- One step of the namespace. An error of the API ends the main logic (a restart) or the
current round of a thread. -/
inductive Step : World → World → Prop
  | tick (w : World) (now : Nat) : w.now ≤ now → Step w { w with now := now }
  | move (w : World) (host : Host) (pc : Pc) (log : List Event) :
      Move readsFail replicas ttl w host (w.pods host).main pc log →
      Step w { w.setPod host { w.pods host with main := pc } with log := log ++ w.log }
  | created (w : World) (host : Host) (site : Site) (draft : Draft) :
      (w.pods host).main = .creating site draft → w.config.object = none →
      Step w { w.setPod host { w.pods host with main := returned replicas host draft.state site }
        with config := w.config.write (initialConfigmap host draft) }
  | main (w : World) (host : Host) (t t' : Thread) (config : Server ConfigMap) :
      (w.pods host).main = .run t → Exec ttl w.now host w.config t t' config →
      Step w { w.setPod host { w.pods host with main := .run t' } with config := config }
  | launchElection (w : World) (host : Host) (rest : List Instr) :
      (w.pods host).main = .run ⟨none, .launchElection :: rest⟩ →
      Step w (w.setPod host { w.pods host with
        main := .run ⟨none, rest⟩
        election := some ((w.pods host).election.getD ⟨none, []⟩) })
  | launchMonitor (w : World) (host : Host) (rest : List Instr) :
      (w.pods host).main = .run ⟨none, .launchMonitor :: rest⟩ →
      Step w (w.setPod host { w.pods host with
        main := .run ⟨none, rest⟩
        monitor := some ((w.pods host).monitor.getD ⟨none, []⟩) })
  | election (w : World) (host : Host) (t t' : Thread) (config : Server ConfigMap) :
      (w.pods host).election = some t → Exec ttl w.now host w.config t t' config →
      Step w { w.setPod host { w.pods host with election := some t' } with config := config }
  | monitor (w : World) (host : Host) (t t' : Thread) (config : Server ConfigMap) :
      (w.pods host).monitor = some t → Exec ttl w.now host w.config t t' config →
      Step w { w.setPod host { w.pods host with monitor := some t' } with config := config }
  | electionRound (w : World) (host : Host) (t : Thread) :
      (w.pods host).election = some t →
      Step w (w.setPod host { w.pods host with election := some ⟨none, [.elect]⟩ })
  | monitorRound (w : World) (host : Host) (t : Thread) :
      (w.pods host).monitor = some t →
      Step w (w.setPod host { w.pods host with monitor := some ⟨none, [.grastate]⟩ })
  | restart (w : World) (host : Host) : Step w (w.setPod host ⟨.state .isNew, none, none⟩)

/-- A fresh install: no ConfigMap, and every pod before its first read. -/
structure Fresh (w : World) : Prop where
  config : w.config.object = none
  pods : ∀ host, w.pods host = ⟨.state .isNew, none, none⟩
  log : w.log = []

/-- The pods of one StatefulSet and their ConfigMap. -/
def system : TSys World := ⟨Fresh, Step readsFail replicas ttl⟩

end System

/-! ## What one instruction does -/

/-- The instructions a thread adds to its own list: they write no cluster state, and no other
name than the pod's into the leader. -/
def Instr.Minor (host : Host) : Instr → Prop
  | .write (.leader name) => name = host.name
  | .write (.expiry _) | .write (.data _ _) | .record _ _ | .grastate | .declare | .elect
  | .renew _ => True
  | _ => False

theorem minor_samples (host : Host) (values : String → String) :
    ∀ i ∈ samples host values, i.Minor host := by
  intro i hi
  obtain ⟨key, _, rfl⟩ := List.mem_map.mp hi
  trivial

/-- The first instruction stays in place, or minor ones take its place. -/
def Thread.Advances (host : Host) (t t' : Thread) : Prop :=
  t'.todo = t.todo ∨ ∃ i minor rest, t.todo = i :: rest ∧ t'.todo = minor ++ rest ∧
    ∀ m ∈ minor, m.Minor host

/-- What is left to execute was left before, or is minor. -/
theorem Thread.Advances.mem {host : Host} {t t' : Thread} (h : t.Advances host t') :
    ∀ i ∈ t'.todo, i ∈ t.todo ∨ i.Minor host := by
  intro i hi
  rcases h with heq | ⟨j, minor, rest, htodo, htodo', hminor⟩
  · exact .inl (heq ▸ hi)
  · rw [htodo'] at hi
    rcases List.mem_append.mp hi with hi | hi
    · exact .inr (hminor i hi)
    · exact .inl (htodo ▸ List.mem_cons_of_mem _ hi)

/-- A launched thread is the running one, or idle. -/
theorem minor_launched {host : Host} {thread : Option Thread}
    (h : ∀ t, thread = some t → ∀ i ∈ t.todo, i.Minor host) :
    ∀ t, some (thread.getD ⟨none, []⟩) = some t → ∀ i ∈ t.todo, i.Minor host := by
  intro t ht
  cases thread with
  | none =>
    cases ht
    simp
  | some t' => exact h t ht

section Exec

variable {ttl now : Nat} {host : Host} {config config' : Server ConfigMap} {t t' : Thread}

theorem exec_advances (h : Exec ttl now host config t t' config') : t.Advances host t' := by
  cases h with
  | read o w rest _ => exact .inl rfl
  | patched version w rest config' _ => exact .inr ⟨_, [], rest, rfl, rfl, by simp⟩
  | dropped version w rest => exact .inr ⟨_, [], rest, rfl, rfl, by simp⟩
  | same o key value rest _ _ => exact .inr ⟨_, [], rest, rfl, rfl, by simp⟩
  | differs o key value rest _ _ =>
    exact .inr ⟨_, [.write (.data key value)], rest, rfl, rfl, by simp [Instr.Minor]⟩
  | sample values rest todo htodo =>
    exact .inr ⟨_, samples host values, rest, rfl, htodo, minor_samples host values⟩
  | noSample rest => exact .inr ⟨_, [], rest, rfl, rfl, by simp⟩
  | declare rest =>
    exact .inr ⟨_, [.write (.leader host.name), .write (.expiry (now + ttl))], rest, rfl, rfl,
      by simp [Instr.Minor]⟩
  | elect o rest _ =>
    exact .inr ⟨_, [.renew o.value.leader], rest, rfl, rfl, by simp [Instr.Minor]⟩
  | renew o leader rest _ _ => exact .inr ⟨_, [.declare], rest, rfl, rfl, by simp [Instr.Minor]⟩
  | noRenew o leader rest _ _ => exact .inr ⟨_, [], rest, rfl, rfl, by simp⟩

/-- The ConfigMap stays as it is, or the pending write is applied to what it holds. -/
theorem exec_config (h : Exec ttl now host config t t' config') :
    config' = config ∨ ∃ w rest o, t.todo = .write w :: rest ∧ t'.todo = rest ∧
      config.object = some o ∧ config' = config.set (w.apply o.value) := by
  cases h with
  | patched version w rest config' hpatch =>
    obtain ⟨o, hobject, _, hset⟩ := Server.patch_eq_some hpatch
    exact .inr ⟨w, rest, o, rfl, rfl, hobject, hset⟩
  | read o w rest _ => exact .inl rfl
  | dropped version w rest => exact .inl rfl
  | same o key value rest _ _ => exact .inl rfl
  | differs o key value rest _ _ => exact .inl rfl
  | sample values rest todo _ => exact .inl rfl
  | noSample rest => exact .inl rfl
  | declare rest => exact .inl rfl
  | elect o rest _ => exact .inl rfl
  | renew o leader rest _ _ => exact .inl rfl
  | noRenew o leader rest _ _ => exact .inl rfl

end Exec

/-! ## What is still pending -/

/-- What follows a call of `get_cluster_state` in the middle of a program. -/
def Site.pending : Site → List Instr
  | .await rest | .lead rest => rest
  | _ => []

/-- The instructions the main logic is committed to. -/
def Pc.pending : Pc → List Instr
  | .state site | .absent site | .ensuring site _ | .creating site _ => site.pending
  | .run t => t.todo
  | _ => []

end OpenstackBlueprint.Mariadb
