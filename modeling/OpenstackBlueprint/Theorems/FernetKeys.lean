import OpenstackBlueprint.Keystone.FernetManage

/-!
# Keystone keys under concurrent jobs and renders

Key jobs read a Secret, work on files, and write back later; renders copy the
data and are applied later still. `Change` is what these are meant to be: one
atomic change of the data at a time, on the list of the data the Secret has held.

* the interleaved system refines the atomic one (`jobs_refine_changes`): a
  rotation always starts from the data it replaces, a setup only ever fills an
  empty Secret, and a render re-emits data that was stored before;
* hence keys once stored are never lost, and what is stored can always be laid
  out again as key files (`keys_stay_populated`).
-/

namespace OpenstackBlueprint.Keystone

open OpenstackBlueprint.Kit

variable (manage : String → Files → Files → Prop)

/-! ## The atomic system -/

/-- The files a command may start from when the Secret holds `data`. -/
def Ready (command : Command) (data : Keys) (files : Files) : Prop :=
  if command.isSetup then data = []
  else data ≠ [] ∧ ∃ left, writeToFiles data left = some files

/-- One atomic change of the data of the Secret `name`. -/
inductive Change (name : String) (past past' : List Keys) : Prop
  | create : past = [] → past' = [[]] → Change name past past'
  | command (command : Command) (data : Keys) (rest : List Keys) (files files' : Files) :
      command.secretName = name → past = data :: rest → Ready command data files →
      manage command.text files files' → past' = published files' :: past → Change name past past'
  | preserve (data live keys : Keys) (rest : List Keys) :
      past = live :: rest → data ∈ past → data ≠ [] → Applied data live keys →
      past' = keys :: past → Change name past past'

/-- The Secret `name` as one object that changes atomically. -/
def changes (name : String) : TSys (List Keys) := ⟨fun past => past = [], Change manage name⟩

/-! ## What a job holds -/

/-- `updated` is what the command makes of `data`. -/
def Computed (command : Command) (data updated : Keys) : Prop :=
  ∃ files files', Ready command data files ∧ manage command.text files files' ∧
    updated = published files'

/-- What a job may rely on between two requests. -/
def Job.Ok (server : Server Keys) (job : Job) : Prop :=
  match job.pc with
  | .holding secret => Seen server secret
  | .prepared secret => Seen server secret ∧ Ready job.command secret.value job.files
  | .updating secret updated => Seen server secret ∧ Computed manage job.command secret.value updated
  | _ => True

variable {manage}

theorem Job.Ok.mono {s t : Server Keys} {job : Job} (h : job.Ok manage s) (hlater : Later s t) :
    job.Ok manage t := by
  unfold Job.Ok at h ⊢
  split at h
  · exact h.mono hlater
  · exact ⟨h.1.mono hlater, h.2⟩
  · exact ⟨h.1.mono hlater, h.2⟩
  · trivial

theorem dataField_eq_none {keys : Keys} : dataField keys = none ↔ keys = [] := by
  unfold dataField
  split <;> simp_all

theorem dataField_eq_some {keys data : Keys} :
    dataField keys = some data ↔ keys ≠ [] ∧ keys = data := by
  unfold dataField
  split <;> simp_all

/-- What `prepare` leaves a job with. -/
theorem prepare_ok {server : Server Keys} {job : Job} {secret : Secret} (h : Seen server secret) :
    Job.Ok manage server
      { job with
        pc := (prepare job.command secret job.files).1
        files := (prepare job.command secret job.files).2 } := by
  unfold prepare
  split
  · rename_i hsetup
    cases hdata : dataField secret.value with
    | some _ => trivial
    | none =>
      refine ⟨h, ?_⟩
      simp only [Ready, hsetup, if_true]
      exact dataField_eq_none.mp hdata
  · rename_i hrotate
    cases hdata : dataField secret.value with
    | none => trivial
    | some data =>
      obtain ⟨hne, rfl⟩ := dataField_eq_some.mp hdata
      cases hwrite : writeToFiles secret.value job.files with
      | none => simp [hwrite, Job.Ok]
      | some files =>
        simp only [hwrite]
        refine ⟨h, ?_⟩
        simp only [Ready, hrotate]
        exact ⟨hne, job.files, hwrite⟩

/-! ## The invariant of the interleaved system -/

section Invariant

variable {ι ρ : Type} [DecidableEq ι] [DecidableEq ρ] {w w' : World ι ρ}

/-- Copies are worth what `Seen` says, and manifests were stored once. -/
structure Consistent (manage : String → Files → Files → Prop) (w : World ι ρ) : Prop where
  newest : ∀ name, (w.history name).head? = (w.secrets name).stored
  job : ∀ i, (w.jobs i).Ok manage (w.secretOf i)
  manifest : ∀ r name data, w.manifests r = some (name, data) →
    data ∈ w.history name ∧ data ≠ []

omit [DecidableEq ρ] in
/-- A job that moves on keeps the invariant when what it holds is ok. -/
theorem Consistent.move (h : Consistent manage w) {i : ι} {pc : Pc} {files : Files}
    (hok : Job.Ok manage (w.secretOf i) { w.jobs i with pc := pc, files := files }) :
    Consistent manage (w.move i pc files) where
  newest := h.newest
  job := by
    intro j
    by_cases hj : j = i
    · subst hj
      simpa [World.move, World.secretOf] using hok
    · simpa [World.move, World.secretOf, hj] using h.job j
  manifest := h.manifest

omit [DecidableEq ι] [DecidableEq ρ] in
/-- A write keeps the invariant: every copy only gets older. -/
theorem Consistent.commit (h : Consistent manage w) (name : String) {server : Server Keys}
    {keys : Keys} (hlater : Later (w.secrets name) server) (hstored : server.stored = some keys) :
    Consistent manage (w.commit name server keys) where
  newest := by
    intro other
    by_cases hother : other = name
    · subst hother
      simp [World.commit, hstored]
    · simpa [World.commit, hother] using h.newest other
  job := by
    intro i
    refine (h.job i).mono ?_
    by_cases hname : (w.jobs i).command.secretName = name
    · simpa [World.secretOf, World.commit, hname] using hlater
    · simpa [World.secretOf, World.commit, hname] using Later.refl _
  manifest := by
    intro r other data hr
    obtain ⟨hmem, hne⟩ := h.manifest r other data hr
    refine ⟨?_, hne⟩
    by_cases hother : other = name
    · subst hother
      simpa [World.commit] using Or.inr hmem
    · simpa [World.commit, hother] using hmem

omit [DecidableEq ι] [DecidableEq ρ] in
/-- The answer to a GET is the stored object or none. -/
theorem seen_of_answer {server : Server Keys} {answer : Option Secret} {secret : Secret}
    (h : answer = none ∨ answer = server.object) (hsecret : answer = some secret) :
    Seen server secret := by
  rcases h with h | h
  · simp [h] at hsecret
  · exact Seen.of_object (h ▸ hsecret)

/-- A render emits the data that is stored, and only when there is some. -/
theorem render_eq_some {name name' : String} {existing : Option Secret} {data : Keys}
    (h : render name existing = some (name', data)) :
    name' = name ∧ data ≠ [] ∧ existing.map Versioned.value = some data := by
  cases existing with
  | none => cases h
  | some secret =>
    obtain ⟨data', hdata, heq⟩ := Option.map_eq_some_iff.mp h
    cases heq
    obtain ⟨hne, rfl⟩ := dataField_eq_some.mp hdata
    exact ⟨rfl, hne, rfl⟩

/-- What one step does to the data a Secret has held, and that it keeps the invariant. -/
theorem consistent_step (h : Consistent manage w) (hs : Step manage w w') :
    Consistent manage w' ∧
      ∀ name, w'.history name = w.history name ∨
        Change manage name (w.history name) (w'.history name) := by
  cases hs with
  | get i answer hpc hanswer =>
    refine ⟨h.move ?_, fun name => .inl rfl⟩
    cases hget : answer with
    | none =>
      cases hsetup : (w.jobs i).command.isSetup with
      | true => simp [afterGet, hsetup, Job.Ok]
      | false => simp [afterGet, hsetup, Job.Ok]
    | some secret => exact seen_of_answer hanswer hget
  | created i answer hpc hnone hanswer =>
    have hlater := later_write (w.secretOf i) []
    have hkept := h.commit (w.jobs i).command.secretName hlater
      (Server.stored_write _ _)
    refine ⟨hkept.move ?_, fun name => ?_⟩
    · rcases hanswer with rfl | rfl
      · exact Seen.of_object (by simp [World.secretOf, World.commit, Server.write])
      · trivial
    · by_cases hname : name = (w.jobs i).command.secretName
      · subst hname
        have hempty : w.history (w.jobs i).command.secretName = [] := by
          have hnewest := h.newest (w.jobs i).command.secretName
          have hobject : (w.secrets (w.jobs i).command.secretName).object = none := hnone
          rw [Server.stored, hobject] at hnewest
          simpa using hnewest
        refine .inr (.create hempty ?_)
        simp [World.move, World.commit, hempty]
      · exact .inl (by simp [World.move, World.commit, hname])
  | notCreated i answer hpc hanswer =>
    refine ⟨h.move ?_, fun name => .inl rfl⟩
    rcases hanswer with rfl | ⟨rfl, _⟩
    · trivial
    · trivial
  | reread i answer hpc hanswer =>
    refine ⟨h.move ?_, fun name => .inl rfl⟩
    cases hget : answer with
    | none => trivial
    | some secret => exact seen_of_answer hanswer hget
  | prepare i secret hpc =>
    refine ⟨h.move (prepare_ok ?_), fun name => .inl rfl⟩
    have hjob := h.job i
    simpa only [Job.Ok, hpc] using hjob
  | execute i secret files hpc hmanage =>
    refine ⟨h.move ?_, fun name => .inl rfl⟩
    have hjob := h.job i
    simp only [Job.Ok, hpc] at hjob
    exact ⟨hjob.1, _, _, hjob.2, hmanage, rfl⟩
  | updated i secret updated server ok hpc hput =>
    have hjob := h.job i
    simp only [Job.Ok, hpc] at hjob
    obtain ⟨hseen, files, files', hready, hmanage, hupdated⟩ := hjob
    obtain ⟨hobject, rfl⟩ := put_of_seen hseen hput
    have hkept := h.commit (w.jobs i).command.secretName
      (later_set (w.secretOf i) updated) (Server.stored_set _ _)
    refine ⟨hkept.move ?_, fun name => ?_⟩
    · unfold afterUpdate
      split
      · split
        · trivial
        · trivial
      · trivial
    · by_cases hname : name = (w.jobs i).command.secretName
      · -- the copy the command started from is the data that is replaced
        have hnewest := h.newest (w.jobs i).command.secretName
        have hstored : (w.secrets (w.jobs i).command.secretName).stored = some secret.value :=
          congrArg (Option.map Versioned.value) hobject
        rw [hstored] at hnewest
        obtain ⟨rest, hrest⟩ := List.head?_eq_some_iff.mp hnewest
        subst hname
        refine .inr (.command _ secret.value rest files files' rfl hrest hready hmanage ?_)
        simp [World.move, World.commit, hupdated]
      · exact .inl (by simp [World.move, World.commit, hname])
  | notUpdated i secret updated hpc =>
    refine ⟨h.move ?_, fun name => .inl rfl⟩
    trivial
  | migrate i files hpc hmanage =>
    refine ⟨h.move ?_, fun name => .inl rfl⟩
    trivial
  | restart i files =>
    refine ⟨h.move ?_, fun name => .inl rfl⟩
    trivial
  | render r name =>
    refine ⟨⟨h.newest, h.job, ?_⟩, fun name => .inl rfl⟩
    intro r' name' data hr
    dsimp only at hr ⊢
    by_cases hsame : r' = r
    · subst hsame
      rw [Function.update_self] at hr
      obtain ⟨rfl, hne, hstored⟩ := render_eq_some hr
      have hnewest := (h.newest name').trans hstored
      obtain ⟨rest, hrest⟩ := List.head?_eq_some_iff.mp hnewest
      exact ⟨hrest ▸ List.mem_cons_self, hne⟩
    · rw [Function.update_of_ne hsame] at hr
      exact h.manifest r' name' data hr
  | apply r name data live keys hr hlive happlied =>
    refine ⟨h.commit _ (later_set _ _) (Server.stored_set _ _), fun other => ?_⟩
    by_cases hother : other = name
    · subst hother
      have hnewest := h.newest other
      rw [hlive] at hnewest
      obtain ⟨rest, hrest⟩ := List.head?_eq_some_iff.mp hnewest
      obtain ⟨hmem, hne⟩ := h.manifest r other data hr
      refine .inr (.preserve data live keys rest hrest hmem hne happlied ?_)
      simp [World.commit]
    · exact .inl (by simp [World.commit, hother])

theorem consistent_invariant : (system manage ι ρ).Invariant (Consistent manage) := by
  refine TSys.Inductive.invariant ⟨?_, ?_⟩
  · intro w hw
    refine ⟨fun other => ?_, fun i => ?_, fun r other data hr => ?_⟩
    · rw [hw.history, Server.stored, hw.secrets]
      rfl
    · simp only [Job.Ok, hw.jobs]
    · rw [hw.manifests] at hr
      cases hr
  · intro w w' hw hstep
    exact (consistent_step hw hstep).1

theorem refines_changes (name : String) :
    (system manage ι ρ).Refines (changes manage name) (fun w => w.history name) := by
  refine ⟨fun w hw => hw.history name, fun w w' hreach hstep => ?_⟩
  exact (consistent_step (consistent_invariant w hreach) hstep).2 name

end Invariant

/-- The names are key names and the values are base64 of texts. -/
def WellFormed (keys : Keys) : Prop :=
  ∀ e ∈ keys, isKeyName e.1 = true ∧ (b64decode e.2).isSome = true

theorem mem_getKeysData {files : Files} {e : String × String} :
    e ∈ (getKeysData files).entries ↔
      ∃ text, (e.1, text) ∈ files.entries ∧ isKeyName e.1 = true ∧ e.2 = b64encode text := by
  simp only [getKeysData, readFromFiles, List.mem_map, List.mem_filter]
  constructor
  · rintro ⟨⟨name, text⟩, ⟨hmem, hname⟩, rfl⟩
    exact ⟨text, hmem, hname, rfl⟩
  · rintro ⟨text, hmem, hname, hvalue⟩
    exact ⟨(e.1, text), ⟨hmem, hname⟩, by rw [← hvalue]⟩

theorem mem_published {files : Files} {e : String × String} :
    e ∈ published files ↔ e ∈ (getKeysData files).entries := by
  unfold published sortedItems
  exact List.mem_insertionSort _

theorem wellFormed_published (files : Files) : WellFormed (published files) := by
  intro e he
  obtain ⟨text, _, hname, hvalue⟩ := mem_getKeysData.mp (mem_published.mp he)
  exact ⟨hname, by rw [hvalue, b64decode_b64encode]; rfl⟩

theorem published_ne_nil {files : Files} (h : (readFromFiles files).entries ≠ []) :
    published files ≠ [] := by
  obtain ⟨e, he⟩ := List.exists_mem_of_ne_nil _ h
  refine List.ne_nil_of_mem (a := (e.1, b64encode e.2)) (mem_published.mpr ?_)
  exact List.mem_map.mpr ⟨e, he, rfl⟩

/-- Well-formed data is laid out without an error, one file for each key. -/
theorem writeToFiles_wellFormed {keys : Keys} (h : WellFormed keys) (left : Files) :
    ∃ files, writeToFiles keys left = some files ∧
      (∀ name ∈ left.keys, name ∈ files.keys) ∧ ∀ e ∈ keys, e.1 ∈ files.keys := by
  induction keys generalizing left with
  | nil => exact ⟨left, rfl, fun _ hname => hname, by simp⟩
  | cons e keys ih =>
    obtain ⟨text, htext⟩ := Option.isSome_iff_exists.mp (h e List.mem_cons_self).2
    obtain ⟨files, hwrite, hleft, hkeys⟩ :=
      ih (fun e he => h e (List.mem_cons_of_mem _ he)) (left.set e.1 text)
    refine ⟨files, ?_, ?_, ?_⟩
    · simpa [writeToFiles, htext] using hwrite
    · intro name hname
      exact hleft name (Dict.mem_keys_set.mpr (.inl hname))
    · intro e' he'
      rcases List.mem_cons.mp he' with rfl | he'
      · exact hleft _ (Dict.mem_keys_set.mpr (.inr rfl))
      · exact hkeys e' he'

/-- Populated data laid out as files is a repository with a key. -/
theorem readFromFiles_ne_nil {keys : Keys} (h : WellFormed keys) (hne : keys ≠ [])
    {left files : Files} (hwrite : writeToFiles keys left = some files) :
    (readFromFiles files).entries ≠ [] := by
  obtain ⟨files', hwrite', _, hkeys⟩ := writeToFiles_wellFormed h left
  obtain rfl : files' = files := Option.some.inj (hwrite'.symm.trans hwrite)
  obtain ⟨e, he⟩ := List.exists_mem_of_ne_nil _ hne
  obtain ⟨file, hfile, hname⟩ := List.mem_map.mp (hkeys e he)
  refine List.ne_nil_of_mem (List.mem_filter.mpr ⟨hfile, ?_⟩)
  rw [hname]
  exact (h e he).1

/-- `keystone-manage` never leaves a repository with keys without any. -/
def KeepsKeys (manage : String → Files → Files → Prop) : Prop :=
  ∀ command files files', manage command files files' →
    (readFromFiles files).entries ≠ [] → (readFromFiles files').entries ≠ []

/-- What the data a Secret has held looks like: populated data is followed by populated data. -/
structure Populated (past : List Keys) : Prop where
  kept : past.Pairwise fun newer older => older ≠ [] → newer ≠ []
  wellFormed : ∀ keys ∈ past, WellFormed keys

/-- Newer data is fine when it is well-formed, and populated after populated data. -/
theorem Populated.cons {data keys : Keys} {rest : List Keys} (h : Populated (data :: rest))
    (hkept : data ≠ [] → keys ≠ []) (hwell : WellFormed keys) :
    Populated (keys :: data :: rest) where
  kept := by
    refine List.pairwise_cons.mpr ⟨fun older holder hne => ?_, h.kept⟩
    rcases List.mem_cons.mp holder with rfl | holder
    · exact hkept hne
    · exact hkept (List.rel_of_pairwise_cons h.kept holder hne)
  wellFormed := by
    intro k hk
    rcases List.mem_cons.mp hk with rfl | hk
    · exact hwell
    · exact h.wellFormed k hk

theorem populated_invariant (hmanage : KeepsKeys manage) (name : String) :
    (changes manage name).Invariant Populated := by
  refine TSys.Inductive.invariant ⟨?_, ?_⟩
  · rintro past rfl
    exact ⟨List.Pairwise.nil, by simp⟩
  · intro past past' h hchange
    cases hchange with
    | create hpast hpast' =>
      subst hpast'
      refine ⟨List.pairwise_singleton _ _, ?_⟩
      intro keys hkeys e he
      rw [List.mem_singleton.mp hkeys] at he
      cases he
    | command command data rest files files' hname hpast hready hrun hpast' =>
      subst hpast
      subst hpast'
      refine h.cons (fun hne => ?_) (wellFormed_published files')
      unfold Ready at hready
      split at hready
      · exact absurd hready hne
      · obtain ⟨_, left, hwrite⟩ := hready
        have hkeys := readFromFiles_ne_nil (h.wellFormed data List.mem_cons_self) hne hwrite
        exact published_ne_nil (hmanage _ _ _ hrun hkeys)
    | preserve data live keys rest hpast hdata hne happlied hpast' =>
      subst hpast
      subst hpast'
      refine h.cons (fun _ => ?_) (fun e he => ?_)
      · obtain ⟨e, he⟩ := List.exists_mem_of_ne_nil _ hne
        exact List.ne_nil_of_mem (happlied.holds e he)
      · rcases happlied.old e he with hold | hold
        · exact h.wellFormed data hdata e hold
        · exact h.wellFormed live List.mem_cons_self e hold

/-- A Secret that ever held keys is stored and holds keys, under any interleaving of jobs,
restarts, failed requests, renders and applies; and a rotation can always lay out what is
stored. -/
theorem keys_stay_populated (manage : String → Files → Files → Prop) (hmanage : KeepsKeys manage)
    (ι ρ : Type) [DecidableEq ι] [DecidableEq ρ] :
    (system manage ι ρ).Invariant fun w => ∀ name,
      ((∃ older ∈ w.history name, older ≠ []) →
        ∃ keys, (w.secrets name).stored = some keys ∧ keys ≠ []) ∧
      ∀ keys, (w.secrets name).stored = some keys →
        WellFormed keys ∧ ∀ left, (writeToFiles keys left).isSome = true := by
  intro w hw name
  have hpast := populated_invariant hmanage name _ ((refines_changes name).reachable hw)
  have hnewest := (consistent_invariant w hw).newest name
  constructor
  · rintro ⟨older, holder, hne⟩
    obtain ⟨keys, rest, hhistory⟩ := List.exists_cons_of_ne_nil (List.ne_nil_of_mem holder)
    rw [hhistory] at hpast hnewest holder
    refine ⟨keys, hnewest.symm, ?_⟩
    rcases List.mem_cons.mp holder with rfl | holder
    · exact hne
    · exact List.rel_of_pairwise_cons hpast.kept holder hne
  · intro keys hstored
    obtain ⟨rest, hrest⟩ := List.head?_eq_some_iff.mp (hnewest.trans hstored)
    rw [hrest] at hpast
    have hwell := hpast.wellFormed keys List.mem_cons_self
    refine ⟨hwell, fun left => ?_⟩
    obtain ⟨files, hwrite, _⟩ := writeToFiles_wellFormed hwell left
    rw [hwrite]
    rfl

/-- `keystone-manage` on a repository of two keys: a setup writes a staged and a primary
key, a rotation promotes the staged one and stages another. -/
def manageTwoKeys (command : String) (files files' : Files) : Prop :=
  if command = "fernet_setup" then files' = (files.set "0" "staged").set "1" "primary"
  else if command = "fernet_rotate" then
    files' = (files.set "2" ((files.get? "0").getD "")).set "0" "next"
  else files' = files

theorem keepsKeys_manageTwoKeys : KeepsKeys manageTwoKeys := by
  have hwritten : ∀ (files : Files) (name text : String), isKeyName name = true →
      (readFromFiles (files.set name text)).entries ≠ [] := by
    intro files name text hname
    have hmem : (name, text) ∈ (files.set name text).entries := by
      rw [Dict.mem_entries_set]
      exact .inl ⟨rfl, rfl⟩
    exact List.ne_nil_of_mem (List.mem_filter.mpr ⟨hmem, hname⟩)
  intro command files files' hrun hkeys
  unfold manageTwoKeys at hrun
  split at hrun
  · rw [hrun]
    exact hwritten _ _ _ (by decide)
  · split at hrun
    · rw [hrun]
      exact hwritten _ _ _ (by decide)
    · rw [hrun]
      exact hkeys

/-- A fresh install with one setup job. -/
def oneSetup : World Unit Unit where
  secrets := fun _ => Server.empty
  history := fun _ => []
  jobs := fun _ => ⟨.fernetSetup, Dict.empty, .start⟩
  manifests := fun _ => none

theorem keys_stay_populated_after_setup :
    KeepsKeys manageTwoKeys ∧ ∃ w : World Unit Unit, (system manageTwoKeys Unit Unit).Reachable w ∧
      ∃ keys, (w.secrets "keystone-fernet-keys").stored = some keys ∧ keys.length = 2 ∧
        WellFormed keys := by
  have hsetup : manageTwoKeys "fernet_setup" Dict.empty
      ((Dict.empty.set "0" "staged").set "1" "primary") := by
    simp [manageTwoKeys]
  have hfresh : (system manageTwoKeys Unit Unit).Reachable oneSetup :=
    .init ⟨fun _ => rfl, fun _ => rfl, fun _ => rfl, fun _ => rfl⟩
  have hget := hfresh.step (.get _ () none rfl (.inl rfl))
  have hcreated := hget.step (.created _ () _ rfl rfl (.inl rfl))
  have hprepared := hcreated.step (.prepare _ () _ rfl)
  have hexecuted := hprepared.step
    (.execute _ () ⟨0, []⟩ ((Dict.empty.set "0" "staged").set "1" "primary") rfl hsetup)
  have hupdated := hexecuted.step (.updated _ () ⟨0, []⟩ _ _ true rfl rfl)
  refine ⟨keepsKeys_manageTwoKeys, _, hupdated, _, rfl, rfl, ?_⟩
  exact ((keys_stay_populated manageTwoKeys keepsKeys_manageTwoKeys Unit Unit _ hupdated
    "keystone-fernet-keys").2 _ rfl).1

end OpenstackBlueprint.Keystone
