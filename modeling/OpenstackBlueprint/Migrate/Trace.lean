import OpenstackBlueprint.Migrate.Finish

/-!
# What a trace shows

The evidence a trace of the script holds: a read that was answered, a command
that succeeded, a helper pod that ended Succeeded. For every operation one
lemma says what a run that returns has put into the trace (`…_ok`), and one
says which events it can emit at all (`only_…`).
-/

namespace OpenstackBlueprint.Migrate

open Kit Kit.Script

/-! ## Evidence -/

/-- What `Kube.get` makes of a process: `none` where it raises. -/
def Proc.answer (p : Proc) : Option Json :=
  if p.returncode != 0 then
    if hasSubstring "NotFound" p.stderr || hasSubstring "not found" p.stderr then some .null
    else none
  else p.json

/-- The arguments of a `get`. -/
def getArgs (args : List String) : List String := ["get"] ++ args ++ ["-o", "json"]

/-- A `get` in the trace was answered with `j`. -/
def Reads (kube : Kube) (args : List String) (j : Json) (t : List Event) : Prop :=
  ∃ p, .kubectl kube.base (getArgs args) none (some p) ∈ t ∧ p.answer = some j

/-- A command in the trace succeeded. -/
def Succeeds (kube : Kube) (args : List String) (stdin : Option String) (t : List Event) : Prop :=
  ∃ p, .kubectl kube.base args stdin (some p) ∈ t ∧ p.returncode = 0

/-- The one Composition of a listing. -/
def compositionOf (found : Json) : Option Json :=
  (compositionItems found).bind fun items => if items.len = some 1 then items.first else none

theorem Reads.mono {kube : Kube} {args : List String} {j : Json} {t t' : List Event}
    (h : Reads kube args j t) (hsub : ∀ e ∈ t, e ∈ t') : Reads kube args j t' := by
  obtain ⟨p, hp, hj⟩ := h
  exact ⟨p, hsub _ hp, hj⟩

/-! ## Commands -/

section Commands

variable {kube : Kube} {args : List String} {stdin : Option String} {t : List Event}
  {P : Event → Prop}

theorem exec_runs {base : List String} {r : Except Stop Proc} (h : Runs (exec base args stdin) r t) :
    (∃ p, r = .ok p ∧ t = [.kubectl base args stdin (some p)]) ∨
      r = .error .killed ∧ t = [.kubectl base args stdin none] := by
  obtain ⟨supply, supply', h⟩ := h
  unfold exec at h
  split at h
  · rename_i p rest _
    cases h
    exact .inl ⟨p, rfl, rfl⟩
  · cases h
    exact .inr ⟨rfl, rfl⟩

theorem only_exec {base : List String} (hP : ∀ proc, P (.kubectl base args stdin proc)) :
    Only P (exec base args stdin) := by
  intro r t h e he
  rcases exec_runs h with ⟨p, _, rfl⟩ | ⟨_, rfl⟩
  · rw [List.mem_singleton.mp he]
    exact hP (some p)
  · rw [List.mem_singleton.mp he]
    exact hP none

theorem only_run {check : Bool} (hP : ∀ proc, P (.kubectl kube.base args stdin proc)) :
    Only P (kube.run args stdin check) :=
  only_bind (only_exec hP) fun _ => only_ite (fun _ => only_stop _) fun _ => only_pure _

theorem run_ok {check : Bool} {p : Proc} (h : Runs (kube.run args stdin check) (.ok p) t) :
    t = [.kubectl kube.base args stdin (some p)] ∧ (check = true → p.returncode = 0) := by
  obtain ⟨p', t₁, t₂, rfl, h₁, h₂⟩ := runs_bind_ok h
  rcases exec_runs h₁ with ⟨p'', hp, rfl⟩ | ⟨hp, _⟩
  · cases hp
    split at h₂
    · cases (runs_stop h₂).1
    · rename_i hcheck
      obtain ⟨hr, rfl⟩ := runs_pure h₂
      cases hr
      refine ⟨rfl, fun hc => ?_⟩
      simpa [hc] using hcheck
  · cases hp

theorem only_get (hP : ∀ proc, P (.kubectl kube.base (getArgs args) none proc)) :
    Only P (kube.get args) :=
  only_bind (only_run hP) fun _ =>
    only_ite (fun _ => only_ite (fun _ => only_pure _) fun _ => only_stop _)
      fun _ => only_ofOption _ _

/-- A `get` is one command, and returns what that answers. -/
theorem get_runs {r : Except Stop Json} (h : Runs (kube.get args) r t) :
    ∃ proc, t = [.kubectl kube.base (getArgs args) none proc] ∧
      ((∃ p j, proc = some p ∧ p.answer = some j ∧ r = .ok j) ∨
        (∃ e, r = .error e) ∧ ∀ p, proc = some p → p.answer = none) := by
  rcases runs_bind h with ⟨e, rfl, herr⟩ | ⟨p, t₁, t₂, rfl, h₁, h₂⟩
  · rcases runs_bind herr with ⟨e', _, hexec⟩ | ⟨p, t₁, t₂, rfl, _, h₂⟩
    · rcases exec_runs hexec with ⟨p, hp, _⟩ | ⟨_, rfl⟩
      · cases hp
      · exact ⟨none, rfl, .inr ⟨⟨e, rfl⟩, by simp⟩⟩
    · cases (runs_pure h₂).1
  · obtain ⟨rfl, _⟩ := run_ok h₁
    unfold Proc.answer
    split at h₂
    · rename_i hrc
      split at h₂
      · rename_i hmissing
        obtain ⟨rfl, rfl⟩ := runs_pure h₂
        exact ⟨some p, rfl, .inl ⟨p, .null, rfl, by rw [if_pos hrc, if_pos hmissing], rfl⟩⟩
      · rename_i hmissing
        obtain ⟨rfl, rfl⟩ := runs_stop h₂
        refine ⟨some p, rfl, .inr ⟨⟨_, rfl⟩, ?_⟩⟩
        rintro p' hp
        cases hp
        rw [if_pos hrc, if_neg hmissing]
    · rename_i hrc
      obtain ⟨rfl, ⟨j, hj, rfl⟩ | ⟨hj, rfl⟩⟩ := runs_ofOption h₂
      · exact ⟨some p, rfl, .inl ⟨p, j, rfl, by rw [if_neg hrc, hj], rfl⟩⟩
      · refine ⟨some p, rfl, .inr ⟨⟨_, rfl⟩, ?_⟩⟩
        rintro p' hp
        cases hp
        rw [if_neg hrc, hj]

theorem get_ok {j : Json} (h : Runs (kube.get args) (.ok j) t) :
    ∃ p, t = [.kubectl kube.base (getArgs args) none (some p)] ∧ p.answer = some j := by
  obtain ⟨proc, rfl, ⟨p, j', rfl, hp, hr⟩ | ⟨⟨e, he⟩, _⟩⟩ := get_runs h
  · cases hr
    exact ⟨p, rfl, hp⟩
  · cases he

theorem get_reads {j : Json} (h : Runs (kube.get args) (.ok j) t) : Reads kube args j t := by
  obtain ⟨p, rfl, hp⟩ := get_ok h
  exact ⟨p, List.mem_singleton.mpr rfl, hp⟩

theorem only_change {description : String} {args : Option (List String)}
    (hprint : ∀ line, P (.print line))
    (hP : kube.apply = true → ∀ a, args = some a → ∀ proc, P (.kubectl kube.base a stdin proc)) :
    Only P (kube.change description args stdin) := by
  refine only_bind (only_emit (hprint _)) fun _ => only_ite (fun happly => ?_) fun _ => only_pure _
  intro r t h
  rcases runs_bind h with ⟨e, _, hstop⟩ | ⟨a, t₁, t₂, rfl, h₁, h₂⟩
  · obtain ⟨rfl, _⟩ := runs_ofOption hstop
    exact fun e he => absurd he List.not_mem_nil
  · obtain ⟨rfl, ⟨b, hb, hr⟩ | ⟨_, hr⟩⟩ := runs_ofOption h₁
    · cases hr
      exact only_bind (only_run (hP happly a hb)) (fun _ => only_pure _) _ _ h₂
    · cases hr

/-- Under `--apply` a change prints its line and issues its command, however
that ends. -/
theorem change_trace {description : String} {r : Except Stop Unit} (happly : kube.apply = true)
    (h : Runs (kube.change description (some args) stdin) r t) :
    ∃ proc, t = [.print ("  DO   " ++ description), .kubectl kube.base args stdin proc] := by
  rcases runs_bind h with ⟨e, _, herr⟩ | ⟨_, t₁, t₂, rfl, h₁, h₂⟩
  · cases (runs_emit herr).1
  · obtain ⟨_, rfl⟩ := runs_emit h₁
    rw [if_pos happly] at h₂ ⊢
    rcases runs_bind h₂ with ⟨e, _, herr⟩ | ⟨a, t₃, t₄, rfl, h₃, h₄⟩
    · cases (runs_pure herr).1
    · obtain ⟨ha, rfl⟩ := runs_pure h₃
      cases ha
      obtain ⟨proc, hproc⟩ : ∃ proc, t₄ = [.kubectl kube.base args stdin proc] := by
        rcases runs_bind h₄ with ⟨e, _, herr⟩ | ⟨p, t₅, t₆, rfl, h₅, h₆⟩
        · rcases runs_bind herr with ⟨e', _, herr'⟩ | ⟨p, t₅, t₆, rfl, h₅, h₆⟩
          · rcases exec_runs herr' with ⟨p, hp, _⟩ | ⟨_, rfl⟩
            · cases hp
            · exact ⟨none, rfl⟩
          · rcases exec_runs h₅ with ⟨p', _, rfl⟩ | ⟨hp, _⟩
            · have ht₆ : t₆ = [] := by
                split at h₆
                · exact (runs_stop h₆).2
                · exact (runs_pure h₆).2
              exact ⟨some p', by rw [ht₆]; rfl⟩
            · cases hp
        · obtain ⟨rfl, _⟩ := run_ok h₅
          obtain ⟨_, rfl⟩ := runs_pure h₆
          exact ⟨some p, rfl⟩
      exact ⟨proc, by rw [hproc]; rfl⟩

/-- A change that returns under `--apply` has run its command. -/
theorem change_ok {description : String} {args : Option (List String)}
    (happly : kube.apply = true) (h : Runs (kube.change description args stdin) (.ok ()) t) :
    ∃ a p, args = some a ∧ p.returncode = 0 ∧
      t = [.print ("  DO   " ++ description), .kubectl kube.base a stdin (some p)] := by
  obtain ⟨_, t₁, t₂, rfl, h₁, h₂⟩ := runs_bind_ok h
  obtain ⟨_, rfl⟩ := runs_emit h₁
  rw [if_pos happly] at h₂ ⊢
  obtain ⟨a, t₃, t₄, rfl, h₃, h₄⟩ := runs_bind_ok h₂
  obtain ⟨rfl, ⟨b, hb, hr⟩ | ⟨_, hr⟩⟩ := runs_ofOption h₃
  · cases hr
    obtain ⟨p, t₅, t₆, rfl, h₅, h₆⟩ := runs_bind_ok h₄
    obtain ⟨rfl, hrc⟩ := run_ok h₅
    obtain ⟨_, rfl⟩ := runs_pure h₆
    exact ⟨a, p, hb, hrc rfl, rfl⟩
  · cases hr

theorem change_succeeds {description : String} {args : List String}
    (happly : kube.apply = true) (h : Runs (kube.change description (some args) stdin) (.ok ()) t) :
    Succeeds kube args stdin t := by
  obtain ⟨a, p, ha, hrc, rfl⟩ := change_ok happly h
  cases ha
  exact ⟨p, by simp, hrc⟩

end Commands

/-! ## Expressions -/

theorem eval_ok {α : Type} {value : Option α} {a : α} {t : List Event}
    (h : Runs (eval value) (.ok a) t) : value = some a ∧ t = [] := by
  obtain ⟨rfl, ⟨b, hb, hr⟩ | ⟨_, hr⟩⟩ := runs_ofOption h
  · cases hr
    exact ⟨hb, rfl⟩
  · cases hr

/-- The comparison passes exactly when the counts agree, up to an entry for
`lost+found`, and the bytes do. -/
theorem compareInventories_ok {src dst : Dict String Int} {files bytes : Int} {t : List Event}
    (h : Runs (compareInventories src dst files bytes) (.ok ()) t) :
    ∃ dstFiles, dst.get? "files" = some dstFiles ∧ dst.get? "bytes" = some bytes ∧
      dstFiles - lostFound dstFiles files = files := by
  obtain ⟨dstFiles, t₁, t₂, rfl, h₁, h₂⟩ := runs_bind_ok h
  obtain ⟨hfiles, rfl⟩ := eval_ok h₁
  split at h₂
  · rename_i hsame
    obtain ⟨dstBytes, t₃, t₄, rfl, h₃, h₄⟩ := runs_bind_ok h₂
    obtain ⟨hbytes, rfl⟩ := eval_ok h₃
    split at h₄
    · rename_i heq
      rw [beq_iff_eq.mp heq] at hbytes
      exact ⟨dstFiles, hfiles, hbytes, beq_iff_eq.mp hsame⟩
    · cases (runs_stop h₄).1
  · cases (runs_stop h₂).1

theorem compareInventories_passes {src dst : Dict String Int} {files bytes dstFiles : Int}
    (hfiles : dst.get? "files" = some dstFiles) (hbytes : dst.get? "bytes" = some bytes)
    (hsame : dstFiles - lostFound dstFiles files = files) (i : Supply) :
    ∃ t, compareInventories src dst files bytes i = (.ok (), t, i) := by
  unfold compareInventories eval
  rw [hfiles, ofOption_some_bind, if_pos (beq_iff_eq.mpr hsame), hbytes, ofOption_some_bind,
    if_pos (beq_self_eq_true bytes)]
  exact ⟨_, rfl⟩

theorem only_eval {α : Type} {P : Event → Prop} (value : Option α) : Only P (eval value) :=
  only_ofOption _ _

theorem only_print {P : Event → Prop} (hprint : ∀ line, P (.print line)) (line : String) :
    Only P (print line) :=
  only_emit (hprint line)

/-! ## Waiting -/

section Waiting

variable {description : String} {predicate : Sh Bool} {timeout : Nat} {P : Event → Prop}

theorem only_time : Only P time := by
  rintro r t ⟨supply, supply', h⟩ e he
  unfold time at h
  split at h <;> (cases h; exact absurd he List.not_mem_nil)

theorem only_waitLoop (hpred : Only P predicate) (hsleep : ∀ n, P (.sleep n)) (deadline : Int)
    (fuel : Nat) : Only P (waitLoop description predicate timeout deadline fuel) := by
  induction fuel with
  | zero => exact only_stop _
  | succ fuel ih =>
    refine only_bind only_time fun _ => only_ite (fun _ => ?_) fun _ => only_stop _
    refine only_bind hpred fun _ => only_ite (fun _ => only_pure _) fun _ => ?_
    exact only_bind (only_emit (hsleep _)) fun _ => ih

theorem only_waitFor (hpred : Only P predicate) (hsleep : ∀ n, P (.sleep n)) :
    Only P (waitFor description predicate timeout) := by
  refine only_bind only_time fun _ => only_bind ?_ fun _ => only_waitLoop hpred hsleep _ _
  rintro r t ⟨supply, supply', h⟩ e he
  cases h
  exact absurd he List.not_mem_nil

/-- A wait that returns ended with a run of the predicate that answered true. -/
theorem waitLoop_ok {deadline : Int} {fuel : Nat} {t : List Event}
    (h : Runs (waitLoop description predicate timeout deadline fuel) (.ok ()) t) :
    ∃ t₁ t₂, t = t₁ ++ t₂ ∧ Runs predicate (.ok true) t₂ := by
  induction fuel generalizing t with
  | zero => cases (runs_stop h).1
  | succ fuel ih =>
    obtain ⟨now, t₁, t₂, rfl, _, h₂⟩ := runs_bind_ok h
    split at h₂
    · obtain ⟨answer, t₃, t₄, rfl, h₃, h₄⟩ := runs_bind_ok h₂
      cases answer with
      | true =>
        obtain ⟨_, rfl⟩ := runs_pure h₄
        exact ⟨t₁, t₃, by simp, h₃⟩
      | false =>
        obtain ⟨_, t₅, t₆, rfl, _, h₆⟩ := runs_bind_ok h₄
        obtain ⟨t₇, t₈, rfl, h₈⟩ := ih h₆
        exact ⟨t₁ ++ t₃ ++ t₅ ++ t₇, t₈, by simp, h₈⟩
    · cases (runs_stop h₂).1

theorem waitFor_ok {t : List Event} (h : Runs (waitFor description predicate timeout) (.ok ()) t) :
    ∃ t₁ t₂, t = t₁ ++ t₂ ∧ Runs predicate (.ok true) t₂ := by
  obtain ⟨start, t₁, t₂, rfl, _, h₂⟩ := runs_bind_ok h
  obtain ⟨fuel, t₃, t₄, rfl, _, h₄⟩ := runs_bind_ok h₂
  obtain ⟨t₅, t₆, rfl, h₆⟩ := waitLoop_ok h₄
  exact ⟨t₁ ++ t₃ ++ t₅, t₆, by simp, h₆⟩

end Waiting

/-! ## The Composition -/

theorem composition_ok {kube : Kube} {component : String} {comp : Json} {t : List Event}
    (h : Runs (composition kube component) (.ok comp) t) :
    ∃ found, Reads kube [compositionResource component] found t ∧
      compositionOf found = some comp := by
  obtain ⟨found, t₁, t₂, rfl, h₁, h₂⟩ := runs_bind_ok h
  obtain ⟨items, t₃, t₄, rfl, h₃, h₄⟩ := runs_bind_ok h₂
  obtain ⟨n, t₅, t₆, rfl, h₅, h₆⟩ := runs_bind_ok h₄
  refine ⟨found, (get_reads h₁).mono fun e he => List.mem_append_left _ he, ?_⟩
  obtain ⟨hitems, _⟩ := eval_ok h₃
  obtain ⟨hlen, _⟩ := eval_ok h₅
  split at h₆
  · cases (runs_stop h₆).1
  · rename_i hn
    obtain ⟨hfirst, _⟩ := eval_ok h₆
    have hone : n = 1 := by simpa using hn
    unfold compositionOf
    rw [hitems, Option.bind_some, hlen, hone, if_pos rfl, hfirst]

theorem only_composition {kube : Kube} {component : String} {P : Event → Prop}
    (hget : ∀ args proc, P (.kubectl kube.base (getArgs args) none proc)) :
    Only P (composition kube component) :=
  only_bind (only_get fun proc => hget _ proc) fun _ => only_bind (only_eval _) fun _ =>
    only_bind (only_eval _) fun _ => only_ite (fun _ => only_stop _) fun _ => only_eval _

/-! ## Helper pods -/

/-- The phase of a pod. -/
def podPhase (p : Json) : Option Json := do (← p.index "status").index "phase"

/-- A helper pod was applied, then read as Succeeded, and its log then was
`log`. -/
def HelperSucceeded (kube : Kube) (pod : HelperPod) (log : String) (t : List Event) : Prop :=
  ∃ t₁ t₂ t₃, t = t₁ ++ t₂ ++ t₃ ∧ Succeeds kube ["apply", "-f", "-"] (some pod.json.dumps) t₁ ∧
    (∃ p phase, Reads kube ["pod", pod.name] p t₂ ∧ podPhase p = some phase ∧
      phase.eqStr "Succeeded" = true) ∧
    ∃ proc, .kubectl kube.base ["logs", pod.name] none (some proc) ∈ t₃ ∧ proc.stdout = log

theorem runHelper_ok {kube : Kube} {pod : HelperPod} {timeout : Nat} {log : String}
    {t : List Event} (h : Runs (runHelper kube pod timeout) (.ok log) t) :
    HelperSucceeded kube pod log t := by
  obtain ⟨_, t₁, u₁, rfl, _, k₁⟩ := runs_bind_ok h
  obtain ⟨p₂, t₂, u₂, rfl, h₂, k₂⟩ := runs_bind_ok k₁
  obtain ⟨_, t₃, u₃, rfl, _, k₃⟩ := runs_bind_ok k₂
  obtain ⟨p, t₄, u₄, rfl, h₄, k₄⟩ := runs_bind_ok k₃
  obtain ⟨phase, t₅, u₅, rfl, h₅, k₅⟩ := runs_bind_ok k₄
  obtain ⟨proc, t₆, u₆, rfl, h₆, k₆⟩ := runs_bind_ok k₅
  obtain ⟨_, t₇, u₇, rfl, _, k₇⟩ := runs_bind_ok k₆
  obtain ⟨rfl, hrc⟩ := run_ok h₂
  obtain ⟨hphase, rfl⟩ := eval_ok h₅
  obtain ⟨rfl, _⟩ := run_ok h₆
  split at k₇
  · rename_i hsucceeded
    obtain ⟨hlog, rfl⟩ := runs_pure k₇
    cases hlog
    refine ⟨t₁ ++ [.kubectl kube.base ["apply", "-f", "-"] (some pod.json.dumps) (some p₂)], t₃ ++ t₄,
      .kubectl kube.base ["logs", pod.name] none (some proc) :: t₇, by simp,
      ⟨p₂, by simp, hrc rfl⟩, ?_, proc, by simp, rfl⟩
    exact ⟨p, phase, (get_reads h₄).mono fun e he => List.mem_append_right _ he, hphase, hsucceeded⟩
  · cases (runs_stop k₇).1

theorem only_runHelper {kube : Kube} {pod : HelperPod} {timeout : Nat} {P : Event → Prop}
    (hsleep : ∀ n, P (.sleep n))
    (hget : ∀ args proc, P (.kubectl kube.base (getArgs args) none proc))
    (hdelete : ∀ rest proc, P (.kubectl kube.base ("delete" :: "pod" :: rest) none proc))
    (happly : ∀ stdin proc, P (.kubectl kube.base ["apply", "-f", "-"] stdin proc))
    (hlogs : ∀ rest proc, P (.kubectl kube.base ("logs" :: rest) none proc)) :
    Only P (runHelper kube pod timeout) := by
  refine only_bind (only_run (hdelete _)) fun _ => only_bind (only_run (happly _)) fun _ => ?_
  refine only_bind (only_waitFor ?_ hsleep) fun _ => ?_
  · exact only_bind (only_get (hget _)) fun _ =>
      only_ite (fun _ => only_bind (only_eval _) fun _ => only_pure _) fun _ => only_pure _
  · refine only_bind (only_get (hget _)) fun _ => only_bind (only_eval _) fun _ => ?_
    refine only_bind (only_run (hlogs _)) fun _ => only_bind (only_run (hdelete _)) fun _ => ?_
    exact only_ite (fun _ => only_pure _) fun _ => only_stop _

end OpenstackBlueprint.Migrate
