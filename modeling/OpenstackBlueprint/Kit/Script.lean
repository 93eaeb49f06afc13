import Mathlib

/-!
# Scripts

A script takes its inputs one by one from a supply, emits events, and either
returns a value or stops for a reason of type `ε`. It sees its own past only
through the values it was given: the events are an output.

`Runs m r t` says that on some supply `m` ends with `r` after emitting `t`.
Results about every supply are proved by taking a run apart at its binds
(`runs_bind`), and results about every single event by `Only`.
-/

namespace OpenstackBlueprint.Kit

/-- A script over inputs `ι` that emits events `ω` and may stop with `ε`. -/
def Script (ι ω ε α : Type) := ι → Except ε α × List ω × ι

namespace Script

variable {ι ω ε α β : Type}

instance : Monad (Script ι ω ε) where
  pure a := fun i => (.ok a, [], i)
  bind m f := fun i =>
    match m i with
    | (.error e, t, i') => (.error e, t, i')
    | (.ok a, t, i') =>
      match f a i' with
      | (r, t', i'') => (r, t ++ t', i'')

/-- Stop for a reason. -/
def stop (e : ε) : Script ι ω ε α := fun i => (.error e, [], i)

/-- Emit one event. -/
def emit (e : ω) : Script ι ω ε Unit := fun i => (.ok (), [e], i)

/-- Stop with `e` where there is no value. -/
def ofOption (e : ε) : Option α → Script ι ω ε α
  | some a => pure a
  | none => stop e

/-- Replace the reason a script stops for. -/
def mapStop (f : ε → ε) (m : Script ι ω ε α) : Script ι ω ε α := fun i =>
  match m i with
  | (.error e, t, i') => (.error (f e), t, i')
  | (.ok a, t, i') => (.ok a, t, i')

/-- On some supply the script ends with `r` after emitting `t`. -/
def Runs (m : Script ι ω ε α) (r : Except ε α) (t : List ω) : Prop :=
  ∃ i i', m i = (r, t, i')

variable {m : Script ι ω ε α} {f : α → Script ι ω ε β} {t : List ω}

theorem runs_pure {a : α} {r : Except ε α} (h : Runs (pure a : Script ι ω ε α) r t) :
    r = .ok a ∧ t = [] := by
  obtain ⟨i, i', h⟩ := h
  cases h
  exact ⟨rfl, rfl⟩

theorem runs_stop {e : ε} {r : Except ε α} (h : Runs (stop e : Script ι ω ε α) r t) :
    r = .error e ∧ t = [] := by
  obtain ⟨i, i', h⟩ := h
  cases h
  exact ⟨rfl, rfl⟩

theorem runs_emit {e : ω} {r : Except ε Unit} (h : Runs (emit e : Script ι ω ε Unit) r t) :
    r = .ok () ∧ t = [e] := by
  obtain ⟨i, i', h⟩ := h
  cases h
  exact ⟨rfl, rfl⟩

theorem runs_ofOption {e : ε} {o : Option α} {r : Except ε α}
    (h : Runs (ofOption e o : Script ι ω ε α) r t) :
    t = [] ∧ ((∃ a, o = some a ∧ r = .ok a) ∨ o = none ∧ r = .error e) := by
  cases o with
  | none =>
    obtain ⟨hr, ht⟩ := runs_stop h
    exact ⟨ht, .inr ⟨rfl, hr⟩⟩
  | some a =>
    obtain ⟨hr, ht⟩ := runs_pure h
    exact ⟨ht, .inl ⟨a, rfl, hr⟩⟩

/-- A run of a bind stops in its first part, or splits into a run of each. -/
theorem runs_bind {r : Except ε β} (h : Runs (m >>= f) r t) :
    (∃ e, r = .error e ∧ Runs m (.error e) t) ∨
      ∃ a t₁ t₂, t = t₁ ++ t₂ ∧ Runs m (.ok a) t₁ ∧ Runs (f a) r t₂ := by
  obtain ⟨i, i', h⟩ := h
  simp only [bind] at h
  match hm : m i with
  | (.error e, t₁, i₁) =>
    rw [hm] at h
    cases h
    exact .inl ⟨e, rfl, i, _, hm⟩
  | (.ok a, t₁, i₁) =>
    rw [hm] at h
    match hf : f a i₁ with
    | (r₂, t₂, i₂) =>
      dsimp only at h
      rw [hf] at h
      cases h
      exact .inr ⟨a, t₁, t₂, rfl, ⟨i, i₁, hm⟩, i₁, _, hf⟩

/-- A bind that returns splits into two runs that return. -/
theorem runs_bind_ok {b : β} (h : Runs (m >>= f) (.ok b) t) :
    ∃ a t₁ t₂, t = t₁ ++ t₂ ∧ Runs m (.ok a) t₁ ∧ Runs (f a) (.ok b) t₂ := by
  rcases runs_bind h with ⟨e, he, _⟩ | h
  · cases he
  · exact h

theorem runs_mapStop {g : ε → ε} {r : Except ε α} (h : Runs (mapStop g m) r t) :
    (∃ e, r = .error (g e) ∧ Runs m (.error e) t) ∨ ∃ a, r = .ok a ∧ Runs m (.ok a) t := by
  obtain ⟨i, i', h⟩ := h
  unfold mapStop at h
  match hm : m i with
  | (.error e, t₁, i₁) =>
    rw [hm] at h
    cases h
    exact .inl ⟨e, rfl, i, _, hm⟩
  | (.ok a, t₁, i₁) =>
    rw [hm] at h
    cases h
    exact .inr ⟨a, rfl, i, _, hm⟩

/-- A value that is there is passed on without an event. -/
theorem ofOption_some_bind (e : ε) (a : α) :
    (ofOption e (some a) >>= f : Script ι ω ε β) = f a := by
  funext i
  simp only [ofOption, bind, pure, List.nil_append]

/-! ## Every event -/

/-- Every event of every run satisfies `P`. -/
def Only (P : ω → Prop) (m : Script ι ω ε α) : Prop :=
  ∀ r t, Runs m r t → ∀ e ∈ t, P e

variable {P : ω → Prop}

theorem only_pure (a : α) : Only P (pure a : Script ι ω ε α) := by
  intro r t h e he
  rw [(runs_pure h).2] at he
  exact absurd he List.not_mem_nil

theorem only_stop (e : ε) : Only P (stop e : Script ι ω ε α) := by
  intro r t h e he
  rw [(runs_stop h).2] at he
  exact absurd he List.not_mem_nil

theorem only_emit {e : ω} (he : P e) : Only P (emit e : Script ι ω ε Unit) := by
  intro r t h e' he'
  rw [(runs_emit h).2] at he'
  rwa [List.mem_singleton.mp he']

theorem only_ofOption (e : ε) (o : Option α) : Only P (ofOption e o : Script ι ω ε α) := by
  intro r t h e he
  rw [(runs_ofOption h).1] at he
  exact absurd he List.not_mem_nil

theorem only_bind (hm : Only P m) (hf : ∀ a, Only P (f a)) : Only P (m >>= f) := by
  intro r t h e he
  rcases runs_bind h with ⟨err, _, hrun⟩ | ⟨a, t₁, t₂, rfl, h₁, h₂⟩
  · exact hm _ t hrun e he
  · rcases List.mem_append.mp he with he | he
    · exact hm _ t₁ h₁ e he
    · exact hf a _ t₂ h₂ e he

/-- A run of a bind with an event that its first part never emits gets past
that part. -/
theorem runs_bind_past {D : ω → Prop} (hm : Only (fun e => ¬ D e) m) {r : Except ε β}
    (h : Runs (m >>= f) r t) {e : ω} (he : e ∈ t) (hD : D e) :
    ∃ a t₁ t₂, t = t₁ ++ t₂ ∧ (∀ x ∈ t₁, ¬ D x) ∧ Runs m (.ok a) t₁ ∧ Runs (f a) r t₂ ∧
      e ∈ t₂ := by
  rcases runs_bind h with ⟨err, _, hrun⟩ | ⟨a, t₁, t₂, rfl, h₁, h₂⟩
  · exact absurd hD (hm _ t hrun e he)
  · have hfree := hm _ t₁ h₁
    refine ⟨a, t₁, t₂, rfl, hfree, h₁, h₂, ?_⟩
    exact (List.mem_append.mp he).resolve_left fun hmem => hfree e hmem hD

theorem only_mapStop {g : ε → ε} (hm : Only P m) : Only P (mapStop g m) := by
  intro r t h e he
  rcases runs_mapStop h with ⟨err, _, hrun⟩ | ⟨a, _, hrun⟩
  · exact hm _ t hrun e he
  · exact hm _ t hrun e he

theorem only_ite {c : Prop} [Decidable c] {m m' : Script ι ω ε α} (hm : c → Only P m)
    (hm' : ¬ c → Only P m') : Only P (if c then m else m') := by
  by_cases h : c
  · rw [if_pos h]
    exact hm h
  · rw [if_neg h]
    exact hm' h

/-- Where an event of a kind occurs once, there is one way to split the trace
at such an event. -/
theorem split_unique {D : ω → Prop} {u v pre post : List ω} {d e : ω} (hu : ∀ x ∈ u, ¬ D x)
    (hv : ∀ x ∈ v, ¬ D x) (h : u ++ d :: v = pre ++ e :: post) (he : D e) : pre = u ∧ e = d := by
  rcases List.append_eq_append_iff.mp h with ⟨w, rfl, hw⟩ | ⟨w, rfl, hw⟩
  · cases w with
    | nil =>
      cases hw
      exact ⟨by simp, rfl⟩
    | cons x w =>
      cases hw
      exact absurd he (hv e (by simp))
  · cases w with
    | nil =>
      cases hw
      exact ⟨by simp, rfl⟩
    | cons x w =>
      cases hw
      exact absurd he (hu e (by simp))

end Script

end OpenstackBlueprint.Kit
