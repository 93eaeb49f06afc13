import OpenstackBlueprint.Powerdns.ApiKeyInit

/-!
# One PowerDNS API key

A container keeps the key it was started with. The server and the worker that
authenticates to it therefore work together as long as no container holds a key
that is not, or no longer, the one of its Secret (`Agree`).

A create is atomic and the loser of a race takes the winner's key, but a patch is
sent on the word of an earlier read. The keys agree in every run exactly when no
patch can be pending: the Secret is absent or holds a key, and no Job is about to
patch it (`keys_agree_iff_settled`).
-/

namespace OpenstackBlueprint.Powerdns

open OpenstackBlueprint.Kit

/-! ## Keys of a Secret -/

theorem b64encode_eq_empty {s : String} : b64encode s = "" ↔ s = "" := by
  constructor
  · intro h
    have hdecode := b64decode_b64encode s
    rw [h, ← show b64encode "" = "" from rfl, b64decode_b64encode] at hdecode
    exact (Option.some.inj hdecode).symm
  · rintro rfl
    rfl

theorem Secret.holdsKey_iff {s : Secret} :
    s.holdsKey = true ↔ ∃ key, s.key = some key ∧ key ≠ "" := by
  unfold holdsKey
  cases hkey : s.key with
  | none => simp
  | some key => simp [b64encode_eq_empty]

@[simp] theorem Secret.key_patch (s : Secret) (token : String) :
    (s.patch token).key = some token := by
  unfold key patch
  rw [Dict.get?_set, if_pos rfl]

@[simp] theorem key_body (uid : Nat) (token : String) : (body uid token).key = some token := by
  unfold Secret.key body
  rw [Dict.get?_set, if_pos rfl]

variable {ι κ : Type} {w w' w₀ : World ι κ} {i j : ι} {pc : Pc}

/-! ## Agreement -/

/-- No container holds another key than its Secret, and no two containers of one Secret hold
different keys. -/
structure Agree (w : World ι κ) : Prop where
  secret : ∀ p uid key s, w.pods p = some (uid, key) → w.secret = some s → s.uid = uid →
    s.key = some key
  pods : ∀ p q uid key key', w.pods p = some (uid, key) → w.pods q = some (uid, key') → key = key'

/-- The Secret, if there is one, holds a key, and no Job is about to patch it. -/
structure Settled (w : World ι κ) : Prop where
  secret : ∀ s, w.secret = some s → s.holdsKey
  jobs : ∀ i, w.jobs i ≠ .patching

/-- Uids are given out in order. -/
structure Numbered (w : World ι κ) : Prop where
  secret : ∀ s, w.secret = some s → s.uid < w.clock
  pods : ∀ p uid key, w.pods p = some (uid, key) → uid < w.clock

/-- What every run from a settled state keeps. -/
structure Inv (w : World ι κ) : Prop where
  settled : Settled w
  numbered : Numbered w
  agree : Agree w

theorem Inv.move [DecidableEq ι] (h : Inv w) (hpc : pc ≠ .patching) : Inv (w.move i pc) where
  settled := by
    refine ⟨h.settled.secret, ?_⟩
    intro k
    by_cases hk : k = i
    · subst hk
      simpa [World.move] using hpc
    · simpa [World.move, Function.update_of_ne hk] using h.settled.jobs k
  numbered := ⟨h.numbered.secret, h.numbered.pods⟩
  agree := ⟨h.agree.secret, h.agree.pods⟩

/-- A Secret created with a key is one no container has seen. -/
theorem Inv.create (h : Inv w) {s : Secret} (huid : s.uid = w.clock) (hkey : s.holdsKey) :
    Inv (w.create s) where
  settled := by
    refine ⟨?_, h.settled.jobs⟩
    intro t ht
    cases ht
    exact hkey
  numbered := by
    refine ⟨?_, ?_⟩
    · intro t ht
      cases ht
      rw [huid]
      exact Nat.lt_succ_self _
    · intro p uid key hp
      exact Nat.lt_succ_of_lt (h.numbered.pods p uid key hp)
  agree := by
    refine ⟨?_, h.agree.pods⟩
    intro p uid key t hp ht hsame
    cases ht
    have hold := h.numbered.pods p uid key hp
    omega

theorem Inv.startPod [DecidableEq κ] (h : Inv w) {p : κ} {s : Secret} {key : String} (hs : w.secret = some s)
    (hkey : s.key = some key) : Inv (w.startPod p s.uid key) where
  settled := ⟨h.settled.secret, h.settled.jobs⟩
  numbered := by
    refine ⟨h.numbered.secret, ?_⟩
    intro q uid key' hq
    by_cases hqp : q = p
    · subst hqp
      simp only [World.startPod, Function.update_self, Option.some.injEq, Prod.mk.injEq] at hq
      exact hq.1 ▸ h.numbered.secret s hs
    · simp only [World.startPod, Function.update_of_ne hqp] at hq
      exact h.numbered.pods q uid key' hq
  agree := by
    -- every container of this Secret, the new one too, holds its key
    have hsecret : ∀ q uid key', (w.startPod p s.uid key).pods q = some (uid, key') →
        s.uid = uid → s.key = some key' := by
      intro q uid key' hq huid
      by_cases hqp : q = p
      · subst hqp
        simp only [World.startPod, Function.update_self, Option.some.injEq, Prod.mk.injEq] at hq
        rw [hkey, hq.2]
      · simp only [World.startPod, Function.update_of_ne hqp] at hq
        exact h.agree.secret q uid key' s hq hs huid
    refine ⟨?_, ?_⟩
    · intro q uid key' t hq ht huid
      obtain rfl := Option.some.inj (hs.symm.trans ht)
      exact hsecret q uid key' hq huid
    · intro q r uid k k' hq hr
      by_cases huid : s.uid = uid
      · exact Option.some.inj ((hsecret q uid k hq huid).symm.trans (hsecret r uid k' hr huid))
      · have hold : ∀ q k, (w.startPod p s.uid key).pods q = some (uid, k) →
            w.pods q = some (uid, k) := by
          intro q k hq
          by_cases hqp : q = p
          · subst hqp
            simp only [World.startPod, Function.update_self, Option.some.injEq,
              Prod.mk.injEq] at hq
            exact absurd hq.1 huid
          · simpa only [World.startPod, Function.update_of_ne hqp] using hq
        exact h.agree.pods q r uid k k' (hold q k hq) (hold r k' hr)

theorem Inv.touch (h : Inv w) {s s' : Secret} (hs : w.secret = some s) (huid : s'.uid = s.uid)
    (hkey : s'.key = s.key) : Inv (w.store s') where
  settled := by
    refine ⟨?_, h.settled.jobs⟩
    intro t ht
    cases ht
    rw [Secret.holdsKey_iff, hkey, ← Secret.holdsKey_iff]
    exact h.settled.secret s hs
  numbered := by
    refine ⟨?_, h.numbered.pods⟩
    intro t ht
    cases ht
    rw [huid]
    exact h.numbered.secret s hs
  agree := by
    refine ⟨?_, h.agree.pods⟩
    intro p uid key t hp ht hsame
    cases ht
    rw [hkey]
    exact h.agree.secret p uid key s hp hs (huid ▸ hsame)

theorem Inv.delete (h : Inv w) : Inv { w with secret := none } where
  settled := ⟨by simp, h.settled.jobs⟩
  numbered := ⟨by simp, h.numbered.pods⟩
  agree := ⟨by simp, h.agree.pods⟩

/-- A Job that reads a settled Secret has nothing to patch. -/
theorem afterRead_ne_patching (h : Settled w) {answer : Answer Secret}
    (hreads : answer.Reads w.secret) : afterRead answer ≠ .patching := by
  cases answer with
  | ok s => simp [afterRead, h.secret s hreads]
  | notFound => simp [afterRead]
  | conflict => simp [afterRead]
  | failed => simp [afterRead]

theorem afterCreate_ne_patching (answer : Answer Unit) : afterCreate answer ≠ .patching := by
  cases answer <;> simp [afterCreate]

variable [DecidableEq ι] [DecidableEq κ]

theorem Inv.step (h : Inv w) (hstep : Step w w') : Inv w' := by
  cases hstep with
  | read i answer _ hreads => exact h.move (afterRead_ne_patching h.settled hreads)
  | patched i s token answer hpc => exact absurd hpc (h.settled.jobs i)
  | notPatched i answer hpc => exact absurd hpc (h.settled.jobs i)
  | created i token answer _ _ htoken =>
    have hkey : (body w.clock token).holdsKey :=
      Secret.holdsKey_iff.mpr ⟨token, key_body _ _, htoken⟩
    exact (h.create rfl hkey).move (afterCreate_ne_patching answer)
  | notCreated i answer => exact h.move (afterCreate_ne_patching answer)
  | restart i => exact h.move (by simp)
  | podStarts p s key hs hkey => exact h.startPod hs hkey
  | provided s _ huid hkey => exact h.create huid hkey
  | touched s s' hs huid hkey => exact h.touch hs huid hkey
  | deleted => exact h.delete

/-! ## Disagreement -/

/-- Some run from `w₀` ends in disagreement. -/
def Disagrees (w₀ : World ι κ) : Prop := ∃ w, (keySystem w₀).Reachable w ∧ ¬ Agree w

/-- A container starts, then the pending patch replaces its key. -/
theorem disagrees_of_keyed [Nonempty κ] (hw : (keySystem w₀).Reachable w)
    (hi : w.jobs i = .patching) {s : Secret} {key : String} (hs : w.secret = some s)
    (hkey : s.key = some key) : Disagrees w₀ := by
  obtain ⟨p⟩ := ‹Nonempty κ›
  have hstarted := hw.step (Step.podStarts w p s key hs hkey)
  have htoken : key ++ "a" ≠ "" := by simp
  have hpatched := hstarted.step
    (Step.patched _ i s (key ++ "a") (.ok ()) hi hs htoken (.inl rfl))
  refine ⟨_, hpatched, ?_⟩
  intro hagree
  have hheld := hagree.secret p s.uid key (s.patch (key ++ "a"))
    (by simp [World.move, World.store, World.startPod]) rfl rfl
  rw [Secret.key_patch] at hheld
  have hlength := congrArg String.length (Option.some.inj hheld)
  simp at hlength

/-- While Job `i` is about to patch, Job `j` mints a key of its own. -/
theorem disagrees_of_patching [Nonempty κ] (hij : i ≠ j) (hw : (keySystem w₀).Reachable w)
    (hi : w.jobs i = .patching) : Disagrees w₀ := by
  have hrestart := hw.step (Step.restart w j)
  have hj : (w.move j .start).jobs j = .start := by simp [World.move]
  cases hs : w.secret with
  | none =>
    have hread := hrestart.step (Step.read _ j .notFound hj hs)
    have hcreate := hread.step
      (Step.created _ j "a" (.ok ()) (by simp [World.move, afterRead]) hs (by simp) (.inl rfl))
    have hpending : ((((w.move j .start).move j (afterRead .notFound)).create
        (body w.clock "a")).move j (afterCreate (.ok ()))).jobs i = .patching := by
      simp [World.move, World.create, Function.update_of_ne hij, hi]
    exact disagrees_of_keyed hcreate hpending rfl (key_body _ _)
  | some s =>
    cases hkey : s.key with
    | some key => exact disagrees_of_keyed hw hi hs hkey
    | none =>
      have hread := hrestart.step (Step.read _ j (.ok s) hj hs)
      have hunkeyed : s.holdsKey = false := by simp [Secret.holdsKey, hkey]
      have hpatch := hread.step (Step.patched _ j s "a" (.ok ())
        (by simp [World.move, afterRead, hunkeyed]) hs (by simp) (.inl rfl))
      have hpending : ((((w.move j .start).move j (afterRead (.ok s))).store
          (s.patch "a")).move j (afterPatch (.ok ()))).jobs i = .patching := by
        simp [World.move, World.store, Function.update_of_ne hij, hi]
      exact disagrees_of_keyed hpatch hpending rfl (Secret.key_patch _ _)

theorem disagrees_of_not_settled [Nontrivial ι] [Nonempty κ] (h : ¬ Settled w₀) :
    Disagrees w₀ := by
  have hw : (keySystem w₀).Reachable w₀ := .init rfl
  by_cases hjobs : ∀ i, w₀.jobs i ≠ .patching
  · have hsecret : ∃ s, w₀.secret = some s ∧ ¬ s.holdsKey := by
      by_contra hall
      push Not at hall
      exact h ⟨hall, hjobs⟩
    obtain ⟨s, hs, hunkeyed⟩ := hsecret
    obtain ⟨i, j, hij⟩ := exists_pair_ne ι
    have hrestart := hw.step (Step.restart w₀ i)
    have hread := hrestart.step (Step.read _ i (.ok s) (by simp [World.move]) hs)
    exact disagrees_of_patching hij hread (by simp [World.move, afterRead, hunkeyed])
  · push Not at hjobs
    obtain ⟨i, hi⟩ := hjobs
    obtain ⟨j, hji⟩ := exists_ne i
    exact disagrees_of_patching hji.symm hw hi

/-! ## Main result -/

/-- Before any container has started: the keys agree in every later state, whatever Jobs,
retries, containers and operators do, exactly when no patch can be pending. -/
theorem keys_agree_iff_settled [Nontrivial ι] [Nonempty κ] (w : World ι κ)
    (hpods : ∀ p, w.pods p = none) (hnumbered : ∀ s, w.secret = some s → s.uid < w.clock) :
    (keySystem w).Invariant Agree ↔ Settled w := by
  constructor
  · intro hagree
    by_contra hsettled
    obtain ⟨w', hw', hdisagree⟩ := disagrees_of_not_settled hsettled
    exact hdisagree (hagree w' hw')
  · intro hsettled w' hw'
    have hinductive : (keySystem w).Inductive Inv := by
      refine ⟨?_, fun _ _ => Inv.step⟩
      rintro _ rfl
      exact ⟨hsettled, ⟨hnumbered, by simp [hpods]⟩, ⟨by simp [hpods], by simp [hpods]⟩⟩
    exact (hinductive.invariant w' hw').agree

/-- A fresh install: two Jobs race to create the Secret, and the keys agree. -/
theorem fresh_install_keys_agree :
    (keySystem (⟨none, 0, fun _ => .start, fun _ => none⟩ : World Bool Bool)).Invariant Agree :=
  (keys_agree_iff_settled _ (fun _ => rfl) (by simp)).mpr ⟨by simp, by simp⟩

end OpenstackBlueprint.Powerdns
