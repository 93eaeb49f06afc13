import OpenstackBlueprint.Powerdns.DbSync

/-!
# A schema that is whole or refused

* a run that exits 0 leaves every table the schema declares, and the tables are at
  any time those of the first statements of the schema: of the pods that race, one
  gets past the first statement (`tables_grow_in_order`);
* a schema that was cut off in the middle is never resumed and never reported as
  present: from then on no run exits 0 and no table is created
  (`interrupted_apply_stays_refused`).
-/

namespace OpenstackBlueprint.Powerdns

open OpenstackBlueprint.Kit

/-! ## Text -/

theorem createdBy_ne_empty {line name : String} (h : createdBy line = some name) : name ≠ "" := by
  unfold createdBy at h
  split at h
  · split at h
    · cases h
    · rename_i hne
      obtain rfl := Option.some.inj h
      intro hempty
      exact hne (String.ofList_injective hempty)
  · cases h

theorem mem_of_mem_captured {lines : List String} {z : String} (h : z ∈ captured lines) :
    z ∈ lines :=
  (List.rdropWhile_prefix _ lines).subset h

/-- Only empty lines are dropped. -/
theorem mem_captured {lines : List String} {z : String} (h : z ∈ lines) (hz : z ≠ "") :
    z ∈ captured lines := by
  have hmem := List.mem_reverse.mpr h
  rw [← List.takeWhile_append_dropWhile (p := (· == "")) (l := lines.reverse)] at hmem
  rcases List.mem_append.mp hmem with hdropped | hkept
  · exact absurd (by simpa using List.mem_takeWhile_imp hdropped) hz
  · exact List.mem_reverse.mpr hkept

theorem captured_eq_self {lines : List String} (h : "" ∉ lines) : captured lines = lines := by
  refine List.rdropWhile_eq_self_iff.mpr ?_
  intro hne
  simp only [beq_iff_eq]
  rintro hlast
  exact h (hlast ▸ List.getLast_mem hne)

theorem sorted_sortAlpha (l : List String) : (sortAlpha l).Pairwise (· ≤ ·) :=
  List.pairwise_insertionSort _ l

theorem sorted_captured {l : List String} (h : l.Pairwise (· ≤ ·)) :
    (captured l).Pairwise (· ≤ ·) :=
  h.sublist (List.rdropWhile_prefix _ l).sublist

theorem sorted_echo {l : List String} (h : l.Pairwise (· ≤ ·)) : (echo l).Pairwise (· ≤ ·) := by
  unfold echo
  split
  · exact List.pairwise_singleton _ _
  · exact h

theorem mem_echo {l : List String} {z : String} (hz : z ≠ "") : z ∈ echo l ↔ z ∈ l := by
  unfold echo
  split
  · rename_i hnil
    simp [hnil, hz]
  · exact Iff.rfl

/-! ## The two comparisons -/

namespace Schema

variable {schema : Schema} {tables : List String} {name : String}

theorem ne_empty_of_declares (h : name ∈ schema.declares) : name ≠ "" := by
  obtain ⟨line, _, hline⟩ := List.mem_filterMap.mp h
  exact createdBy_ne_empty hline

theorem expected_eq (schema : Schema) : schema.expected = sortAlpha schema.declares := by
  refine captured_eq_self ?_
  intro h
  exact ne_empty_of_declares (mem_sortAlpha.mp h) rfl

theorem sorted_expected (schema : Schema) : (echo schema.expected).Pairwise (· ≤ ·) := by
  rw [expected_eq]
  exact sorted_echo (sorted_sortAlpha _)

theorem mem_expected (h : name ∈ schema.declares) : name ∈ echo schema.expected := by
  rw [mem_echo (ne_empty_of_declares h), expected_eq]
  exact mem_sortAlpha.mpr h

theorem sorted_existing (tables : List String) :
    (echo (captured (sortAlpha tables))).Pairwise (· ≤ ·) :=
  sorted_echo (sorted_captured (sorted_sortAlpha tables))

theorem mem_existing (h : name ≠ "") : name ∈ echo (captured (sortAlpha tables)) ↔ name ∈ tables := by
  rw [mem_echo h]
  constructor
  · intro hmem
    exact mem_sortAlpha.mp (mem_of_mem_captured hmem)
  · intro hmem
    exact mem_captured (mem_sortAlpha.mpr hmem) h

/-- Every declared table exists. -/
def Whole (schema : Schema) (tables : List String) : Prop := ∀ name ∈ schema.declares, name ∈ tables

/-- Some declared table exists, and some does not. -/
def Holed (schema : Schema) (tables : List String) : Prop :=
  (∃ name ∈ schema.declares, name ∈ tables) ∧ ∃ name ∈ schema.declares, name ∉ tables

/-- A first comparison that finds nothing missing. -/
theorem whole_of_alreadyPresent (h : afterShow schema tables = .exited .alreadyPresent) :
    schema.Whole tables := by
  intro name hname
  by_contra hmissing
  have hne := ne_empty_of_declares hname
  have hleft := mem_left_of_not_mem (sorted_expected schema) (sorted_existing tables)
    (mem_expected hname) (mt (mem_existing hne).mp hmissing)
  have hcaptured := List.ne_nil_of_mem (mem_captured hleft hne)
  unfold afterShow compare at h
  simp only [hcaptured, if_false] at h
  split_ifs at h <;> simp_all

/-- A database with some of the tables is refused. -/
theorem afterShow_of_holed (h : schema.Holed tables) :
    ∃ exit, afterShow schema tables = .exited exit ∧ exit.ok = false := by
  obtain ⟨⟨name, hname, hthere⟩, name', hname', hmissing⟩ := h
  have hne := ne_empty_of_declares hname
  have hne' := ne_empty_of_declares hname'
  have hleft := List.ne_nil_of_mem (mem_captured (mem_left_of_not_mem (sorted_expected schema)
    (sorted_existing tables) (mem_expected hname') (mt (mem_existing hne').mp hmissing)) hne')
  have hboth := List.ne_nil_of_mem (mem_captured ((mem_both_iff (sorted_expected schema)
    (sorted_existing tables)).mpr ⟨mem_expected hname, (mem_existing hne).mpr hthere⟩) hne)
  unfold afterShow
  dsimp only [compare]
  rw [if_neg hleft, if_pos hboth]
  split_ifs
  · exact ⟨_, rfl, rfl⟩
  · exact ⟨_, rfl, rfl⟩
  · exact ⟨_, rfl, rfl⟩

theorem mem_declares_of_mem_echo (hne : schema.declares ≠ []) (h : name ∈ echo schema.expected) :
    name ∈ schema.declares := by
  have hexpected : schema.expected ≠ [] := by
    rw [expected_eq]
    obtain ⟨other, hother⟩ := List.exists_mem_of_ne_nil _ hne
    exact List.ne_nil_of_mem (mem_sortAlpha.mpr hother)
  unfold echo at h
  rw [if_neg hexpected, expected_eq] at h
  exact mem_sortAlpha.mp h

/-- Statements are executed only over a database that had none of the tables. -/
theorem not_mem_of_applying {rest : List Statement} (h : afterShow schema tables = .applying rest) :
    ∀ name ∈ schema.declares, name ∉ tables := by
  intro name hname hthere
  have hne := ne_empty_of_declares hname
  have hboth := List.ne_nil_of_mem (mem_captured ((mem_both_iff (sorted_expected schema)
    (sorted_existing tables)).mpr ⟨mem_expected hname, (mem_existing hne).mpr hthere⟩) hne)
  unfold afterShow at h
  dsimp only [compare] at h
  rw [if_pos hboth] at h
  split_ifs at h

theorem afterShow_of_none (hne : schema.declares ≠ [])
    (hnone : ∀ name ∈ schema.declares, name ∉ tables) :
    afterShow schema tables = .applying schema.statements := by
  obtain ⟨name, hname⟩ := List.exists_mem_of_ne_nil _ hne
  have hlines : schema.lines ≠ [] := by
    intro hnil
    unfold declares at hname
    rw [hnil] at hname
    cases hname
  have hexpected : schema.expected ≠ [] := by
    rw [expected_eq]
    exact List.ne_nil_of_mem (mem_sortAlpha.mpr hname)
  have hempty := ne_empty_of_declares hname
  have hleft := List.ne_nil_of_mem (mem_captured (mem_left_of_not_mem (sorted_expected schema)
    (sorted_existing tables) (mem_expected hname) (mt (mem_existing hempty).mp (hnone name hname)))
    hempty)
  have hboth : (comm (echo schema.expected) (echo (captured (sortAlpha tables)))).both = [] := by
    refine List.eq_nil_iff_forall_not_mem.mpr ?_
    intro z hz
    obtain ⟨hz, hz'⟩ := (mem_both_iff (sorted_expected schema) (sorted_existing tables)).mp hz
    have hdeclared := mem_declares_of_mem_echo hne hz
    exact hnone z hdeclared ((mem_existing (ne_empty_of_declares hdeclared)).mp hz')
  unfold afterShow
  dsimp only [compare]
  rw [if_neg hlines, if_neg hexpected, if_neg hleft, hboth]
  rfl

/-- The last comparison finds every table of a whole database. -/
theorem afterAssert_of_whole (hnodup : schema.declares.Nodup) (hne : schema.declares ≠ [])
    (hwhole : schema.Whole tables) : afterAssert schema tables = .exited .applied := by
  have hleft : (comm (echo schema.expected) (sortAlpha tables)).left = [] := by
    refine List.eq_nil_iff_forall_not_mem.mpr ?_
    intro z hz
    have hdeclared := mem_declares_of_mem_echo hne
      (mem_of_mem_left (sorted_expected schema) (sorted_sortAlpha tables) hz)
    have hexpected : echo schema.expected = sortAlpha schema.declares := by
      unfold echo
      rw [expected_eq, if_neg (List.ne_nil_of_mem (mem_sortAlpha.mpr hdeclared))]
    have hone : (echo schema.expected).count z ≤ 1 := by
      rw [hexpected]
      exact List.nodup_iff_count_le_one.mp (nodup_sortAlpha hnodup) z
    have hthere : 0 < (sortAlpha tables).count z :=
      List.count_pos_iff.mpr (mem_sortAlpha.mpr (hwhole z hdeclared))
    rw [← List.count_pos_iff, (count_comm (sorted_expected schema) (sorted_sortAlpha tables) z).1]
      at hz
    omega
  unfold afterAssert
  rw [hleft]
  rfl

/-- What the first comparison leads to. -/
theorem afterShow_cases (schema : Schema) (tables : List String) :
    afterShow schema tables = .applying schema.statements ∨
      (afterShow schema tables = .exited .alreadyPresent ∧ schema.Whole tables) ∨
      ∃ exit, afterShow schema tables = .exited exit ∧ exit.ok = false := by
  by_cases hpresent : afterShow schema tables = .exited .alreadyPresent
  · exact .inr (.inl ⟨hpresent, whole_of_alreadyPresent hpresent⟩)
  · unfold afterShow at hpresent ⊢
    dsimp only at hpresent ⊢
    split_ifs at hpresent ⊢
    · exact .inr (.inr ⟨_, rfl, rfl⟩)
    · exact .inr (.inr ⟨_, rfl, rfl⟩)
    · exact absurd rfl hpresent
    · exact .inr (.inr ⟨_, rfl, rfl⟩)
    · exact .inl rfl

end Schema

namespace Schema

theorem Bare.declares_ne_nil {schema : Schema} (h : schema.Bare) : schema.declares ≠ [] := by
  obtain ⟨first, later, hfirst⟩ := h.first
  rw [h.declares, hfirst]
  exact List.cons_ne_nil _ _

end Schema

/-! ## Any number of pods -/

variable {ι : Type} {schema : Schema} {base : List String} {d d' : Database ι}
  {done : List Statement} {i : ι} {stage : Stage}

/-- Pod `i` has executed some of the statements, and its client is not finished. -/
def Applying (schema : Schema) (d : Database ι) (i : ι) : Prop :=
  ∃ rest, d.jobs i = .applying rest ∧ rest ≠ schema.statements

/-- Pod `i` is past the first statement of the schema. -/
def Past (schema : Schema) (d : Database ι) (i : ι) : Prop :=
  Applying schema d i ∨ d.jobs i = .asserting

/-- What a state of a run looks like that started over the tables `base`. -/
structure Grown (schema : Schema) (base : List String) (d : Database ι) : Prop where
  tables : ∃ done, done <+: schema.statements ∧
    d.tables = base ++ done.filterMap Statement.creates
  unique : ∀ i j, Past schema d i → Past schema d j → i = j
  whole : ∀ i exit, d.jobs i = .exited exit → exit.ok → schema.Whole d.tables

/-- The same, with the statements `done` so far and what each pod relies on. -/
structure Done (schema : Schema) (base : List String) (done : List Statement) (d : Database ι) :
    Prop where
  isPrefix : done <+: schema.statements
  tables : d.tables = base ++ done.filterMap Statement.creates
  applying : ∀ i rest, d.jobs i = .applying rest →
    (∀ name ∈ schema.declares, name ∉ base) ∧
      (rest = schema.statements ∨ done ≠ [] ∧ done ++ rest = schema.statements)
  unique : ∀ i j, Past schema d i → Past schema d j → i = j
  asserting : ∀ i, d.jobs i = .asserting → schema.Whole d.tables
  whole : ∀ i exit, d.jobs i = .exited exit → exit.ok → schema.Whole d.tables

theorem Done.grown (h : Done schema base done d) : Grown schema base d :=
  ⟨⟨done, h.isPrefix, h.tables⟩, h.unique, h.whole⟩

/-- A table that does not exist yet is not one of the first statement, once that is done. -/
theorem Done.nil_of_first (h : Done schema base done d) {name : String} {rest : List Statement}
    (hfirst : .createTable name :: rest = schema.statements) (hname : name ∉ d.tables) :
    done = [] := by
  cases hdone : done with
  | nil => rfl
  | cons statement more =>
    obtain ⟨rest', hprefix⟩ := h.isPrefix
    rw [hdone, ← hfirst, List.cons_append] at hprefix
    obtain rfl := (List.cons.inj hprefix).1
    refine absurd ?_ hname
    rw [h.tables, hdone]
    exact List.mem_append_right _ (List.mem_filterMap.mpr ⟨_, List.mem_cons_self, rfl⟩)

variable [DecidableEq ι]

/-- Where a pod stands after pod `i` moved. -/
theorem jobs_move {j : ι} {at' : Stage} (h : (d.move i stage).jobs j = at') :
    j = i ∧ stage = at' ∨ j ≠ i ∧ d.jobs j = at' := by
  unfold Database.move at h
  by_cases hji : j = i
  · subst hji
    exact .inl ⟨rfl, by simpa using h⟩
  · exact .inr ⟨hji, by simpa [Function.update_of_ne hji] using h⟩

/-- A pod goes to a stage that claims nothing new. -/
theorem Done.move (h : Done schema base done d)
    (happlying : ∀ rest, stage = .applying rest →
      rest = schema.statements ∧ ∀ name ∈ schema.declares, name ∉ base)
    (hwhole : stage = .asserting ∨ (∃ exit, stage = .exited exit ∧ exit.ok) →
      schema.Whole d.tables)
    (hasserting : stage = .asserting → Past schema d i) :
    Done schema base done (d.move i stage) where
  isPrefix := h.isPrefix
  tables := h.tables
  applying := by
    intro j rest hj
    rcases jobs_move hj with ⟨_, hstage⟩ | ⟨_, hj⟩
    · obtain ⟨hrest, hnone⟩ := happlying rest hstage
      exact ⟨hnone, .inl hrest⟩
    · exact h.applying j rest hj
  unique := by
    have hpast : ∀ j, Past schema (d.move i stage) j → Past schema d j := by
      rintro j (⟨rest, hj, hrest⟩ | hj)
      · rcases jobs_move hj with ⟨_, hstage⟩ | ⟨_, hj⟩
        · exact absurd (happlying rest hstage).1 hrest
        · exact .inl ⟨rest, hj, hrest⟩
      · rcases jobs_move hj with ⟨rfl, hstage⟩ | ⟨_, hj⟩
        · exact hasserting hstage
        · exact .inr hj
    intro j k hj hk
    exact h.unique j k (hpast j hj) (hpast k hk)
  asserting := by
    intro j hj
    rcases jobs_move hj with ⟨_, hstage⟩ | ⟨_, hj⟩
    · exact hwhole (.inl hstage)
    · exact h.asserting j hj
  whole := by
    intro j exit hj hok
    rcases jobs_move hj with ⟨_, hstage⟩ | ⟨_, hj⟩
    · exact hwhole (.inr ⟨exit, hstage, hok⟩)
    · exact h.whole j exit hj hok

/-- A pod that stops or starts over says nothing. -/
theorem Done.stop (h : Done schema base done d)
    (hstage : stage = .start ∨ ∃ exit, stage = .exited exit ∧ exit.ok = false) :
    Done schema base done (d.move i stage) := by
  refine h.move ?_ ?_ ?_
  · rintro rest rfl
    rcases hstage with hstage | ⟨exit, hstage, _⟩ <;> cases hstage
  · intro hclaim
    rcases hstage with rfl | ⟨exit, rfl, hred⟩
    · rcases hclaim with hclaim | ⟨exit, hclaim, _⟩ <;> cases hclaim
    · rcases hclaim with hclaim | ⟨exit', hclaim, hok⟩
      · cases hclaim
      · cases hclaim
        rw [hred] at hok
        cases hok
  · rintro rfl
    rcases hstage with hstage | ⟨exit, hstage, _⟩ <;> cases hstage

/-- The table a statement creates is there afterwards. -/
def Database.execute (d : Database ι) (statement : Statement) : Database ι :=
  { d with tables := d.tables ++ [statement].filterMap Statement.creates }

omit [DecidableEq ι] in
theorem execute_other (d : Database ι) : d.execute .other = d := by
  unfold Database.execute
  rw [show [Statement.other].filterMap Statement.creates = [] from rfl, List.append_nil]

omit [DecidableEq ι] in
/-- While a pod executes a statement, no other is past the first one. -/
theorem Done.not_past {statement : Statement} {rest : List Statement} {j : ι}
    (h : Done schema base done d) (hne : schema.declares ≠ [])
    (hi : d.jobs i = .applying (statement :: rest))
    (hstart : statement :: rest = schema.statements → done = []) (hji : j ≠ i) :
    ¬ Past schema d j := by
  intro hpast
  by_cases hfirst : statement :: rest = schema.statements
  · -- nothing is done yet, so no table of the schema is there
    have hdone := hstart hfirst
    rcases hpast with ⟨rest', hj, hrest'⟩ | hj
    · rcases (h.applying j rest' hj).2 with heq | ⟨hdone', _⟩
      · exact hrest' heq
      · exact hdone' hdone
    · obtain ⟨name, hname⟩ := List.exists_mem_of_ne_nil _ hne
      have hthere := h.asserting j hj name hname
      rw [h.tables, hdone, List.filterMap_nil, List.append_nil] at hthere
      exact (h.applying i _ hi).1 name hname hthere
  · exact hji (h.unique j i hpast (.inl ⟨_, hi, hfirst⟩))

/-- A statement is executed by the pod that has got furthest. -/
theorem Done.execute {statement : Statement} {rest : List Statement}
    (h : Done schema base done d) (hne : schema.declares ≠ [])
    (hi : d.jobs i = .applying (statement :: rest))
    (hstart : statement :: rest = schema.statements → done = []) :
    Done schema base (done ++ [statement]) ((d.execute statement).move i (.applying rest)) := by
  obtain ⟨hnone, hrest⟩ := h.applying i _ hi
  have hstatements : (done ++ [statement]) ++ rest = schema.statements := by
    rw [List.append_assoc]
    rcases hrest with hrest | hrest
    · rw [hstart hrest]
      exact hrest
    · exact hrest.2
  have hgrow : schema.Whole d.tables → schema.Whole (d.execute statement).tables :=
    fun hwhole name hname => List.mem_append_left _ (hwhole name hname)
  have hothers : ∀ j, j ≠ i → ¬ Past schema d j := fun j hji => h.not_past hne hi hstart hji
  refine ⟨⟨rest, hstatements⟩, ?_, ?_, ?_, ?_, ?_⟩
  · rw [List.filterMap_append, ← List.append_assoc, ← h.tables]
    rfl
  · intro j rest' hj
    refine ⟨hnone, ?_⟩
    rcases jobs_move hj with ⟨_, hstage⟩ | ⟨hji, hj⟩
    · cases hstage
      exact .inr ⟨by simp, hstatements⟩
    · left
      by_contra hrest'
      exact hothers j hji (.inl ⟨rest', hj, hrest'⟩)
  · have hpast : ∀ j, Past schema ((d.execute statement).move i (.applying rest)) j → j = i := by
      intro j hpast
      by_contra hji
      refine hothers j hji ?_
      rcases hpast with ⟨rest', hj, hrest'⟩ | hj
      · rcases jobs_move hj with ⟨hji', _⟩ | ⟨_, hj⟩
        · exact absurd hji' hji
        · exact .inl ⟨rest', hj, hrest'⟩
      · rcases jobs_move hj with ⟨hji', _⟩ | ⟨_, hj⟩
        · exact absurd hji' hji
        · exact .inr hj
    intro j k hj hk
    rw [hpast j hj, hpast k hk]
  · intro j hj
    rcases jobs_move hj with ⟨_, hstage⟩ | ⟨_, hj⟩
    · cases hstage
    · exact hgrow (h.asserting j hj)
  · intro j exit hj hok
    rcases jobs_move hj with ⟨_, hstage⟩ | ⟨_, hj⟩
    · cases hstage
    · exact hgrow (h.whole j exit hj hok)

/-- One step does at most one statement more. -/
theorem Done.step (hbare : schema.Bare) (h : Done schema base done d) (hstep : DbStep schema d d') :
    ∃ done', done <+: done' ∧ Done schema base done' d' := by
  have hnothing : done <+: done := List.prefix_refl done
  have hone : ∀ statement, done <+: done ++ [statement] := fun _ => List.prefix_append _ _
  obtain ⟨first, later, hfirst⟩ := hbare.first
  have hne := hbare.declares_ne_nil
  cases hstep with
  | shown i hi =>
    refine ⟨done, hnothing, ?_⟩
    rcases schema.afterShow_cases d.tables with happly | ⟨hpresent, hwhole⟩ | hred
    · rw [happly]
      refine h.move ?_ ?_ (by simp)
      · rintro rest hrest
        cases hrest
        refine ⟨rfl, ?_⟩
        intro name hname hbase
        refine Schema.not_mem_of_applying happly name hname ?_
        rw [h.tables]
        exact List.mem_append_left _ hbase
      · rintro (hclaim | ⟨exit, hclaim, _⟩) <;> cases hclaim
    · exact h.move (by simp [hpresent]) (fun _ => hwhole) (by simp [hpresent])
    · exact h.stop (.inr hred)
  | createTable i name rest hi hname =>
    exact ⟨_, hone _, h.execute hne hi fun heq => h.nil_of_first heq hname⟩
  | createTableLast i name rest hi hname =>
    refine ⟨_, hone (.createTable name), ?_⟩
    have hexecuted := h.execute hne hi fun heq => h.nil_of_first heq hname
    have hstopped := hexecuted.stop (i := i) (.inr ⟨.aborted, rfl, rfl⟩)
    simpa [Database.move, Database.execute, Database.create, Statement.creates] using hstopped
  | other i rest hi =>
    refine ⟨_, hone .other, ?_⟩
    have hexecuted := h.execute hne hi fun heq => by
      rw [hfirst] at heq
      cases heq
    rwa [execute_other] at hexecuted
  | applied i hi =>
    have hnone : [] ≠ schema.statements := by
      rw [hfirst]
      exact (List.cons_ne_nil _ _).symm
    refine ⟨done, hnothing, h.move (by simp) (fun _ => ?_) fun _ => .inl ⟨[], hi, hnone⟩⟩
    -- the statements are used up, so all of them are done
    obtain ⟨_, hall⟩ := (h.applying i [] hi).2.resolve_left hnone
    intro name hname
    rw [List.append_nil] at hall
    rw [h.tables, hall, ← hbare.declares]
    exact List.mem_append_right _ hname
  | asserted i hi =>
    exact ⟨done, hnothing,
      h.move (by simp [afterAssert]) (fun _ => h.asserting i hi) (by simp [afterAssert])⟩
  | assertedBlind i hi =>
    exact ⟨done, hnothing,
      h.move (by simp [afterAssert]) (fun _ => h.asserting i hi) (by simp [afterAssert])⟩
  | aborted i => exact ⟨done, hnothing, h.stop (.inr ⟨.aborted, rfl, rfl⟩)⟩
  | restart i => exact ⟨done, hnothing, h.stop (.inl rfl)⟩

/-! ## Main results -/

theorem done_of_reachable (hbare : schema.Bare) {d₀ : Database ι} (hfresh : ∀ i, d₀.jobs i = .start)
    (hd : (dbSystem schema d₀).Reachable d) : ∃ done, Done schema d₀.tables done d := by
  induction hd with
  | init hinit =>
    obtain rfl := hinit
    refine ⟨[], List.nil_prefix, by simp, ?_, ?_, ?_, ?_⟩
    · intro i rest hi
      rw [hfresh i] at hi
      cases hi
    · rintro i j (⟨rest, hi, _⟩ | hi)
      · rw [hfresh i] at hi
        cases hi
      · rw [hfresh i] at hi
        cases hi
    · intro i hi
      rw [hfresh i] at hi
      cases hi
    · intro i exit hi
      rw [hfresh i] at hi
      cases hi
  | step _ hstep ih =>
    obtain ⟨done, hdone⟩ := ih
    obtain ⟨done', _, hdone'⟩ := hdone.step hbare hstep
    exact ⟨done', hdone'⟩

/-- Over any database, with any number of pods at once, each stopped and retried at any point: a
run that exits 0 leaves every declared table, the tables that were added are those of the first
statements of the schema in their order, and one pod at most is past the first statement. -/
theorem tables_grow_in_order (hbare : schema.Bare) (d₀ : Database ι)
    (hfresh : ∀ i, d₀.jobs i = .start) :
    (dbSystem schema d₀).Invariant (Grown schema d₀.tables) := by
  intro d hd
  obtain ⟨done, hdone⟩ := done_of_reachable hbare hfresh hd
  exact hdone.grown

/-- The client gets through the statements that are left when none of their tables exists. -/
theorem exists_run_applying {d₀ : Database ι} {rest : List Statement}
    (hnodup : (rest.filterMap Statement.creates).Nodup)
    (hd : (dbSystem schema d₀).Reachable d) (hi : d.jobs i = .applying rest)
    (hnone : ∀ name ∈ rest.filterMap Statement.creates, name ∉ d.tables) :
    ∃ d', (dbSystem schema d₀).Reachable d' ∧ d'.jobs i = .applying [] ∧
      d'.tables = d.tables ++ rest.filterMap Statement.creates := by
  induction rest generalizing d with
  | nil => exact ⟨d, hd, hi, by simp⟩
  | cons statement rest ih =>
    cases statement with
    | createTable name =>
      have hcreates : (Statement.createTable name :: rest).filterMap Statement.creates =
          name :: rest.filterMap Statement.creates := rfl
      rw [hcreates] at hnodup hnone ⊢
      obtain ⟨hname, hnodup⟩ := List.nodup_cons.mp hnodup
      have hstep := hd.step (DbStep.createTable d i name rest hi (hnone name List.mem_cons_self))
      obtain ⟨d', hd', hi', htables⟩ := ih hnodup hstep (by simp [Database.move]) (by
        intro other hother hthere
        rcases List.mem_append.mp hthere with hthere | hthere
        · exact hnone other (List.mem_cons_of_mem _ hother) hthere
        · exact hname (List.mem_singleton.mp hthere ▸ hother))
      refine ⟨d', hd', hi', ?_⟩
      rw [htables]
      simp [Database.move, Database.create]
    | other =>
      have hstep := hd.step (DbStep.other d i rest hi)
      have hrest := ih hnodup hstep (by simp [Database.move]) hnone
      exact hrest

/-- Over a database with none of the tables a run that is left alone creates them all and
exits 0. -/
theorem undisturbed_run_completes (hbare : schema.Bare) {d₀ : Database ι}
    (hstart : d₀.jobs i = .start) (hnone : ∀ name ∈ schema.declares, name ∉ d₀.tables) :
    ∃ d, (dbSystem schema d₀).Reachable d ∧ d.jobs i = .exited .applied ∧
      d.tables = d₀.tables ++ schema.declares := by
  have hdeclares := hbare.declares_ne_nil
  have hshown := TSys.Reachable.step (S := dbSystem schema d₀) (.init rfl)
    (DbStep.shown d₀ i hstart)
  have happlying : (d₀.move i (afterShow schema d₀.tables)).jobs i =
      .applying schema.statements := by
    rw [Schema.afterShow_of_none hdeclares hnone]
    simp [Database.move]
  obtain ⟨d, hd, hi, htables⟩ := exists_run_applying (hbare.declares ▸ hbare.nodup) hshown
    happlying (hbare.declares ▸ hnone)
  rw [← hbare.declares] at htables
  have hasserting := hd.step (DbStep.applied d i hi)
  have hexit := hasserting.step (DbStep.asserted _ i (by simp [Database.move]))
  refine ⟨_, hexit, ?_, htables⟩
  have hwhole : schema.Whole d.tables := by
    intro name hname
    rw [htables]
    exact List.mem_append_right _ hname
  have happlied := Schema.afterAssert_of_whole hbare.nodup hdeclares hwhole
  simp [Database.move, happlied]

/-- A pod that will not add anything to the tables `held`. -/
def Idle (held : List String) (stage : Stage) : Prop :=
  stage = .start ∨ (∃ exit, stage = .exited exit ∧ exit.ok = false) ∨
    ∃ name rest, stage = .applying (.createTable name :: rest) ∧ name ∈ held

/-- Nothing is added to the tables `held` any more. -/
structure Refused (held : List String) (d : Database ι) : Prop where
  tables : d.tables = held
  idle : ∀ i, Idle held (d.jobs i)

variable {held : List String}

theorem Idle.head {rest : List Statement} (h : Idle held (.applying rest)) :
    ∃ name later, rest = .createTable name :: later ∧ name ∈ held := by
  rcases h with h | ⟨exit, h, _⟩ | ⟨name, later, h, hname⟩
  · cases h
  · cases h
  · cases h
    exact ⟨name, later, rfl, hname⟩

theorem Idle.ne_asserting (h : Idle held stage) : stage ≠ .asserting := by
  rintro rfl
  rcases h with h | ⟨exit, h, _⟩ | ⟨name, later, h, _⟩ <;> cases h

theorem Idle.exit_not_ok {exit : Exit} (h : Idle held (.exited exit)) : exit.ok = false := by
  rcases h with h | ⟨exit', h, hred⟩ | ⟨name, later, h, _⟩
  · cases h
  · cases h
    exact hred
  · cases h

theorem Refused.move (h : Refused held d)
    (hstage : stage = .start ∨ ∃ exit, stage = .exited exit ∧ exit.ok = false) :
    Refused held (d.move i stage) := by
  refine ⟨h.tables, ?_⟩
  intro j
  rcases jobs_move (d := d) (i := i) (j := j) rfl with ⟨_, hj⟩ | ⟨_, hj⟩
  · rw [← hj]
    exact hstage.imp id .inl
  · rw [← hj]
    exact h.idle j

theorem Refused.step (hholed : schema.Holed held) (h : Refused held d)
    (hstep : DbStep schema d d') : Refused held d' := by
  -- a pod that would create a table finds it there
  have hblocked : ∀ i statement rest, d.jobs i = .applying (statement :: rest) →
      ∃ name ∈ d.tables, statement = .createTable name := by
    intro i statement rest hi
    obtain ⟨name, later, heq, hname⟩ := (hi ▸ h.idle i).head
    exact ⟨name, h.tables ▸ hname, (List.cons.inj heq).1⟩
  cases hstep with
  | shown i hi =>
    rw [h.tables]
    exact h.move (.inr (Schema.afterShow_of_holed hholed))
  | createTable i name rest hi hname =>
    obtain ⟨name', hname', heq⟩ := hblocked i _ rest hi
    cases heq
    exact absurd hname' hname
  | createTableLast i name rest hi hname =>
    obtain ⟨name', hname', heq⟩ := hblocked i _ rest hi
    cases heq
    exact absurd hname' hname
  | other i rest hi =>
    obtain ⟨name', _, heq⟩ := hblocked i _ rest hi
    cases heq
  | applied i hi =>
    obtain ⟨name, later, heq, _⟩ := (hi ▸ h.idle i).head
    cases heq
  | asserted i hi => exact absurd hi (h.idle i).ne_asserting
  | assertedBlind i hi => exact absurd hi (h.idle i).ne_asserting
  | aborted i => exact h.move (.inr ⟨.aborted, rfl, rfl⟩)
  | restart i => exact h.move (.inl rfl)

omit [DecidableEq ι] in
/-- A state of a run that was cut off. -/
theorem Done.refused (hbare : schema.Bare) (h : Done schema base done d)
    (hholed : schema.Holed d.tables) (hgone : ∀ i, ¬ Applying schema d i) : Refused d.tables d := by
  obtain ⟨first, later, hfirst⟩ := hbare.first
  obtain ⟨⟨present, hpresent, hthere⟩, missing, hmissing, hnot⟩ := hholed
  refine ⟨rfl, ?_⟩
  intro i
  cases hi : d.jobs i with
  | start => exact .inl rfl
  | applying rest =>
    have hrest : rest = schema.statements := by
      by_contra hne
      exact hgone i ⟨rest, hi, hne⟩
    refine .inr (.inr ⟨first, later, by rw [hrest, hfirst], ?_⟩)
    by_contra hname
    -- without the first table nothing is done, so the one that is there was there before
    have hnil := h.nil_of_first hfirst.symm hname
    rw [h.tables, hnil, List.filterMap_nil, List.append_nil] at hthere
    exact (h.applying i rest hi).1 present hpresent hthere
  | asserting => exact absurd (h.asserting i hi missing hmissing) hnot
  | exited exit =>
    refine .inr (.inl ⟨exit, rfl, ?_⟩)
    by_contra hok
    exact hnot (h.whole i exit hi (by simpa using hok) missing hmissing)

/-- Once some of the tables are there, some are not, and the pod that created them is gone, no
run ever exits 0 and no table is ever created. -/
theorem interrupted_apply_stays_refused (hbare : schema.Bare) {d₀ : Database ι}
    (hfresh : ∀ i, d₀.jobs i = .start) (hd : (dbSystem schema d₀).Reachable d)
    (hholed : schema.Holed d.tables) (hgone : ∀ i, ¬ Applying schema d i) :
    (dbSystem schema d).Invariant fun d' =>
      d'.tables = d.tables ∧ ∀ i exit, d'.jobs i = .exited exit → exit.ok = false := by
  obtain ⟨done, hdone⟩ := done_of_reachable hbare hfresh hd
  have hinductive : (dbSystem schema d).Inductive (Refused d.tables) := by
    refine ⟨?_, fun _ _ h => h.step hholed⟩
    rintro _ rfl
    exact hdone.refused hbare hholed hgone
  intro d' hd'
  have h := hinductive.invariant d' hd'
  exact ⟨h.tables, fun i exit hi => (hi ▸ h.idle i).exit_not_ok⟩

/-- The first two tables of the schema. -/
def domainsAndRecords : Schema where
  lines := ["CREATE TABLE domains (", "  id INT AUTO_INCREMENT", ");", "",
    "CREATE UNIQUE INDEX name_index ON domains(name);", "CREATE TABLE records (", ");"]
  statements := [.createTable "domains", .other, .createTable "records"]

theorem bare_domainsAndRecords : domainsAndRecords.Bare where
  declares := by decide
  nodup := by decide
  first := ⟨_, _, rfl⟩

/-- Two pods race over an empty database. -/
theorem two_pods_grow : (dbSystem domainsAndRecords
    (⟨[], fun _ => .start⟩ : Database Bool)).Invariant (Grown domainsAndRecords []) :=
  tables_grow_in_order bare_domainsAndRecords _ fun _ => rfl

/-- The pod that applies the schema is stopped after the first statement. -/
theorem stopped_after_domains : (dbSystem domainsAndRecords
    (⟨["domains"], fun _ => .exited .aborted⟩ : Database Unit)).Invariant fun d =>
      d.tables = ["domains"] ∧ ∀ i exit, d.jobs i = .exited exit → exit.ok = false := by
  have hshown := TSys.Reachable.step (S := dbSystem domainsAndRecords
    (⟨[], fun _ => .start⟩ : Database Unit)) (.init rfl) (DbStep.shown _ () rfl)
  rw [Schema.afterShow_of_none (by decide) (by simp)] at hshown
  have hcreated := hshown.step (DbStep.createTableLast _ () "domains" _ (by rfl) (by decide))
  have hstopped : (((⟨[], fun _ => .start⟩ : Database Unit).move ()
      (.applying domainsAndRecords.statements)).create "domains").move () (.exited .aborted) =
      ⟨["domains"], fun _ => .exited .aborted⟩ := by
    simp [Database.move, Database.create]
    rfl
  rw [hstopped] at hcreated
  refine interrupted_apply_stays_refused bare_domainsAndRecords (fun _ => rfl) hcreated ?_ ?_
  · exact ⟨⟨"domains", by decide⟩, "records", by decide⟩
  · rintro i ⟨rest, hi, _⟩
    cases hi

end OpenstackBlueprint.Powerdns
