import OpenstackBlueprint.Generate.ComponentValues

/-!
# Partial overrides

The parts of a document that a stripped schema accepts are described on the schema
as it was (`takes_iff`). A place of a document is a value together with the
schema that governs it. Stripping goes wrong at two kinds of places: where an
enumeration lists the value, and where `properties` describes a field named
`required` (`override_parts_accepted_iff`).
-/

namespace OpenstackBlueprint.Theorems.PartialOverrides

open Kit Kit.Value Kit.JsonSchema Generate

/-! ## Places -/

/-- The schema `s` governs the value `x` within the document `v` of the schema
`schema`. With `struck`, a field named `required` falls to `additionalProperties`
also where `properties` describes it. What is below such a field as a property is
not a place. -/
inductive Governs (struck : Prop) : Value → Value → Value → Value → Prop
  | here (schema v : Value) : Governs struck schema v schema v
  | property {keywords : List (String × Value)} {properties schema v w s x : Value} {k : String}
      (hproperties : ("properties", properties) ∈ keywords)
      (hschema : (k, schema) ∈ properties.fieldsOf) (hk : k ≠ "required")
      (hfield : (k, w) ∈ v.fieldsOf) (h : Governs struck schema w s x) :
      Governs struck (.obj keywords) v s x
  | additional {keywords : List (String × Value)} {schema v w s x : Value} {k : String}
      (hadditional : ("additionalProperties", schema) ∈ keywords) (hfield : (k, w) ∈ v.fieldsOf)
      (hk : k ∉ propertyNames keywords ∨ struck ∧ k = "required")
      (h : Governs struck schema w s x) : Governs struck (.obj keywords) v s x
  | item {keywords : List (String × Value)} {schema v w s x : Value}
      (hitems : ("items", schema) ∈ keywords) (hitem : w ∈ v.itemsOf)
      (h : Governs struck schema w s x) : Governs struck (.obj keywords) v s x

/-- Every part of the value is listed, the keys named `required` of the listed
values aside. -/
def PartsListed (schema x : Value) : Prop :=
  ∀ values, ("enum", values) ∈ schema.fieldsOf → ∀ p, PartOf p x →
    ∃ e ∈ values.itemsOf, p.same (e.dropKey "required") = true

/-- A place that the stripped schema takes. -/
structure Fits (schema x : Value) : Prop where
  isSchema : schema = .bool true ∨ ∃ keywords, schema = .obj keywords
  types : ∀ types, ("type", types) ∈ schema.fieldsOf → admits types x = true
  listed : PartsListed schema x

/-- Every place fits, with the properties named `required` struck out. -/
def Takes (schema v : Value) : Prop := ∀ s x, Governs True schema v s x → Fits s x

/-- At every place all parts are listed, and a field named `required` that
`properties` describes is taken by `additionalProperties`. -/
structure Safe (schema v : Value) : Prop where
  listed : ∀ s x, Governs False schema v s x → PartsListed s x
  required : ∀ s x, Governs False schema v s x → "required" ∈ propertyNames s.fieldsOf →
    ∀ additional w, ("additionalProperties", additional) ∈ s.fieldsOf →
      ("required", w) ∈ x.fieldsOf → Takes additional w

/-- Every part of the document is accepted. -/
def AcceptsParts (schema v : Value) : Prop := ∀ p, PartOf p v → accepts schema p = true

/-! ## Stripped schemas -/

section Stripped

variable {keywords : List (String × Value)} {schema v w : Value} {k : String}

theorem mem_stripped {key : String} {arg : Value} (h : (key, arg) ∈ keywords)
    (hkey : key ≠ "required") : (key, stripRequired arg) ∈ dropKeyFields "required" keywords :=
  mem_dropKeyFields.mpr ⟨arg, h, hkey, rfl⟩

theorem acceptsParts_property {properties : Value}
    (hproperties : ("properties", properties) ∈ keywords)
    (hschema : (k, schema) ∈ properties.fieldsOf) (hk : k ≠ "required") (hfield : (k, w) ∈ v.fieldsOf)
    (h : AcceptsParts (stripRequired (.obj keywords)) v) :
    AcceptsParts (stripRequired schema) w := by
  intro q hq
  have hholds := accepts_obj.mp (h _ (PartOf.single hfield hq)) _
    (mem_stripped hproperties (by decide))
  have hmem : (k, stripRequired schema) ∈ (stripRequired properties).fieldsOf := by
    unfold stripRequired
    rw [fieldsOf_dropKey]
    exact mem_stripped hschema hk
  exact hholds _ hmem (k, q) List.mem_cons_self rfl

theorem acceptsParts_additional (hadditional : ("additionalProperties", schema) ∈ keywords)
    (hfield : (k, w) ∈ v.fieldsOf) (hk : k ∉ propertyNames keywords ∨ True ∧ k = "required")
    (h : AcceptsParts (stripRequired (.obj keywords)) v) :
    AcceptsParts (stripRequired schema) w := by
  intro q hq
  have hholds := accepts_obj.mp (h _ (PartOf.single hfield hq)) _
    (mem_stripped hadditional (by decide))
  refine hholds (k, q) List.mem_cons_self ?_
  rw [mem_propertyNames_dropKey (by decide)]
  rintro ⟨hmem, hne⟩
  rcases hk with hk | ⟨-, hk⟩
  · exact hk hmem
  · exact hne hk

theorem acceptsParts_item (hitems : ("items", schema) ∈ keywords) (hitem : w ∈ v.itemsOf)
    (h : AcceptsParts (stripRequired (.obj keywords)) v) :
    AcceptsParts (stripRequired schema) w := by
  intro q hq
  obtain ⟨ps, hps, hmem⟩ := PartOf.replace hitem hq
  have hholds := accepts_obj.mp (h _ hps) _ (mem_stripped hitems (by decide))
  exact hholds q hmem

theorem fits_of_acceptsParts (h : AcceptsParts (stripRequired schema) v) : Fits schema v := by
  have hself := h v (PartOf.refl v)
  cases schema with
  | bool b =>
    refine ⟨.inl ?_, fun _ hmem => absurd hmem List.not_mem_nil,
      fun _ hmem => absurd hmem List.not_mem_nil⟩
    exact congrArg Value.bool hself
  | obj keywords =>
    refine ⟨.inr ⟨_, rfl⟩, ?_, ?_⟩
    · intro types htypes
      have hholds := accepts_obj.mp hself _ (mem_stripped htypes (by decide))
      exact (admits_dropKey _ _ _).symm.trans hholds
    · intro values hvalues p hp
      have hholds := accepts_obj.mp (h p hp) _ (mem_stripped hvalues (by decide))
      obtain ⟨e, he, hsame⟩ := hholds
      unfold stripRequired at he
      rw [itemsOf_dropKey] at he
      obtain ⟨value, hvalue, rfl⟩ := List.mem_map.mp he
      exact ⟨value, hvalue, hsame⟩
  | null => cases hself
  | num x => cases hself
  | str s => cases hself
  | arr items => cases hself

theorem takes_of_acceptsParts (h : AcceptsParts (stripRequired schema) v) : Takes schema v := by
  intro s x hplace
  induction hplace with
  | here schema v => exact fits_of_acceptsParts h
  | property hproperties hschema hk hfield _ ih =>
    exact ih (acceptsParts_property hproperties hschema hk hfield h)
  | additional hadditional hfield hk _ ih =>
    exact ih (acceptsParts_additional hadditional hfield hk h)
  | item hitems hitem _ ih => exact ih (acceptsParts_item hitems hitem h)

theorem Takes.property {properties : Value} (h : Takes (.obj keywords) v)
    (hproperties : ("properties", properties) ∈ keywords)
    (hschema : (k, schema) ∈ properties.fieldsOf) (hk : k ≠ "required")
    (hfield : (k, w) ∈ v.fieldsOf) : Takes schema w :=
  fun s x hplace => h s x (.property hproperties hschema hk hfield hplace)

theorem Takes.additional (h : Takes (.obj keywords) v)
    (hadditional : ("additionalProperties", schema) ∈ keywords) (hfield : (k, w) ∈ v.fieldsOf)
    (hk : k ∉ propertyNames keywords ∨ True ∧ k = "required") : Takes schema w :=
  fun s x hplace => h s x (.additional hadditional hfield hk hplace)

theorem Takes.item (h : Takes (.obj keywords) v) (hitems : ("items", schema) ∈ keywords)
    (hitem : w ∈ v.itemsOf) : Takes schema w :=
  fun s x hplace => h s x (.item hitems hitem hplace)

/-- A part of a taken document is accepted keyword by keyword, if the schemas within
the keywords accept the parts that they govern. -/
theorem holds_of_takes (ih : ∀ sub w, sizeOf sub < sizeOf (Value.obj keywords) → Takes sub w →
    AcceptsParts (stripRequired sub) w) (h : Takes (.obj keywords) v) {p : Value}
    (hp : PartOf p v) {key : String} {arg : Value} (harg : (key, arg) ∈ keywords)
    (hkey : key ≠ "required") :
    Holds (propertyNames (dropKeyFields "required" keywords)) key (arg.dropKey "required") p := by
  have hfits := h (.obj keywords) v (.here _ v)
  have hsize : sizeOf arg < sizeOf (Value.obj keywords) := sizeOf_field (v := .obj keywords) harg
  rcases keyword_cases key with rfl | rfl | rfl | rfl | rfl | rfl | hkeyword
  · exact (admits_dropKey _ _ _).trans ((admits_part hp _).trans (hfits.types _ harg))
  · obtain ⟨e, he, hsame⟩ := hfits.listed _ harg p hp
    refine ⟨e.dropKey "required", ?_, hsame⟩
    rw [itemsOf_dropKey]
    exact List.mem_map_of_mem he
  · exact absurd rfl hkey
  · rintro ⟨k, sub⟩ hsub f hfield rfl
    rw [fieldsOf_dropKey] at hsub
    obtain ⟨sub, hsub, hk, rfl⟩ := mem_dropKeyFields.mp hsub
    obtain ⟨w, hw, hpart⟩ := hp.field hfield
    have hsmall := (sizeOf_field hsub).trans hsize
    exact ih sub w hsmall (h.property harg hsub hk hw) _ hpart
  · intro f hfield hnamed
    obtain ⟨w, hw, hpart⟩ := hp.field hfield
    refine ih arg w hsize (h.additional harg hw ?_) _ hpart
    rw [mem_propertyNames_dropKey (by decide)] at hnamed
    by_cases hk : f.1 = "required"
    · exact .inr ⟨trivial, hk⟩
    · exact .inl fun hmem => hnamed ⟨hmem, hk⟩
  · intro q hq
    obtain ⟨w, hw, hpart⟩ := hp.item hq
    exact ih arg w hsize (h.item harg hw) _ hpart
  · unfold Holds
    rw [hkeyword]
    trivial

/-- The induction is on the size of the schema. -/
theorem acceptsParts_of_takes (h : Takes schema v) : AcceptsParts (stripRequired schema) v := by
  induction hsize : sizeOf schema using Nat.strong_induction_on generalizing schema v with
  | _ n ih =>
    subst hsize
    intro p hp
    rcases (h schema v (.here schema v)).isSchema with rfl | ⟨keywords, rfl⟩
    · rfl
    · refine accepts_obj.mpr ?_
      rintro ⟨key, arg⟩ hf
      obtain ⟨arg, harg, hkey, rfl⟩ := mem_dropKeyFields.mp hf
      exact holds_of_takes (fun sub w hlt hsub => ih _ hlt hsub rfl) h hp harg hkey

/-- What a stripped schema takes of a document, on the schema as it was. -/
theorem takes_iff : AcceptsParts (stripRequired schema) v ↔ Takes schema v :=
  ⟨takes_of_acceptsParts, acceptsParts_of_takes⟩

end Stripped

/-! ## Documents the schema accepts -/

section Accepted

variable {keywords : List (String × Value)} {schema v w s x : Value} {k : String}

theorem Governs.trans {struck : Prop} {s' x' : Value} (h : Governs struck schema v s x)
    (h' : Governs struck s x s' x') : Governs struck schema v s' x' := by
  induction h with
  | here schema v => exact h'
  | property hproperties hschema hk hfield _ ih =>
    exact .property hproperties hschema hk hfield (ih h')
  | additional hadditional hfield hk _ ih => exact .additional hadditional hfield hk (ih h')
  | item hitems hitem _ ih => exact .item hitems hitem (ih h')

theorem Governs.struck (h : Governs False schema v s x) : Governs True schema v s x := by
  induction h with
  | here schema v => exact .here schema v
  | property hproperties hschema hk hfield _ ih =>
    exact .property hproperties hschema hk hfield ih
  | additional hadditional hfield hk _ ih =>
    exact .additional hadditional hfield (.inl (hk.resolve_right fun h => h.1)) ih
  | item hitems hitem _ ih => exact .item hitems hitem ih

theorem safe_of_takes (h : Takes schema v) : Safe schema v where
  listed s x hplace := (h s x hplace.struck).listed
  required s x hplace _ additional w hadditional hfield := by
    intro s' x' hbelow
    refine h s' x' (hplace.struck.trans ?_)
    cases s with
    | obj keywords => exact .additional hadditional hfield (.inr ⟨trivial, rfl⟩) hbelow
    | _ => cases hadditional

theorem Safe.below (h : Safe schema v) (hplace : Governs False schema v s x) : Safe s x where
  listed s' x' hbelow := h.listed s' x' (hplace.trans hbelow)
  required s' x' hbelow := h.required s' x' (hplace.trans hbelow)

theorem fits_of_accepts (haccepts : accepts schema v = true) (h : PartsListed schema v) :
    Fits schema v := by
  refine ⟨?_, ?_, h⟩
  · cases schema with
    | bool b => exact .inl (congrArg Value.bool haccepts)
    | obj keywords => exact .inr ⟨keywords, rfl⟩
    | _ => cases haccepts
  · intro types htypes
    cases schema with
    | obj keywords => exact accepts_obj.mp haccepts _ htypes
    | _ => cases htypes

/-- A place is reached as in the accepted document, up to the first field named
`required` that falls to `additionalProperties`. -/
theorem takes_of_safe (haccepts : accepts schema v = true) (h : Safe schema v) :
    Takes schema v := by
  intro s x hplace
  induction hplace with
  | here schema v => exact fits_of_accepts haccepts (h.listed _ _ (.here schema v))
  | property hproperties hschema hk hfield hbelow ih =>
    have hsub := accepts_obj.mp haccepts _ hproperties _ hschema _ hfield rfl
    exact ih hsub (h.below (.property hproperties hschema hk hfield (.here _ _)))
  | @additional keywords schema v w s x k hadditional hfield hk hbelow ih =>
    by_cases hnamed : k ∈ propertyNames keywords
    · obtain ⟨-, rfl⟩ := hk.resolve_left (not_not_intro hnamed)
      exact h.required _ _ (.here _ v) hnamed _ _ hadditional hfield s x hbelow
    · have hsub := accepts_obj.mp haccepts _ hadditional _ hfield hnamed
      exact ih hsub (h.below (.additional hadditional hfield (.inl hnamed) (.here _ _)))
  | item hitems hitem hbelow ih =>
    have hsub := accepts_obj.mp haccepts _ hitems _ hitem
    exact ih hsub (h.below (.item hitems hitem (.here _ _)))

end Accepted

/-- Of a document that the schema accepts, the stripped schema accepts every part if
and only if all parts of the values under an enumeration are listed and each field
named `required` that `properties` describes is taken by `additionalProperties`. The
same holds of the overrides that the umbrella's typing accepts. -/
theorem override_parts_accepted_iff {schema v : Value} (h : accepts schema v = true) :
    ((∀ p, PartOf p v → accepts (stripRequired schema) p = true) ↔ Safe schema v) ∧
    ∀ (name ver : String) (t : Value) (props : List (String × Value)),
      (props.map Prod.fst).Nodup → typed name ver schema = some t → (name, t) ∈ props →
      ((∀ p, PartOf p v → accepts (componentValues props) (.obj [(name, p)]) = true) ↔
        Safe schema v) := by
  have hiff : AcceptsParts (stripRequired schema) v ↔ Safe schema v :=
    takes_iff.trans ⟨safe_of_takes, takes_of_safe h⟩
  refine ⟨hiff, ?_⟩
  intro name ver t props hprops htyped ht
  simp only [accepts_override hprops ht, accepts_typed htyped]
  exact hiff

/-- A chart schema with a mandatory field. -/
def replicasSchema : Value :=
  .obj [("type", .str "object"), ("required", .arr [.str "replicas"]),
    ("properties", .obj [("replicas", .obj [("type", .str "integer")])])]

theorem replicasSchema_safe (v : Value) : Safe replicasSchema v := by
  have hplaces : ∀ s x, Governs False replicasSchema v s x →
      s = replicasSchema ∨ s = .obj [("type", .str "integer")] := by
    intro s x hplace
    cases hplace with
    | here => exact .inl rfl
    | property hproperties hschema _ _ hbelow =>
      obtain rfl : _ = Value.obj [("replicas", .obj [("type", .str "integer")])] := by
        simpa [replicasSchema] using hproperties
      obtain ⟨rfl, rfl⟩ : _ ∧ _ = Value.obj [("type", .str "integer")] := by
        simpa [fieldsOf] using hschema
      cases hbelow with
      | here => exact .inr rfl
      | property hproperties => simp at hproperties
      | additional hadditional => simp at hadditional
      | item hitems => simp at hitems
    | additional hadditional => simp at hadditional
    | item hitems => simp at hitems
  refine ⟨?_, ?_⟩
  · intro s x hplace values hvalues
    rcases hplaces s x hplace with rfl | rfl
    · simp [replicasSchema, fieldsOf] at hvalues
    · simp [fieldsOf] at hvalues
  · intro s x hplace hnamed
    rcases hplaces s x hplace with rfl | rfl
    · exact absurd hnamed (by decide)
    · exact absurd hnamed (by decide)

/-- An override may leave the mandatory field out. -/
theorem replicas_may_be_absent :
    accepts replicasSchema (.obj [("replicas", .num 3)]) = true ∧
      ∀ p, PartOf p (.obj [("replicas", .num 3)]) →
        accepts (stripRequired replicasSchema) p = true :=
  ⟨by rfl, (override_parts_accepted_iff (by rfl)).1.mpr (replicasSchema_safe _)⟩

/-- A schema with a property that is named like the keyword. -/
def requiredFlagSchema : Value :=
  .obj [("type", .str "object"),
    ("properties", .obj [("required", .obj [("type", .str "boolean")])]),
    ("additionalProperties", .bool false)]

/-- The document is accepted, and rejected as an override. -/
theorem required_property_rejected :
    ¬ ∀ schema v, accepts schema v = true → ∀ p, PartOf p v →
      accepts (stripRequired schema) p = true := by
  intro h
  have hdoc := h requiredFlagSchema (.obj [("required", .bool true)]) (by rfl) _ (PartOf.refl _)
  cases hdoc

end OpenstackBlueprint.Theorems.PartialOverrides
