import OpenstackBlueprint.Kit.Value

/-!
# JSON Schema

Validation of a JSON value against a schema of the keywords `type`,
`properties`, `additionalProperties`, `items`, `enum` and `required`, read from
the schema's own JSON. A boolean is a schema too, any other key of a schema is an
annotation, and a value that is no schema accepts nothing.

`PartOf` is the order of partial documents: a part of a value is what deleting
object keys at any depth leaves of it.
-/

namespace OpenstackBlueprint.Kit

namespace Value

/-! ## Values as data -/

/-- The fields of an object. -/
def fieldsOf : Value → List (String × Value)
  | obj fields => fields
  | _ => []

/-- An object without the key. -/
def lacks (v key : Value) : Bool :=
  match v with
  | obj fields => fields.all fun f => !key.eqStr f.1
  | _ => false

/-- The items of an array. -/
def itemsOf : Value → List Value
  | arr items => items
  | _ => []

mutual

/-- Equality of JSON values, whatever the order of the keys. -/
def same : Value → Value → Bool
  | null, null => true
  | bool a, bool b => a == b
  | num x, num y => x == y
  | str s, str t => s == t
  | arr xs, arr ys => sameItems xs ys
  | obj fs, obj gs => fs.length == gs.length && sameFields fs gs
  | _, _ => false

def sameItems : List Value → List Value → Bool
  | [], [] => true
  | x :: xs, y :: ys => same x y && sameItems xs ys
  | _, _ => false

def sameFields : List (String × Value) → List (String × Value) → Bool
  | [], _ => true
  | (k, x) :: rest, gs =>
    (match gs.lookup k with
      | some y => same x y
      | none => false) && sameFields rest gs

end

mutual

/-- A value without the fields of one name, at any depth. -/
def dropKey (key : String) : Value → Value
  | arr items => arr (dropKeyItems key items)
  | obj fields => obj (dropKeyFields key fields)
  | v => v

def dropKeyItems (key : String) : List Value → List Value
  | [] => []
  | v :: rest => dropKey key v :: dropKeyItems key rest

def dropKeyFields (key : String) : List (String × Value) → List (String × Value)
  | [] => []
  | (k, v) :: rest =>
    if k = key then dropKeyFields key rest else (k, dropKey key v) :: dropKeyFields key rest

end

mutual

/-- A value with some of its keys deleted, at any depth. -/
inductive PartOf : Value → Value → Prop
  | null : PartOf null null
  | bool (b : Bool) : PartOf (bool b) (bool b)
  | num (x : ℚ) : PartOf (num x) (num x)
  | str (s : String) : PartOf (str s) (str s)
  | arr {ps vs : List Value} : PartItems ps vs → PartOf (arr ps) (arr vs)
  | obj {ps vs : List (String × Value)} : PartFields ps vs → PartOf (obj ps) (obj vs)

inductive PartItems : List Value → List Value → Prop
  | nil : PartItems [] []
  | cons {p v : Value} {ps vs : List Value} :
      PartOf p v → PartItems ps vs → PartItems (p :: ps) (v :: vs)

inductive PartFields : List (String × Value) → List (String × Value) → Prop
  | nil : PartFields [] []
  | drop {f : String × Value} {ps vs : List (String × Value)} :
      PartFields ps vs → PartFields ps (f :: vs)
  | keep {k : String} {p v : Value} {ps vs : List (String × Value)} :
      PartOf p v → PartFields ps vs → PartFields ((k, p) :: ps) ((k, v) :: vs)

end

/-! ## Parts -/

mutual

theorem PartOf.refl : ∀ v : Value, PartOf v v
  | null => .null
  | bool b => .bool b
  | num x => .num x
  | str s => .str s
  | arr items => .arr (PartItems.refl items)
  | obj fields => .obj (PartFields.refl fields)

theorem PartItems.refl : ∀ items : List Value, PartItems items items
  | [] => .nil
  | v :: rest => .cons (PartOf.refl v) (PartItems.refl rest)

theorem PartFields.refl : ∀ fields : List (String × Value), PartFields fields fields
  | [] => .nil
  | (_, v) :: rest => .keep (PartOf.refl v) (PartFields.refl rest)

end

/-- A field of a part is a part of a field. -/
theorem PartOf.field {p v : Value} (h : PartOf p v) {f : String × Value} (hf : f ∈ p.fieldsOf) :
    ∃ w, (f.1, w) ∈ v.fieldsOf ∧ PartOf f.2 w := by
  cases h with
  | @obj ps vs h =>
    change f ∈ ps at hf
    change ∃ w, (f.1, w) ∈ vs ∧ PartOf f.2 w
    induction vs generalizing ps with
    | nil =>
      cases h
      cases hf
    | cons g vs ih =>
      cases h with
      | drop h =>
        obtain ⟨w, hw, hpart⟩ := ih h hf
        exact ⟨w, List.mem_cons_of_mem _ hw, hpart⟩
      | keep hp h =>
        rcases List.mem_cons.mp hf with rfl | hf
        · exact ⟨_, List.mem_cons_self, hp⟩
        · obtain ⟨w, hw, hpart⟩ := ih h hf
          exact ⟨w, List.mem_cons_of_mem _ hw, hpart⟩
  | _ => cases hf

/-- An item of a part is a part of an item. -/
theorem PartOf.item {p v : Value} (h : PartOf p v) {q : Value} (hq : q ∈ p.itemsOf) :
    ∃ w ∈ v.itemsOf, PartOf q w := by
  cases h with
  | @arr ps vs h =>
    change q ∈ ps at hq
    change ∃ w ∈ vs, PartOf q w
    induction vs generalizing ps with
    | nil =>
      cases h
      cases hq
    | cons v vs ih =>
      cases h with
      | cons hp h =>
        rcases List.mem_cons.mp hq with rfl | hq
        · exact ⟨_, List.mem_cons_self, hp⟩
        · obtain ⟨w, hw, hpart⟩ := ih h hq
          exact ⟨w, List.mem_cons_of_mem _ hw, hpart⟩
  | _ => cases hq

/-- Of an object one field may be left, with a part of its value. -/
theorem PartOf.single {v q w : Value} {k : String} (hw : (k, w) ∈ v.fieldsOf) (hq : PartOf q w) :
    PartOf (Value.obj [(k, q)]) v := by
  have hnil : ∀ fields, PartFields [] fields := by
    intro fields
    induction fields with
    | nil => exact .nil
    | cons f rest ih => exact .drop ih
  cases v with
  | obj fields =>
    change (k, w) ∈ fields at hw
    refine .obj ?_
    induction fields with
    | nil => cases hw
    | cons f rest ih =>
      rcases List.mem_cons.mp hw with rfl | hw
      · exact .keep hq (hnil rest)
      · exact .drop (ih hw)
  | _ => cases hw

/-- In an array one item may be replaced by a part of it. -/
theorem PartOf.replace {v q w : Value} (hw : w ∈ v.itemsOf) (hq : PartOf q w) :
    ∃ p, PartOf p v ∧ q ∈ p.itemsOf := by
  cases v with
  | arr items =>
    have hitems : ∃ ps, PartItems ps items ∧ q ∈ ps := by
      change w ∈ items at hw
      induction items with
      | nil => cases hw
      | cons v rest ih =>
        rcases List.mem_cons.mp hw with rfl | hw
        · exact ⟨q :: rest, .cons hq (PartItems.refl rest), List.mem_cons_self⟩
        · obtain ⟨ps, hps, hmem⟩ := ih hw
          exact ⟨v :: ps, .cons (PartOf.refl v) hps, List.mem_cons_of_mem _ hmem⟩
    obtain ⟨ps, hps, hmem⟩ := hitems
    exact ⟨Value.arr ps, .arr hps, hmem⟩
  | _ => cases hw

/-! ## Dropping a key -/

/-- A field is smaller than its object. -/
theorem sizeOf_field {v : Value} {f : String × Value} (h : f ∈ v.fieldsOf) :
    sizeOf f.2 < sizeOf v := by
  cases v with
  | obj fields =>
    have hfield := List.sizeOf_lt_of_mem h
    obtain ⟨k, w⟩ := f
    simp only [Prod.mk.sizeOf_spec, fieldsOf, Value.obj.sizeOf_spec] at hfield ⊢
    omega
  | _ => cases h

theorem mem_dropKeyFields {key : String} {fields : List (String × Value)} {f : String × Value} :
    f ∈ dropKeyFields key fields ↔
      ∃ v, (f.1, v) ∈ fields ∧ f.1 ≠ key ∧ f.2 = v.dropKey key := by
  induction fields with
  | nil => simp [dropKeyFields]
  | cons g rest ih =>
    obtain ⟨k, v⟩ := g
    obtain ⟨fk, fv⟩ := f
    rw [dropKeyFields]
    split
    · rename_i hk
      rw [ih]
      refine exists_congr fun w => ?_
      simp only [List.mem_cons, Prod.mk.injEq]
      grind
    · rename_i hk
      rw [List.mem_cons, ih]
      simp only [List.mem_cons, Prod.mk.injEq]
      grind

theorem dropKeyItems_eq (key : String) (items : List Value) :
    dropKeyItems key items = items.map (dropKey key) := by
  induction items with
  | nil => rfl
  | cons v rest ih => rw [dropKeyItems, ih, List.map_cons]

theorem itemsOf_dropKey (key : String) (v : Value) :
    (v.dropKey key).itemsOf = v.itemsOf.map (dropKey key) := by
  cases v with
  | arr items => exact dropKeyItems_eq key items
  | _ => rfl

theorem fieldsOf_dropKey (key : String) (v : Value) :
    (v.dropKey key).fieldsOf = dropKeyFields key v.fieldsOf := by
  cases v with
  | obj fields => rfl
  | _ => rfl

theorem lookup_dropKeyFields {key k : String} (hk : k ≠ key) (fields : List (String × Value)) :
    (dropKeyFields key fields).lookup k = (fields.lookup k).map (dropKey key) := by
  induction fields with
  | nil => rfl
  | cons f rest ih =>
    obtain ⟨k', v⟩ := f
    rw [dropKeyFields]
    split
    · rename_i hkey
      rw [ih, List.lookup_cons, beq_false_of_ne (hkey ▸ hk)]
    · rw [List.lookup_cons, List.lookup_cons]
      cases k == k' with
      | true => rfl
      | false => exact ih

end Value

namespace JsonSchema

open Value

/-! ## Validation -/

/-- The keywords that constrain a value. -/
inductive Keyword
  | type
  | enum
  | required
  | properties
  | additionalProperties
  | items
  | descriptive
  deriving DecidableEq

def keyword (key : String) : Keyword :=
  if key = "type" then .type
  else if key = "enum" then .enum
  else if key = "required" then .required
  else if key = "properties" then .properties
  else if key = "additionalProperties" then .additionalProperties
  else if key = "items" then .items
  else .descriptive

theorem keyword_cases (key : String) :
    key = "type" ∨ key = "enum" ∨ key = "required" ∨ key = "properties" ∨
      key = "additionalProperties" ∨ key = "items" ∨ keyword key = .descriptive := by
  unfold keyword
  split_ifs <;> simp_all

/-- The value is of the named type. -/
def hasType (type : String) : Value → Bool
  | .null => type == "null"
  | .bool _ => type == "boolean"
  | .num x => type == "number" || (type == "integer" && x.den == 1)
  | .str _ => type == "string"
  | .arr _ => type == "array"
  | .obj _ => type == "object"

/-- `type`, one name or several. -/
def admits (types v : Value) : Bool :=
  match types with
  | .str type => hasType type v
  | .arr types => types.any fun type => type.asStr.any (hasType · v)
  | _ => false

/-- The properties a schema names. -/
def propertyNames (keywords : List (String × Value)) : List String :=
  match keywords.lookup "properties" with
  | some properties => properties.fieldsOf.map Prod.fst
  | none => []

mutual

/-- The schema accepts the value. -/
def accepts : Value → Value → Bool
  | .bool b, _ => b
  | .obj keywords, v => acceptsKeywords (propertyNames keywords) keywords v
  | _, _ => false

/-- Every keyword accepts the value; `named` are the properties the schema
names. -/
def acceptsKeywords (named : List String) : List (String × Value) → Value → Bool
  | [], _ => true
  | (key, arg) :: rest, v =>
    (match keyword key with
      | .type => admits arg v
      | .enum => arg.itemsOf.any (v.same ·)
      | .required => arg.itemsOf.all (v.lacks · == false)
      | .properties =>
        match arg with
        | .obj properties => acceptsProperties properties v
        | _ => true
      | .additionalProperties => v.fieldsOf.all fun f => named.contains f.1 || accepts arg f.2
      | .items => v.itemsOf.all fun x => accepts arg x
      | .descriptive => true) && acceptsKeywords named rest v

/-- The fields a schema is given for are accepted by it. -/
def acceptsProperties : List (String × Value) → Value → Bool
  | [], _ => true
  | (k, schema) :: rest, v =>
    (v.fieldsOf.all fun f => f.1 != k || accepts schema f.2) && acceptsProperties rest v

end

/-- What a keyword asks of a value. -/
def Holds (named : List String) (key : String) (arg v : Value) : Prop :=
  match keyword key with
  | .type => admits arg v = true
  | .enum => ∃ e ∈ arg.itemsOf, v.same e = true
  | .required => ∀ k ∈ arg.itemsOf, v.lacks k = false
  | .properties => ∀ s ∈ arg.fieldsOf, ∀ f ∈ v.fieldsOf, f.1 = s.1 → accepts s.2 f.2 = true
  | .additionalProperties => ∀ f ∈ v.fieldsOf, f.1 ∉ named → accepts arg f.2 = true
  | .items => ∀ x ∈ v.itemsOf, accepts arg x = true
  | .descriptive => True

theorem acceptsProperties_iff {properties : List (String × Value)} {v : Value} :
    acceptsProperties properties v = true ↔
      ∀ s ∈ properties, ∀ f ∈ v.fieldsOf, f.1 = s.1 → accepts s.2 f.2 = true := by
  induction properties with
  | nil => simp [acceptsProperties]
  | cons s rest ih =>
    obtain ⟨k, schema⟩ := s
    rw [acceptsProperties, Bool.and_eq_true, ih, List.forall_mem_cons, List.all_eq_true]
    refine and_congr_left fun _ => forall₂_congr fun f _ => ?_
    simp only [Bool.or_eq_true, bne_iff_ne, ne_eq]
    exact Decidable.imp_iff_not_or.symm

theorem acceptsKeywords_iff {named : List String} {keywords : List (String × Value)} {v : Value} :
    acceptsKeywords named keywords v = true ↔ ∀ f ∈ keywords, Holds named f.1 f.2 v := by
  induction keywords with
  | nil => simp [acceptsKeywords]
  | cons f rest ih =>
    obtain ⟨key, arg⟩ := f
    unfold acceptsKeywords
    rw [Bool.and_eq_true, ih, List.forall_mem_cons]
    refine and_congr_left fun _ => ?_
    unfold Holds
    dsimp only
    cases keyword key with
    | type => exact Iff.rfl
    | enum => exact List.any_eq_true
    | required => simp
    | properties =>
      cases arg with
      | obj properties => exact acceptsProperties_iff
      | _ => simp [fieldsOf]
    | additionalProperties =>
      rw [List.all_eq_true]
      refine forall₂_congr fun f _ => ?_
      rw [Bool.or_eq_true, List.contains_iff_mem]
      exact Decidable.or_iff_not_imp_left
    | items => exact List.all_eq_true
    | descriptive => simp

/-- A schema accepts what each of its keywords accepts. -/
theorem accepts_obj {keywords : List (String × Value)} {v : Value} :
    accepts (.obj keywords) v = true ↔
      ∀ f ∈ keywords, Holds (propertyNames keywords) f.1 f.2 v := by
  rw [accepts, acceptsKeywords_iff]

/-- Annotations constrain nothing. -/
theorem accepts_of_keywords {a b : List (String × Value)}
    (hproperties : a.lookup "properties" = b.lookup "properties")
    (hmem : ∀ f, keyword f.1 ≠ .descriptive → (f ∈ a ↔ f ∈ b)) (v : Value) :
    accepts (.obj a) v = accepts (.obj b) v := by
  have hnames : propertyNames a = propertyNames b := by
    unfold propertyNames
    rw [hproperties]
  rw [Bool.eq_iff_iff, accepts_obj, accepts_obj, hnames]
  refine forall_congr' fun f => ?_
  by_cases hkeyword : keyword f.1 = .descriptive
  · have hholds : Holds (propertyNames b) f.1 f.2 v := by
      unfold Holds
      rw [hkeyword]
      trivial
    simp [hholds]
  · rw [hmem f hkeyword]

/-! ## Keywords on parts and on schemas without a key -/

/-- A part is of the types of the whole. -/
theorem admits_part {p v : Value} (h : PartOf p v) (types : Value) :
    admits types p = admits types v := by
  have htype : ∀ type, hasType type p = hasType type v := by
    intro type
    cases h with
    | _ => rfl
  unfold admits
  simp only [htype]

theorem admits_dropKey (key : String) (types v : Value) :
    admits (types.dropKey key) v = admits types v := by
  cases types with
  | arr types =>
    have hitem : ∀ type : Value, (type.dropKey key).asStr = type.asStr := by
      intro type
      cases type with
      | _ => rfl
    rw [dropKey, dropKeyItems_eq]
    unfold admits
    simp only [List.any_map, Function.comp_def, hitem]
  | _ => rfl

theorem mem_propertyNames_dropKey {key k : String} (hkey : key ≠ "properties")
    {keywords : List (String × Value)} :
    k ∈ propertyNames (dropKeyFields key keywords) ↔ k ∈ propertyNames keywords ∧ k ≠ key := by
  unfold propertyNames
  rw [lookup_dropKeyFields hkey.symm]
  cases keywords.lookup "properties" with
  | none => simp
  | some properties =>
    simp only [Option.map_some, fieldsOf_dropKey, List.mem_map]
    constructor
    · rintro ⟨f, hf, rfl⟩
      obtain ⟨v, hv, hne, -⟩ := mem_dropKeyFields.mp hf
      exact ⟨⟨_, hv, rfl⟩, hne⟩
    · rintro ⟨⟨f, hf, rfl⟩, hne⟩
      exact ⟨(f.1, f.2.dropKey key), mem_dropKeyFields.mpr ⟨f.2, hf, hne, rfl⟩, rfl⟩

end JsonSchema

end OpenstackBlueprint.Kit
