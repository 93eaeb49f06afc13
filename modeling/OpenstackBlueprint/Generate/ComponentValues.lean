import OpenstackBlueprint.Kit.Dict
import OpenstackBlueprint.Kit.JsonSchema

/-!
# The componentValues schema

`hack/gen-componentvalues-schema.py` types the umbrella's `componentValues`: the
schema of each component chart is embedded under the component's name, without
`required`, since an override is a part of a values document. The walk that
drops `required` sees plain JSON.
-/

namespace OpenstackBlueprint.Generate

open Kit

/-- `strip_required(node)`: `pop("required")` in every mapping, at any depth. -/
def stripRequired (node : Value) : Value := node.dropKey "required"

/-- `d.pop(k, None)`. -/
def pop (key : String) (fields : List (String × Value)) : List (String × Value) :=
  fields.filter fun f => f.1 != key

/-- What the loop of `main` makes of the schema of one component; the schema must be
a mapping. -/
def typed (name ver : String) : Value → Option Value
  | .obj fields =>
    let s := (stripRequired (.obj (pop "title" (pop "$schema" fields)))).fieldsOf
    some (.obj (Dict.setEntries s "description" (.str ("Overrides for the " ++ name ++
      " Composition (chart " ++ ver ++ "), deep-merged into its spec."))))
  | _ => none

/-- `props`: one typed schema for each component whose chart has one. -/
def componentProps (ver : String) (readSchema : String → Option Value) :
    List (String × Value) → List Value → Option (List (String × Value))
  | props, [] => some props
  | props, c :: rest => do
    let name ← (← c.index "name").asStr
    match readSchema name with
    | none => componentProps ver readSchema props rest
    | some s => componentProps ver readSchema (Dict.setEntries props name (← typed name ver s)) rest

/-- The schema of `componentValues`. -/
def componentValues (props : List (String × Value)) : Value :=
  .obj [("type", .arr [.str "object", .str "null"]),
    ("title", .str "Per-component spec overrides"),
    ("description", .str ("Per-component Composition spec overrides, STRICTLY TYPED against each " ++
      "component's chart schema (regenerated per release by " ++
      "hack/gen-componentvalues-schema.py). The value at componentValues.<name> " ++
      "becomes that component's Composition spec; components without an entry use " ++
      "chart defaults.")),
    ("additionalProperties", .bool false),
    ("properties", .obj props)]

/-- `main`: the umbrella's schema with `componentValues` typed anew. `readSchema` is
the schema in a component's chart, if there is one, and `pyStr` is `str`. -/
def main (pyStr : Value → String) (readSchema : String → Option Value) (vals schema : Value) :
    Option Value := do
  let ver := pyStr (← vals.index "chartVersion")
  let props ← componentProps ver readSchema [] (← (← vals.index "components").elems)
  match schema, (← schema.index "properties") with
  | .obj fields, .obj properties =>
    some (.obj (Dict.setEntries fields "properties"
      (.obj (Dict.setEntries properties "componentValues" (componentValues props)))))
  | _, _ => none

/-! ## What the typing accepts -/

theorem mem_pop {key : String} {fields : List (String × Value)} {f : String × Value} :
    f ∈ pop key fields ↔ f ∈ fields ∧ f.1 ≠ key := by
  simp [pop]

/-- The schema of a component is embedded with the meaning that stripping leaves
it. -/
theorem accepts_typed {name ver : String} {s t : Value} (h : typed name ver s = some t)
    (v : Value) : JsonSchema.accepts t v = JsonSchema.accepts (stripRequired s) v := by
  cases s with
  | obj fields =>
    obtain rfl := Option.some.inj h
    refine JsonSchema.accepts_of_keywords ?_ ?_ v
    · rw [Dict.lookup_setEntries, if_neg (by decide)]
      show (Value.dropKeyFields "required" _).lookup _ = _
      rw [Value.lookup_dropKeyFields (by decide), Value.lookup_dropKeyFields (by decide)]
      unfold pop
      rw [lookup_filter_ne (by decide), lookup_filter_ne (by decide)]
    · intro f hkeyword
      have hne : ∀ key, JsonSchema.keyword key = .descriptive → f.1 ≠ key := by
        rintro key hkey rfl
        exact hkeyword hkey
      rw [Dict.mem_setEntries_ne (hne _ (by decide))]
      show f ∈ Value.dropKeyFields "required" _ ↔ _
      rw [Value.mem_dropKeyFields, Value.mem_dropKeyFields]
      simp only [mem_pop, ne_eq, hne "title" (by decide), hne "$schema" (by decide),
        not_false_eq_true, and_true]
  | _ => cases h

/-- An override of one component is judged by the schema of the component. -/
theorem accepts_override {props : List (String × Value)} (hprops : (props.map Prod.fst).Nodup)
    {name : String} {t : Value} (ht : (name, t) ∈ props) (v : Value) :
    JsonSchema.accepts (componentValues props) (.obj [(name, v)]) = JsonSchema.accepts t v := by
  have hnamed : name ∈ props.map Prod.fst := List.mem_map_of_mem ht
  rw [Bool.eq_iff_iff]
  unfold componentValues
  rw [JsonSchema.accepts_obj]
  simp only [List.forall_mem_cons, List.not_mem_nil, false_imp_iff, implies_true, and_true]
  constructor
  · rintro ⟨-, -, -, -, hproperties⟩
    exact hproperties _ ht _ List.mem_cons_self rfl
  · intro h
    refine ⟨rfl, trivial, trivial, ?_, ?_⟩
    · intro f hf hunnamed
      rw [List.mem_singleton.mp hf] at hunnamed
      exact absurd hnamed hunnamed
    · intro s hs f hf heq
      rw [List.mem_singleton.mp hf] at heq ⊢
      have hsame : s = (name, t) := List.inj_on_of_nodup_map hprops hs ht heq.symm
      rw [hsame]
      exact h

end OpenstackBlueprint.Generate
