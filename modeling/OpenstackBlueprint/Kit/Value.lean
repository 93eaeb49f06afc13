import Mathlib

/-!
# Decoded JSON with fractions

What `json.loads` yields where numbers are not only integers: a number is
rational. `none` stands for an exception: `.get` on something that is not a
mapping, a missing key, `float` of a text that is no number.
-/

namespace OpenstackBlueprint.Kit

/-- A decoded JSON value. -/
inductive Value
  | null
  | bool (b : Bool)
  | num (x : ℚ)
  | str (s : String)
  | arr (items : List Value)
  | obj (fields : List (String × Value))

namespace Value

/-- `bool(v)`. -/
def truthy : Value → Bool
  | null => false
  | bool b => b
  | num x => x != 0
  | str s => s != ""
  | arr items => !items.isEmpty
  | obj fields => !fields.isEmpty

/-- `v or d`. -/
def orElse (v d : Value) : Value := if v.truthy then v else d

/-- `v is None`. -/
def isNone : Value → Bool
  | null => true
  | _ => false

/-- `isinstance(v, dict)`. -/
def isDict : Value → Bool
  | obj _ => true
  | _ => false

/-- `v[k]` for a string `k`. -/
def index (v : Value) (k : String) : Option Value :=
  match v with
  | obj fields => fields.lookup k
  | _ => none

/-- `v.get(k, d)`. -/
def getD (v : Value) (k : String) (d : Value) : Option Value :=
  match v with
  | obj fields => some ((fields.lookup k).getD d)
  | _ => none

/-- `v.get(k)`. -/
def get (v : Value) (k : String) : Option Value := v.getD k null

/-- What `for x in v` goes through. -/
def elems : Value → Option (List Value)
  | str s => some (s.toList.map fun c => str (String.ofList [c]))
  | arr items => some items
  | obj fields => some (fields.map fun f => str f.1)
  | _ => none

/-- `v == s` for a string. -/
def eqStr (v : Value) (s : String) : Bool :=
  match v with
  | str t => t == s
  | _ => false

/-- The string a value is. -/
def asStr : Value → Option String
  | str s => some s
  | _ => none

/-- A value as the key of a dict: a boolean is the number it equals, and lists
and mappings are not hashable. -/
inductive Key
  | none
  | num (x : ℚ)
  | str (s : String)
  deriving DecidableEq

/-- `hash(v)`. -/
def asKey : Value → Option Key
  | null => some .none
  | bool b => some (.num (if b then 1 else 0))
  | num x => some (.num x)
  | str s => some (.str s)
  | _ => Option.none

/-- `float(v)`. Counts are far below the 53 bits of a double, and no rounding of
larger numbers is modelled; `floatStr` is what `float` makes of a text. -/
def float (floatStr : String → Option ℚ) : Value → Option ℚ
  | num x => some x
  | bool b => some (if b then 1 else 0)
  | str s => floatStr s
  | _ => none

end Value

end OpenstackBlueprint.Kit
