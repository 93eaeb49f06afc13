import OpenstackBlueprint.Emitter.Window
import OpenstackBlueprint.Kit.Calendar
import OpenstackBlueprint.Kit.Encoding

/-!
# Record ids and timestamps (`contract-emitter.py`)

A row's id is the first half of a SHA-256 digest over NUL-terminated parts. The
digest is a parameter: what is used of it is that it does not collide on the
preimages at hand. The preimage determines the parts when none holds a NUL
(`preimage_inj`), and the timestamp among them determines the instant.
-/

namespace OpenstackBlueprint.Emitter

open Kit

/-- `os.environ`. -/
abbrev Environ := String → Option String

/-- `SERVICE`. -/
def service (environ : Environ) : String := (environ "SERVICE_NAME").getD "openstack"

/-- `ORG`. -/
def org (environ : Environ) : String := (environ "ORG").getD "default"

/-- `SOURCE`. -/
def source (environ : Environ) : String := (environ "SOURCE").getD "openstack-blueprint"

/-- `OS_INTERFACE` as both collectors read it. -/
def osInterface (environ : Environ) : String := (environ "OS_INTERFACE").getD "internal"

/-- `OS_REGION_NAME` as `endpoint_url` reads it. -/
def osRegionName (environ : Environ) : String := (environ "OS_REGION_NAME").getD ""

/-! ## Timestamps -/

/-- `time.gmtime(ts)`: the year has to fit in a C `int`, counted from 1900. -/
def gmtime (ts : Int) : Option Tm :=
  let tm := Tm.ofSeconds ts
  if -2 ^ 31 ≤ tm.year - 1900 ∧ tm.year - 1900 < 2 ^ 31 then some tm else none

/-- `fmt(ts)`. -/
def fmt (ts : Int) : Option String := (gmtime ts).map (Tm.dateTime [' '] [])

/-- `fmt_rfc3339(ts)`. -/
def fmtRfc3339 (ts : Int) : Option String := (gmtime ts).map (Tm.dateTime ['T'] ['Z'])

theorem gmtime_eq_some {ts : Int} {tm : Tm} (h : gmtime ts = some tm) : tm = Tm.ofSeconds ts := by
  unfold gmtime at h
  dsimp only at h
  split at h
  · exact (Option.some.inj h).symm
  · cases h

section Format

variable {between after : List Char} {ts ts' : Int} {text text' : String}

/-- The text of an instant in a format determines the instant. -/
theorem formatted_inj (h : (gmtime ts).map (Tm.dateTime between after) = some text)
    (h' : (gmtime ts').map (Tm.dateTime between after) = some text') :
    text = text' ↔ ts = ts' := by
  obtain ⟨tm, htm, rfl⟩ := Option.map_eq_some_iff.mp h
  obtain ⟨tm', htm', rfl⟩ := Option.map_eq_some_iff.mp h'
  have heq := gmtime_eq_some htm
  have heq' := gmtime_eq_some htm'
  constructor
  · intro htext
    rw [heq, heq'] at htext
    exact Tm.ofSeconds_inj (Tm.dateTime_inj (Tm.twoDigits_ofSeconds ts) (Tm.twoDigits_ofSeconds ts') htext)
  · rintro rfl
    rw [heq, heq']

theorem fmt_inj (h : fmt ts = some text) (h' : fmt ts' = some text') : text = text' ↔ ts = ts' :=
  formatted_inj h h'

theorem fmtRfc3339_inj (h : fmtRfc3339 ts = some text) (h' : fmtRfc3339 ts' = some text') :
    text = text' ↔ ts = ts' :=
  formatted_inj h h'

/-- A timestamp holds no NUL. -/
theorem nul_not_mem_fmtRfc3339 (h : fmtRfc3339 ts = some text) : '\x00' ∉ text.toList := by
  obtain ⟨tm, _, rfl⟩ := Option.map_eq_some_iff.mp h
  exact Tm.not_mem_dateTime (by decide) (by decide) (by decide) (by decide) (by decide)

end Format

/-! ## Record ids -/

/-- What `deterministic_id` feeds the hash. -/
def preimage (parts : List String) : List UInt8 := terminated 0 (parts.map utf8)

/-- `deterministic_id(*parts)`; `sha256` answers the hexadecimal digest. -/
def deterministicId (sha256 : List UInt8 → String) (parts : List String) : String :=
  String.ofList ((sha256 (preimage parts)).toList.take 32)

/-- A text without NUL. -/
def NulFree (s : String) : Prop := '\x00' ∉ s.toList

instance (s : String) : Decidable (NulFree s) := inferInstanceAs (Decidable ('\x00' ∉ s.toList))

/-- NUL-free parts can be read back from the preimage. -/
theorem preimage_inj {parts parts' : List String} (h : ∀ p ∈ parts, NulFree p)
    (h' : ∀ p ∈ parts', NulFree p) (heq : preimage parts = preimage parts') : parts = parts' := by
  have hfree : ∀ l : List String, (∀ p ∈ l, NulFree p) → ∀ bytes ∈ l.map utf8, (0 : UInt8) ∉ bytes := by
    intro l hl bytes hbytes
    obtain ⟨p, hp, rfl⟩ := List.mem_map.mp hbytes
    exact zero_not_mem_utf8 (hl p hp)
  have hmap := terminated_inj (hfree parts h) (hfree parts' h') heq
  exact List.map_injective_iff.mpr (fun _ _ => utf8_inj) hmap

/-- The truncated digest does not collide on the preimages of a set of parts. -/
def NoCollision (sha256 : List UInt8 → String) (used : Set (List String)) : Prop :=
  Set.InjOn (fun bytes => String.ofList ((sha256 bytes).toList.take 32)) (Set.image preimage used)

/-- Without collisions an id determines the NUL-free parts it was made of. -/
theorem deterministicId_inj {sha256 : List UInt8 → String} {used : Set (List String)}
    (hinj : NoCollision sha256 used) {parts parts' : List String} (hused : parts ∈ used)
    (hused' : parts' ∈ used) (h : ∀ p ∈ parts, NulFree p) (h' : ∀ p ∈ parts', NulFree p) :
    deterministicId sha256 parts = deterministicId sha256 parts' ↔ parts = parts' := by
  constructor
  · intro heq
    exact preimage_inj h h' (hinj ⟨parts, hused, rfl⟩ ⟨parts', hused', rfl⟩ heq)
  · rintro rfl
    rfl

end OpenstackBlueprint.Emitter
