import OpenstackBlueprint.Kit.Base64
import OpenstackBlueprint.Kit.Dict
import OpenstackBlueprint.Kit.Occ
import OpenstackBlueprint.Kit.TSys

/-!
# Key management jobs

`fernet-manage.py` of the keystone chart, and the two Secret templates beside it.
Four Jobs run the script: `fernet_setup` and `fernet_rotate` on one Secret,
`credential_setup` and `credential_rotate` on the other. A run reads the Secret,
lets `keystone-manage` work on a directory of key files, and writes the directory
back under the resource version it read.

Nothing keeps two runs apart: a retried pod, a second Job and a render of the
chart interleave freely. The second half of this module is that system: one step
is one request of one job, one render or one apply.
-/

namespace OpenstackBlueprint.Keystone

open OpenstackBlueprint.Kit

/-- The choices of the `command` argument. -/
inductive Command
  | fernetSetup
  | fernetRotate
  | credentialSetup
  | credentialRotate
deriving DecidableEq, Repr

namespace Command

/-- `args.command`. -/
def text : Command → String
  | fernetSetup => "fernet_setup"
  | fernetRotate => "fernet_rotate"
  | credentialSetup => "credential_setup"
  | credentialRotate => "credential_rotate"

/-- `args.command.startswith('credential')`. -/
def isCredential : Command → Bool
  | fernetSetup | fernetRotate => false
  | credentialSetup | credentialRotate => true

/-- `args.command in ('credential_setup', 'fernet_setup')`. -/
def isSetup : Command → Bool
  | fernetSetup | credentialSetup => true
  | fernetRotate | credentialRotate => false

/-- `SECRET_NAME`. -/
def secretName (c : Command) : String :=
  if c.isCredential then "keystone-credential-keys" else "keystone-fernet-keys"

end Command

/-! ## Files and keys -/

/-- The first code point of each run of ten decimal digits (Unicode category `Nd`). -/
def decimalZeros : List Nat :=
  [0x30, 0x660, 0x6f0, 0x7c0, 0x966, 0x9e6, 0xa66, 0xae6, 0xb66, 0xbe6, 0xc66, 0xce6, 0xd66,
    0xde6, 0xe50, 0xed0, 0xf20, 0x1040, 0x1090, 0x17e0, 0x1810, 0x1946, 0x19d0, 0x1a80, 0x1a90,
    0x1b50, 0x1bb0, 0x1c40, 0x1c50, 0xa620, 0xa8d0, 0xa900, 0xa9d0, 0xa9f0, 0xaa50, 0xabf0,
    0xff10, 0x104a0, 0x10d30, 0x11066, 0x110f0, 0x11136, 0x111d0, 0x112f0, 0x11450, 0x114d0,
    0x11650, 0x116c0, 0x11730, 0x118e0, 0x11950, 0x11c50, 0x11d50, 0x11da0, 0x16a60, 0x16ac0,
    0x16b50, 0x1d7ce, 0x1d7d8, 0x1d7e2, 0x1d7ec, 0x1d7f6, 0x1e140, 0x1e2f0, 0x1e950, 0x1fbf0]

/-- The class `\d`. -/
def isDecimal (c : Char) : Bool :=
  decimalZeros.any fun first => decide (first ≤ c.toNat ∧ c.toNat < first + 10)

/-- `re.match(r"^\d+$", name)`; the `$` also stands before a final newline. -/
def isKeyName (name : String) : Bool :=
  let cs := name.toList
  let digits := if cs.getLast? = some '\n' then cs.dropLast else cs
  !digits.isEmpty && digits.all isDecimal

/-- The files of `FERNET_DIR`: names and contents. -/
abbrev Files := Dict String String

/-- The `data` of a Secret, in the order the API server writes it. -/
abbrev Keys := List (String × String)

/-- `read_from_files`. -/
def readFromFiles (files : Files) : Dict String String where
  entries := files.entries.filter fun e => isKeyName e.1
  nodup := files.nodup.sublist (List.Sublist.map _ List.filter_sublist)

/-- `get_keys_data`. -/
def getKeysData (files : Files) : Dict String String where
  entries := (readFromFiles files).entries.map fun e => (e.1, b64encode e.2)
  nodup := by
    rw [List.map_map]
    exact (readFromFiles files).nodup

/-- `write_to_files`. A value that is not base64 of a text raises. -/
def writeToFiles (data : Keys) (files : Files) : Option Files :=
  data.foldlM (fun files e => (b64decode e.2).map (files.set e.1)) files

/-- The `data` field of a response, which an empty Secret does not have. -/
def dataField (keys : Keys) : Option Keys := if keys = [] then none else some keys

/-- The stored form of `secret['data'] = updated_keys`. -/
def published (files : Files) : Keys := sortedItems (getKeysData files)

/-! ## One run of `main` -/

/-- The Secret as a job holds it. -/
abbrev Secret := Versioned Keys

/-- Where a run of `main` stands between two requests. -/
inductive Pc
  /-- before `get_secret_definition` -/
  | start
  /-- before the POST of `create_secret` -/
  | creating
  /-- before the GET that follows a POST answered 409 -/
  | rereading
  /-- `secret` is bound -/
  | holding (secret : Secret)
  /-- before `execute_command` -/
  | prepared (secret : Secret)
  /-- before `update_secret` -/
  | updating (secret : Secret) (updated : Keys)
  /-- before `execute_command('credential_migrate')` -/
  | migrating
  | exited (code : Nat)
deriving DecidableEq

/-- What the POST of `create_secret` was answered. -/
inductive CreateAnswer
  | created (secret : Secret)
  | conflict
  | refused

/-- After `get_secret_definition`. -/
def afterGet (command : Command) : Option Secret → Pc
  | some secret => .holding secret
  | none => if command.isSetup then .creating else .exited 1

/-- After the POST of `create_secret`. -/
def afterCreate : CreateAnswer → Pc
  | .created secret => .holding secret
  | .conflict => .rereading
  | .refused => .exited 1

/-- After the GET that follows a conflict. -/
def afterReread : Option Secret → Pc
  | some secret => .holding secret
  | none => .exited 1

/-- From `secret` to the command: a rotation lays the keys out as files, a setup
leaves populated keys alone. -/
def prepare (command : Command) (secret : Secret) (files : Files) : Pc × Files :=
  if command.isSetup then
    match dataField secret.value with
    | some _ => (.exited 0, files)
    | none => (.prepared secret, files)
  else
    match dataField secret.value with
    -- KeyError
    | none => (.exited 1, files)
    | some data =>
      match writeToFiles data files with
      | none => (.exited 1, files)
      | some files => (.prepared secret, files)

/-- After `update_secret`. -/
def afterUpdate (command : Command) (ok : Bool) : Pc :=
  if ok then if command = .credentialRotate then .migrating else .exited 0
  else .exited 1

/-! ## The system -/

/-- A pod that runs the script. -/
structure Job where
  command : Command
  files : Files
  pc : Pc

/-- The cluster: the Secrets, the pods, and the manifests rendered but not applied.
`history` lists the data each Secret has held, newest first; no step reads it. -/
structure World (ι ρ : Type) where
  secrets : String → Server Keys
  history : String → List Keys
  jobs : ι → Job
  manifests : ρ → Option (String × Keys)

/-- `secret-fernet-keys.yaml` and `secret-credential-keys.yaml`: the data that is
looked up is emitted only when there is some. -/
def render (name : String) (existing : Option Secret) : Option (String × Keys) :=
  match existing with
  | none => none
  | some secret => (dataField secret.value).map fun data => (name, data)

/-- Applying a manifest: its entries hold afterwards, and nothing else is new. -/
structure Applied (manifest live live' : Keys) : Prop where
  holds : ∀ e ∈ manifest, e ∈ live'
  old : ∀ e ∈ live', e ∈ manifest ∨ e ∈ live

namespace World

variable {ι ρ : Type} [DecidableEq ι] [DecidableEq ρ]

/-- Job `i` moves on. -/
def move (w : World ι ρ) (i : ι) (pc : Pc) (files : Files) : World ι ρ :=
  { w with jobs := Function.update w.jobs i { w.jobs i with pc := pc, files := files } }

/-- The Secret `name` is written. -/
def commit (w : World ι ρ) (name : String) (server : Server Keys) (keys : Keys) : World ι ρ :=
  { w with
    secrets := Function.update w.secrets name server
    history := Function.update w.history name (keys :: w.history name) }

/-- The Secret job `i` works on. -/
def secretOf (w : World ι ρ) (i : ι) : Server Keys := w.secrets (w.jobs i).command.secretName

end World

section System

variable {ι ρ : Type} [DecidableEq ι] [DecidableEq ρ]
-- what `keystone-manage` with a subcommand does to the key repository; its exit code is not read
variable (manage : String → Files → Files → Prop)

/-- One step of the cluster. A request may fail for reasons of its own, its answer may be
lost after it took effect, and a pod may be restarted at any point with whatever files the
interrupted run left behind. -/
inductive Step : World ι ρ → World ι ρ → Prop
  | get (w : World ι ρ) (i : ι) (answer : Option Secret) :
      (w.jobs i).pc = .start →
      (answer = none ∨ answer = (w.secretOf i).object) →
      Step w (w.move i (afterGet (w.jobs i).command answer) (w.jobs i).files)
  | created (w : World ι ρ) (i : ι) (answer : CreateAnswer) :
      (w.jobs i).pc = .creating → (w.secretOf i).object = none →
      (answer = .created ⟨(w.secretOf i).clock, []⟩ ∨ answer = .refused) →
      Step w ((w.commit (w.jobs i).command.secretName ((w.secretOf i).write []) []).move i
        (afterCreate answer) (w.jobs i).files)
  | notCreated (w : World ι ρ) (i : ι) (answer : CreateAnswer) :
      (w.jobs i).pc = .creating →
      (answer = .refused ∨ answer = .conflict ∧ (w.secretOf i).object ≠ none) →
      Step w (w.move i (afterCreate answer) (w.jobs i).files)
  | reread (w : World ι ρ) (i : ι) (answer : Option Secret) :
      (w.jobs i).pc = .rereading →
      (answer = none ∨ answer = (w.secretOf i).object) →
      Step w (w.move i (afterReread answer) (w.jobs i).files)
  | prepare (w : World ι ρ) (i : ι) (secret : Secret) :
      (w.jobs i).pc = .holding secret →
      Step w (w.move i (prepare (w.jobs i).command secret (w.jobs i).files).1
        (prepare (w.jobs i).command secret (w.jobs i).files).2)
  | execute (w : World ι ρ) (i : ι) (secret : Secret) (files : Files) :
      (w.jobs i).pc = .prepared secret →
      manage (w.jobs i).command.text (w.jobs i).files files →
      Step w (w.move i (.updating secret (published files)) files)
  | updated (w : World ι ρ) (i : ι) (secret : Secret) (updated : Keys) (server : Server Keys)
      (ok : Bool) :
      (w.jobs i).pc = .updating secret updated →
      (w.secretOf i).put secret.version updated = some server →
      Step w ((w.commit (w.jobs i).command.secretName server updated).move i
        (afterUpdate (w.jobs i).command ok) (w.jobs i).files)
  | notUpdated (w : World ι ρ) (i : ι) (secret : Secret) (updated : Keys) :
      (w.jobs i).pc = .updating secret updated →
      Step w (w.move i (afterUpdate (w.jobs i).command false) (w.jobs i).files)
  | migrate (w : World ι ρ) (i : ι) (files : Files) :
      (w.jobs i).pc = .migrating → manage "credential_migrate" (w.jobs i).files files →
      Step w (w.move i (.exited 0) files)
  | restart (w : World ι ρ) (i : ι) (files : Files) : Step w (w.move i .start files)
  | render (w : World ι ρ) (r : ρ) (name : String) :
      Step w { w with manifests :=
        Function.update w.manifests r (render name (w.secrets name).object) }
  | apply (w : World ι ρ) (r : ρ) (name : String) (data live keys : Keys) :
      w.manifests r = some (name, data) → (w.secrets name).stored = some live →
      Applied data live keys →
      Step w (w.commit name ((w.secrets name).set keys) keys)

/-- A fresh install: no Secret, no manifest, every pod before its first request. -/
structure Fresh (w : World ι ρ) : Prop where
  secrets : ∀ name, (w.secrets name).object = none
  history : ∀ name, w.history name = []
  jobs : ∀ i, (w.jobs i).pc = .start
  manifests : ∀ r, w.manifests r = none

/-- The key jobs and the renders on one cluster. -/
def system (ι ρ : Type) [DecidableEq ι] [DecidableEq ρ] : TSys (World ι ρ) :=
  ⟨Fresh, Step manage⟩

end System

end OpenstackBlueprint.Keystone
