import OpenstackBlueprint.Kit.Base64
import OpenstackBlueprint.Kit.Dict
import OpenstackBlueprint.Kit.TSys

/-!
# Minting the PowerDNS API key

`api-key-init.py` of the powerdns chart runs in a Job of every release. It reads
one Secret, and mints a key when the Secret has none: by a patch when the Secret
exists, by a create when it does not. Two pods read the key into their environment
when they start, the server and the designate worker that talks to it.

Reconciles race. One step of the system is one request of one Job, one start of a
container or one change of the Secret by somebody else.
-/

namespace OpenstackBlueprint.Powerdns

open OpenstackBlueprint.Kit

/-- `KEY`. -/
def keyName : String := "PDNS_API_KEY"

/-- The Secret. A Secret that is deleted and created again is another object. -/
structure Secret where
  uid : Nat
  /-- decoded, as containers see it -/
  data : Dict String String
deriving DecidableEq

namespace Secret

/-- What `secretKeyRef` resolves to. -/
def key (s : Secret) : Option String := s.data.get? keyName

/-- `existing.data and existing.data.get(KEY)`, over the base64 of a response. -/
def holdsKey (s : Secret) : Bool :=
  match s.key.map b64encode with
  | none => false
  | some value => value != ""

/-- The patch of `string_data`. -/
def patch (s : Secret) (token : String) : Secret := { s with data := s.data.set keyName token }

end Secret

/-- `body` of the create. -/
def body (uid : Nat) (token : String) : Secret := ⟨uid, Dict.empty.set keyName token⟩

/-- Where a run of the script stands between two requests. -/
inductive Pc
  | start
  /-- before `patch_namespaced_secret` -/
  | patching
  /-- before `create_namespaced_secret` -/
  | creating
  | exited (code : Nat)
deriving DecidableEq, Repr

/-- What a request was answered; `failed` is every other status and no answer at all. -/
inductive Answer (α : Type)
  | ok (value : α)
  | notFound
  | conflict
  | failed

/-- After `read_namespaced_secret`. -/
def afterRead : Answer Secret → Pc
  | .ok existing => if existing.holdsKey then .exited 0 else .patching
  | .notFound => .creating
  | .conflict | .failed => .exited 1

/-- After `patch_namespaced_secret`: the handler around the read takes its 404 too. -/
def afterPatch : Answer Unit → Pc
  | .ok _ => .exited 0
  | .notFound => .creating
  | .conflict | .failed => .exited 1

/-- After `create_namespaced_secret`. -/
def afterCreate : Answer Unit → Pc
  | .ok _ | .conflict => .exited 0
  | .notFound | .failed => .exited 1

/-! ## The system -/

/-- The cluster: the Secret, the number of objects created so far, the pods of the Job, and
the object and the key each container was started with. -/
structure World (ι κ : Type) where
  secret : Option Secret
  clock : Nat
  jobs : ι → Pc
  pods : κ → Option (Nat × String)

namespace World

variable {ι κ : Type} [DecidableEq ι] [DecidableEq κ]

/-- Job `i` moves on. -/
def move (w : World ι κ) (i : ι) (pc : Pc) : World ι κ :=
  { w with jobs := Function.update w.jobs i pc }

/-- The Secret changes in place. -/
def store (w : World ι κ) (s : Secret) : World ι κ := { w with secret := some s }

/-- A new Secret. -/
def create (w : World ι κ) (s : Secret) : World ι κ :=
  { w with secret := some s, clock := w.clock + 1 }

/-- Container `p` starts. -/
def startPod (w : World ι κ) (p : κ) (uid : Nat) (key : String) : World ι κ :=
  { w with pods := Function.update w.pods p (some (uid, key)) }

end World

/-- What a read may be answered. -/
def Answer.Reads (answer : Answer Secret) (secret : Option Secret) : Prop :=
  match answer with
  | .ok s => secret = some s
  | .notFound => secret = none
  | .conflict => False
  | .failed => True

/-- One step of the cluster. A request may fail for reasons of its own, and its answer may be
lost after it took effect. Nobody but the Jobs mints a key into a Secret or replaces one. -/
inductive Step {ι κ : Type} [DecidableEq ι] [DecidableEq κ] : World ι κ → World ι κ → Prop
  | read (w : World ι κ) (i : ι) (answer : Answer Secret) :
      w.jobs i = .start → answer.Reads w.secret →
      Step w (w.move i (afterRead answer))
  | patched (w : World ι κ) (i : ι) (s : Secret) (token : String) (answer : Answer Unit) :
      w.jobs i = .patching → w.secret = some s → token ≠ "" →
      (answer = .ok () ∨ answer = .failed) →
      Step w ((w.store (s.patch token)).move i (afterPatch answer))
  | notPatched (w : World ι κ) (i : ι) (answer : Answer Unit) :
      w.jobs i = .patching → (answer = .failed ∨ answer = .notFound ∧ w.secret = none) →
      Step w (w.move i (afterPatch answer))
  | created (w : World ι κ) (i : ι) (token : String) (answer : Answer Unit) :
      w.jobs i = .creating → w.secret = none → token ≠ "" →
      (answer = .ok () ∨ answer = .failed) →
      Step w ((w.create (body w.clock token)).move i (afterCreate answer))
  | notCreated (w : World ι κ) (i : ι) (answer : Answer Unit) :
      w.jobs i = .creating → (answer = .failed ∨ answer = .conflict ∧ w.secret ≠ none) →
      Step w (w.move i (afterCreate answer))
  | restart (w : World ι κ) (i : ι) : Step w (w.move i .start)
  | podStarts (w : World ι κ) (p : κ) (s : Secret) (key : String) :
      w.secret = some s → s.key = some key →
      Step w (w.startPod p s.uid key)
  /-- an operator brings a key of their own -/
  | provided (w : World ι κ) (s : Secret) :
      w.secret = none → s.uid = w.clock → s.holdsKey →
      Step w (w.create s)
  | touched (w : World ι κ) (s s' : Secret) :
      w.secret = some s → s'.uid = s.uid → s'.key = s.key →
      Step w (w.store s')
  | deleted (w : World ι κ) : Step w { w with secret := none }

/-- The Jobs and the containers on one cluster, from a given state on. -/
def keySystem {ι κ : Type} [DecidableEq ι] [DecidableEq κ] (w : World ι κ) : TSys (World ι κ) :=
  ⟨(· = w), Step⟩

end OpenstackBlueprint.Powerdns
