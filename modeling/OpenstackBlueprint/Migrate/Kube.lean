import OpenstackBlueprint.Kit.Python
import OpenstackBlueprint.Kit.Script

/-!
# Talking to the cluster (`migrate-to-pvc.py`)

The migration is a script over `kubectl`. Its inputs are how each command ended
and what the clock said; its events are the commands it issued, what it printed
and how long it slept. Any answer can come at any point: nothing here assumes
that two reads agree.

The supply of inputs is finite. Where it ends the script is interrupted, and a
command that was running then is in the trace without an outcome.
-/

namespace OpenstackBlueprint.Migrate

open Kit Kit.Script

/-! ## The world of the script -/

/-- How a `kubectl` process ended. `json` is what `json.loads` makes of
`stdout`, `none` where it raises. -/
structure Proc where
  returncode : Int
  stdout : String
  stderr : String
  json : Option Json

/-- What the script does to the world. -/
inductive Event
  /-- A command, with its standard input. `proc` is `none` when
  the script ended before the command did. -/
  | kubectl (base args : List String) (stdin : Option String) (proc : Option Proc)
  | sleep (seconds : Nat)
  | print (line : String)

/-- Why the script ends early. -/
inductive Stop
  /-- `raise Refusal(message)` -/
  | refusal (message : String)
  /-- any other exception -/
  | crash
  /-- interrupted from outside -/
  | killed

/-- The inputs still to come; the clock is in milliseconds. -/
structure Supply where
  procs : List Proc
  clock : List Int

/-- A piece of the script. -/
abbrev Sh := Script Supply Event Stop

/-- `raise Refusal(message)`. -/
def refuse {α : Type} (message : String) : Sh α := stop (.refusal message)

/-- The value of an expression that may raise. -/
def eval {α : Type} (value : Option α) : Sh α := ofOption .crash value

/-- `print(line)`. -/
def print (line : String) : Sh Unit := emit (.print line)

/-- `time.sleep(seconds)`. -/
def sleep (seconds : Nat) : Sh Unit := emit (.sleep seconds)

/-- `time.time()`. -/
def time : Sh Int := fun supply =>
  match supply.clock with
  | now :: rest => (.ok now, [], { supply with clock := rest })
  | [] => (.error .killed, [], supply)

/-- `subprocess.run(base + args, input=stdin)`. -/
def exec (base args : List String) (stdin : Option String) : Sh Proc := fun supply =>
  match supply.procs with
  | p :: rest => (.ok p, [.kubectl base args stdin (some p)], { supply with procs := rest })
  | [] => (.error .killed, [.kubectl base args stdin none], supply)

/-! ## `class Kube` -/

structure Kube where
  context : String
  ns : String
  apply : Bool

/-- `self.base`. -/
def Kube.base (kube : Kube) : List String :=
  ["kubectl", "--context", kube.context, "--namespace", kube.ns]

/-- `Kube.run`. -/
def Kube.run (kube : Kube) (args : List String) (stdin : Option String) (check : Bool) :
    Sh Proc := do
  let p ← exec kube.base args stdin
  if check && p.returncode != 0 then
    refuse ("kubectl " ++ String.intercalate " " args ++ ": " ++ strip p.stderr)
  else
    return p

/-- `Kube.get`; `null` is `None`. -/
def Kube.get (kube : Kube) (args : List String) : Sh Json := do
  let p ← kube.run (["get"] ++ args ++ ["-o", "json"]) none false
  if p.returncode != 0 then
    if hasSubstring "NotFound" p.stderr || hasSubstring "not found" p.stderr then
      return .null
    else
      refuse ("kubectl get " ++ String.intercalate " " args ++ ": " ++ strip p.stderr)
  else
    eval p.json

/-- `Kube.change`. An argument that is no string raises when the command is
run, and only then. -/
def Kube.change (kube : Kube) (description : String) (args : Option (List String))
    (stdin : Option String) : Sh Unit := do
  print ((if kube.apply then "  DO   " else "  PLAN ") ++ description)
  if kube.apply then
    let args ← eval args
    let _ ← kube.run args stdin true
    return ()
  else
    return ()

/-! ## The Composition -/

/-- `PAUSE_ANNOTATION`. -/
def pauseAnnotation : String := "krateo.io/paused"

/-- `COPY_POD_TIMEOUT`. -/
def copyPodTimeout : Nat := 1800

/-- `RESYNC_GUARD`. -/
def resyncGuard : Nat := 90

/-- `WAIT_STEP`. -/
def waitStep : Nat := 5

/-- The resource a component's Composition is listed under. -/
def compositionResource (component : String) : String :=
  component ++ "s.composition.krateo.io"

/-- `(found or {}).get("items") or []`. -/
def compositionItems (found : Json) : Option Json :=
  ((found.orElse (.obj [])).get "items").map fun items => items.orElse (.arr [])

/-- `composition`. -/
def composition (kube : Kube) (component : String) : Sh Json := do
  let found ← kube.get [compositionResource component]
  let items ← eval (compositionItems found)
  let n ← eval items.len
  if n != 1 then
    refuse ("expected one " ++ component ++ " Composition in " ++ kube.ns ++ ", found " ++
      toString n)
  else
    eval items.first

/-- `paused`. -/
def paused (comp : Json) : Option Bool := do
  let metadata ← comp.index "metadata"
  let annotations ← metadata.get "annotations"
  let value ← (annotations.orElse (.obj [])).get pauseAnnotation
  return value.eqStr "true"

/-- `comp["metadata"]["name"]`. -/
def metadataName (comp : Json) : Option Json := do
  (← comp.index "metadata").index "name"

/-! ## `wait_for` -/

/-- The loop of `wait_for`. Every iteration reads the clock, so it cannot
outlast the clock readings that are left. -/
def waitLoop (description : String) (predicate : Sh Bool) (timeout : Nat) (deadline : Int) :
    Nat → Sh Unit
  | 0 => stop .killed
  | fuel + 1 => do
    let now ← time
    if now < deadline then
      if ← predicate then
        return ()
      else
        sleep waitStep
        waitLoop description predicate timeout deadline fuel
    else
      refuse ("timed out after " ++ toString timeout ++ "s waiting for " ++ description)

/-- `wait_for`. -/
def waitFor (description : String) (predicate : Sh Bool) (timeout : Nat) : Sh Unit := do
  let start ← time
  let fuel ← fun supply => (.ok supply.clock.length, [], supply)
  waitLoop description predicate timeout (start + timeout * 1000) fuel

end OpenstackBlueprint.Migrate
