import OpenstackBlueprint.Kit.MiniPython
import OpenstackBlueprint.Kit.Text

/-!
# The gate over the gates

`validate-gates-cannot-skip.py` reads every gate with `ast` and asks of each
handler of a failed import whether it ends the process with a status that is not
0. `terminates_nonzero` goes through the statements of the handler up to the
first that it recognises as an end.
-/

namespace OpenstackBlueprint.Gates.CannotSkip

open Kit Kit.MiniPython

/-! ## terminates_nonzero -/

/-- `exits_nonzero_call(node, terminators)`. -/
def exitsNonzeroCall (terminators : List String) : Stmt → Bool
  | .expr (.call (.name id) _ _) => terminators.contains id
  | _ => false

/-- `getattr(f, "attr", None) or getattr(f, "id", None)`. -/
def calleeName : Expr → Option String
  | .attribute _ attr => some attr
  | .name id => some id
  | _ => none

/-- What is returned of a call named `exit`, by its first argument that is given by position. -/
def exitArgument : List Expr → Bool
  -- `sys.exit()` is status 0
  | [] => false
  -- a string argument exits 1 and prints it
  | .const (.str s) :: _ => s != ""
  -- `a.value not in (0, None)`
  | .const .none :: _ => false
  | .const (.int n) :: _ => n != 0
  | .const (.other zero) :: _ => !zero
  -- a computed status; assume intentional
  | _ :: _ => true

/-- One round of the loop: what it returns, or `none` to go on. -/
def recognise (terminators : List String) (node : Stmt) : Option Bool :=
  if exitsNonzeroCall terminators node then some true
  else
    match node with
    | .raise _ => some true
    | .expr (.call f args keywords) =>
      if calleeName f = some "exit" then
        some (exitArgument (args.take (args.length - keywords.length)))
      else none
    | _ => none

/-- `terminates_nonzero(body, terminators)`. -/
def terminatesNonzero (terminators : List String) : List Stmt → Bool
  | [] => false
  | node :: rest =>
    match recognise terminators node with
    | some answer => answer
    | none => terminatesNonzero terminators rest

/-- `terminators`: the names of the helpers that end so without the help of
another. -/
def terminators (helpers : List Def) : List String :=
  (helpers.filter fun fn => terminatesNonzero [] fn.body).map Def.name

/-! ## main -/

/-- An `except` clause; `names` are the names in its type, `none` for a bare one. -/
structure Handler where
  names : Option (List String)
  lineno : Nat
  body : List Stmt

/-- A `try`, and whether its body imports. -/
structure Try where
  imports : Bool
  handlers : List Handler

/-- A gate that parses: the functions at the top of the module, and every `try` in
it. -/
structure Gate where
  helpers : List Def
  tries : List Try

/-- `handles_importerror(handler)`. -/
def handlesImporterror (h : Handler) : Bool :=
  match h.names with
  | none => true
  | some names => names.any fun n => ["ImportError", "ModuleNotFoundError", "Exception"].contains n

/-- The handlers of failed imports. -/
def importHandlers (gate : Gate) : List Handler :=
  (gate.tries.filter Try.imports).flatMap fun t => t.handlers.filter handlesImporterror

/-- The problems of a gate; one that does not parse has its error. -/
def gateProblems (g : String) : Except String Gate → List String
  | .error e => [g ++ ": does not parse: " ++ e]
  | .ok gate =>
    ((importHandlers gate).filter fun h =>
      !terminatesNonzero (terminators gate.helpers) h.body).map fun h =>
        g ++ ":" ++ toString h.lineno ++ " catches a failed import and does not exit non-zero -- " ++
          "a missing parser would make this gate report success without measuring anything"

/-- The number of handlers that were looked at. -/
def handlerCount (gates : List (String × Except String Gate)) : Nat :=
  (gates.map fun g =>
    match g.2 with
    | .error _ => 0
    | .ok gate => (importHandlers gate).length).sum

/-- What `main` returns and prints, or the message it exits with. `gates` are the
`validate-*.py` files in the order of their names, `none` without the directory. -/
def main (hack : String) (gates : Option (List (String × Except String Gate))) :
    Except String (Nat × List String) :=
  match gates with
  | none => .error ("FAIL: no hack directory at " ++ hack ++ " -- nothing was measured")
  | some [] => .error ("FAIL: no validate-*.py gates found -- this check inspected nothing, which " ++
      "is the condition it exists to forbid")
  | some gates =>
    let problems := gates.flatMap fun g => gateProblems g.1 g.2
    let handlers := handlerCount gates
    if handlers = 0 then
      .ok (1, ("FAIL: no gate guards an import at all -- either the gates stopped importing " ++
        "their parsers or this check is looking in the wrong place") :: problems.map ("  " ++ ·))
    else if problems ≠ [] then
      .ok (1, ("FAIL: " ++ toString problems.length ++ " gate(s) can pass without measuring (" ++
        toString handlers ++ " import guards inspected across " ++ toString gates.length ++
        " gates)") :: (sortAlpha (uniq problems)).map ("  " ++ ·))
    else .ok (0, ["OK: all " ++ toString handlers ++ " import guards in " ++ toString gates.length ++
      " gates exit non-zero when their parser is missing"])

end OpenstackBlueprint.Gates.CannotSkip
