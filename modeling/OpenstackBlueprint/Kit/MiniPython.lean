import Mathlib

/-!
# A part of Python

Functions of a module whose bodies are made of expression statements, calls,
operators, `if`, `return` and `raise`, with a big-step semantics. What the program
text does not fix is the `World` a run takes place in: the values of names that are
no parameters, operators, and what a called expression is bound to by the time it is
called (a function of the module under any of its definitions, the real `sys.exit`
under any name, a function from elsewhere with whatever it does). Any evaluation may
raise. The process ends at a call of `sys.exit`, at a raised `SystemExit`, and where
a function from elsewhere ends it.
-/

namespace OpenstackBlueprint.Kit.MiniPython

/-! ## Syntax -/

/-- A literal. `True` and `False` are integers, and `zero` says whether a number,
bytes or another literal equals 0. -/
inductive Const
  | none
  | int (n : Int)
  | str (s : String)
  | other (zero : Bool)

/-- An expression. The operands of an operator stand in the order in which they are
evaluated; f-strings, subscripts and `a if c else b` are operators too. The last
arguments of a call are those given by keyword. -/
inductive Expr
  | const (c : Const)
  | name (id : String)
  | attribute (base : Expr) (attr : String)
  | op (o : String) (parts : List Expr)
  | call (func : Expr) (args : List Expr) (keywords : List String)

inductive Stmt
  | expr (e : Expr)
  | ite (test : Expr) (body orelse : List Stmt)
  | ret (value : Option Expr)
  | raise (exc : Option Expr)

/-! ## Values and outcomes -/

/-- A value, as far as conditions and exit statuses tell values apart; `quit` is
a `SystemExit` with the status of its arguments. -/
inductive Val
  | none
  | int (n : Int)
  | str (s : String)
  | quit (status : Nat)
  | other

def Const.val : Const → Val
  | none => .none
  | int n => .int n
  | str s => .str s
  | other _ => .other

/-- `bool(v)`; of other values nothing is known. -/
inductive Truth : Val → Bool → Prop
  | none : Truth .none false
  | int (n : Int) : Truth (.int n) (n != 0)
  | str (s : String) : Truth (.str s) (s != "")
  | quit (status : Nat) : Truth (.quit status) true
  | other (b : Bool) : Truth .other b

/-- The status of a process that exits with the value: an integer is taken as a C
`long` and cut to a byte, and other values than `None` are printed and make it 1. -/
def status : Val → Nat
  | .none => 0
  | .int n => if -2 ^ 63 ≤ n ∧ n < 2 ^ 63 then (n % 256).toNat else 255
  | _ => 1

/-- The status of `SystemExit(*vs)`: of several values it is their tuple. -/
def exitStatus : List Val → Nat
  | [] => 0
  | [v] => status v
  | _ => 1

/-- How an execution is cut short. -/
inductive Abort
  | raised
  | exited (status : Nat)
  deriving DecidableEq

/-- What raising the value comes to. -/
def Val.thrown : Val → Abort
  | quit status => .exited status
  | _ => .raised

/-- The result of an evaluation. -/
inductive Res (α : Type)
  | value (a : α)
  | abort (a : Abort)

/-- The end of a list of statements. -/
inductive Out
  | fell
  | returned (v : Val)
  | abort (a : Abort)

/-- What a call yields whose function ends so. -/
def Out.result : Out → Res Val
  | fell => .value .none
  | returned v => .value v
  | abort a => .abort a

/-! ## Modules -/

/-- A function of the module; a parameter may have a default. -/
structure Def where
  name : String
  params : List (String × Option Val)
  body : List Stmt

/-- The values of the parameters of a running function. -/
abbrev Env := List (String × Val)

/-- The values a function is called with. -/
structure Arguments where
  positional : List Val
  keywords : List (String × Val)

/-- The last values are those given by keyword. -/
def Arguments.of (keywords : List String) (vs : List Val) : Arguments where
  positional := vs.take (vs.length - keywords.length)
  keywords := keywords.zip (vs.drop (vs.length - keywords.length))

/-- The parameters bound to the arguments, unless a `TypeError` says they do not
fit. -/
def bindParams : List (String × Option Val) → List Val → List (String × Val) → Option Env
  | [], [], [] => some []
  | [], _, _ => none
  | (p, _) :: params, v :: vs, ks => (bindParams params vs ks).map ((p, v) :: ·)
  | (p, default) :: params, [], ks =>
    match ks.lookup p <|> default with
    | some v => (bindParams params [] (ks.filter fun k => k.1 ≠ p)).map ((p, v) :: ·)
    | none => none

/-- What a called expression is bound to. `acts` is what a function from elsewhere
can come to. -/
inductive Callee
  | helper (d : Def)
  | exit
  | systemExit
  | outside (acts : Arguments → Res Val → Prop)

/-- What the program text does not fix. An operator goes through its operands,
`takes` or skips the next one by what those before it gave, and ends with a
`result`. -/
structure World where
  names : String → Val → Prop
  attributes : Val → String → Val → Prop
  takes : String → List (Option Val) → Bool → Prop
  result : String → List (Option Val) → Val → Prop
  calls : Env → Expr → Callee → Prop

/-! ## Semantics -/

mutual

inductive Eval (w : World) : Env → Expr → Res Val → Prop
  | raised {env : Env} {e : Expr} : Eval w env e (.abort .raised)
  | const {env : Env} (c : Const) : Eval w env (.const c) (.value c.val)
  | param {env : Env} {id : String} {v : Val} (h : env.lookup id = some v) :
      Eval w env (.name id) (.value v)
  | name {env : Env} {id : String} {v : Val} (h : env.lookup id = none) (hv : w.names id v) :
      Eval w env (.name id) (.value v)
  | attribute {env : Env} {base : Expr} {attr : String} {b v : Val}
      (h : Eval w env base (.value b)) (hv : w.attributes b attr v) :
      Eval w env (.attribute base attr) (.value v)
  | attributeBase {env : Env} {base : Expr} {attr : String} {a : Abort}
      (h : Eval w env base (.abort a)) : Eval w env (.attribute base attr) (.abort a)
  | op {env : Env} {o : String} {parts : List Expr} {vs : List (Option Val)} {v : Val}
      (h : EvalOp w o env [] parts (.value vs)) (hv : w.result o vs v) :
      Eval w env (.op o parts) (.value v)
  | opPart {env : Env} {o : String} {parts : List Expr} {a : Abort}
      (h : EvalOp w o env [] parts (.abort a)) : Eval w env (.op o parts) (.abort a)
  | callFunc {env : Env} {func : Expr} {args : List Expr} {keywords : List String} {a : Abort}
      (h : Eval w env func (.abort a)) : Eval w env (.call func args keywords) (.abort a)
  | callArgs {env : Env} {func : Expr} {args : List Expr} {keywords : List String} {f : Val}
      {a : Abort} (hf : Eval w env func (.value f)) (h : EvalArgs w env args (.abort a)) :
      Eval w env (.call func args keywords) (.abort a)
  | call {env : Env} {func : Expr} {args : List Expr} {keywords : List String} {f : Val}
      {vs : List Val} {c : Callee} {r : Res Val} (hf : Eval w env func (.value f))
      (h : EvalArgs w env args (.value vs)) (hc : w.calls env func c)
      (hr : Applies w c (.of keywords vs) r) : Eval w env (.call func args keywords) r

/-- A function called with these arguments. -/
inductive Applies (w : World) : Callee → Arguments → Res Val → Prop
  | exit {vs : List Val} (hlength : vs.length ≤ 1) :
      Applies w .exit ⟨vs, []⟩ (.abort (.exited (exitStatus vs)))
  | systemExit (vs : List Val) : Applies w .systemExit ⟨vs, []⟩ (.value (.quit (exitStatus vs)))
  | outside {acts : Arguments → Res Val → Prop} {vs : Arguments} {r : Res Val} (h : acts vs r) :
      Applies w (.outside acts) vs r
  | helper {d : Def} {vs : Arguments} {inner : Env} {o : Out} {r : Res Val}
      (hbind : bindParams d.params vs.positional vs.keywords = some inner)
      (hbody : Exec w inner d.body o) (hr : o.result = r) : Applies w (.helper d) vs r

/-- The arguments of a call, from left to right. -/
inductive EvalArgs (w : World) : Env → List Expr → Res (List Val) → Prop
  | nil {env : Env} : EvalArgs w env [] (.value [])
  | cons {env : Env} {e : Expr} {rest : List Expr} {v : Val} {vs : List Val}
      (h : Eval w env e (.value v)) (hrest : EvalArgs w env rest (.value vs)) :
      EvalArgs w env (e :: rest) (.value (v :: vs))
  | first {env : Env} {e : Expr} {rest : List Expr} {a : Abort}
      (h : Eval w env e (.abort a)) : EvalArgs w env (e :: rest) (.abort a)
  | later {env : Env} {e : Expr} {rest : List Expr} {v : Val} {a : Abort}
      (h : Eval w env e (.value v)) (hrest : EvalArgs w env rest (.abort a)) :
      EvalArgs w env (e :: rest) (.abort a)

/-- The operands of an operator, after those that gave `before`. -/
inductive EvalOp (w : World) :
    String → Env → List (Option Val) → List Expr → Res (List (Option Val)) → Prop
  | nil {o : String} {env : Env} {before : List (Option Val)} :
      EvalOp w o env before [] (.value before)
  | skip {o : String} {env : Env} {before : List (Option Val)} {e : Expr} {rest : List Expr}
      {r : Res (List (Option Val))} (ht : w.takes o before false)
      (h : EvalOp w o env (before ++ [none]) rest r) : EvalOp w o env before (e :: rest) r
  | take {o : String} {env : Env} {before : List (Option Val)} {e : Expr} {rest : List Expr}
      {v : Val} {r : Res (List (Option Val))} (ht : w.takes o before true) (he : Eval w env e (.value v))
      (h : EvalOp w o env (before ++ [some v]) rest r) : EvalOp w o env before (e :: rest) r
  | abort {o : String} {env : Env} {before : List (Option Val)} {e : Expr} {rest : List Expr}
      {a : Abort} (ht : w.takes o before true) (he : Eval w env e (.abort a)) :
      EvalOp w o env before (e :: rest) (.abort a)

inductive ExecStmt (w : World) : Env → Stmt → Out → Prop
  | expr {env : Env} {e : Expr} {v : Val} (h : Eval w env e (.value v)) :
      ExecStmt w env (.expr e) .fell
  | exprAbort {env : Env} {e : Expr} {a : Abort} (h : Eval w env e (.abort a)) :
      ExecStmt w env (.expr e) (.abort a)
  | ite {env : Env} {test : Expr} {body orelse : List Stmt} {v : Val} {b : Bool} {o : Out}
      (htest : Eval w env test (.value v)) (hb : Truth v b)
      (h : Exec w env (bif b then body else orelse) o) :
      ExecStmt w env (.ite test body orelse) o
  | iteAbort {env : Env} {test : Expr} {body orelse : List Stmt} {a : Abort}
      (htest : Eval w env test (.abort a)) : ExecStmt w env (.ite test body orelse) (.abort a)
  | retNone {env : Env} : ExecStmt w env (.ret none) (.returned .none)
  | ret {env : Env} {e : Expr} {v : Val} (h : Eval w env e (.value v)) :
      ExecStmt w env (.ret (some e)) (.returned v)
  | retAbort {env : Env} {e : Expr} {a : Abort} (h : Eval w env e (.abort a)) :
      ExecStmt w env (.ret (some e)) (.abort a)
  | reraise {env : Env} : ExecStmt w env (.raise none) (.abort .raised)
  | raise {env : Env} {e : Expr} {v : Val} (h : Eval w env e (.value v)) :
      ExecStmt w env (.raise (some e)) (.abort v.thrown)
  | raiseAbort {env : Env} {e : Expr} {a : Abort} (h : Eval w env e (.abort a)) :
      ExecStmt w env (.raise (some e)) (.abort a)

inductive Exec (w : World) : Env → List Stmt → Out → Prop
  | nil {env : Env} : Exec w env [] .fell
  | next {env : Env} {s : Stmt} {rest : List Stmt} {o : Out} (h : ExecStmt w env s .fell)
      (hrest : Exec w env rest o) : Exec w env (s :: rest) o
  | stop {env : Env} {s : Stmt} {rest : List Stmt} {o : Out} (h : ExecStmt w env s o)
      (ho : o ≠ .fell) : Exec w env (s :: rest) o

end

end OpenstackBlueprint.Kit.MiniPython
