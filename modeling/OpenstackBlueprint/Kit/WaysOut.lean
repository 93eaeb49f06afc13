import OpenstackBlueprint.Kit.MiniPython

/-!
# The ways out of a piece of Python

What statements can come to, read off their syntax: the values an expression gives,
whether it can end the process with status 0 (`zero`), whether a statement can
complete (`falls`), and what it can return. Functions of the module are taken at
their contracts: a contract is respected when the bodies, read so, do nothing that
it does not allow (`Respects`).

The runs are what the reading says: under a respected contract it misses none
(`exec_ways`), and under the contract of what runs do it has no others
(`exec_of_falls`, `exec_of_returns`, `exec_of_zero`).
-/

namespace OpenstackBlueprint.Kit.MiniPython

/-! ## Contracts -/

/-- What the functions of the module can do with their parameters: the values they
can come to, and whether they can end the process with status 0. -/
structure Contract where
  gives : Def → Env → Val → Prop
  zero : Def → Env → Prop

/-- The values a call can have. -/
def Callee.gives (k : Contract) : Callee → Arguments → Val → Prop
  | helper d, vs, v => ∃ inner, bindParams d.params vs.positional vs.keywords = some inner ∧
      k.gives d inner v
  | exit, _, _ => False
  | systemExit, vs, v => vs.keywords = [] ∧ v = .quit (exitStatus vs.positional)
  | outside acts, vs, v => acts vs (.value v)

/-- The call can end the process with status 0. -/
def Callee.zero (k : Contract) : Callee → Arguments → Prop
  | helper d, vs => ∃ inner, bindParams d.params vs.positional vs.keywords = some inner ∧
      k.zero d inner
  | exit, vs => vs.keywords = [] ∧ vs.positional.length ≤ 1 ∧ exitStatus vs.positional = 0
  | systemExit, _ => False
  | outside acts, vs => acts vs (.abort (.exited 0))

/-! ## Expressions -/

section Syntax

variable (w : World) (k : Contract) (env : Env)

mutual

/-- The expression can have the value. -/
def Expr.gives : Expr → Val → Prop
  | .const c, v => v = c.val
  | .name id, v => env.lookup id = some v ∨ env.lookup id = none ∧ w.names id v
  | .attribute base attr, v => ∃ b, base.gives b ∧ w.attributes b attr v
  | .op o parts, v => ∃ vs, opGives o [] parts vs ∧ w.result o vs v
  | .call func args keywords, v => (∃ f, func.gives f) ∧ ∃ vs, argsGive args vs ∧
      ∃ c, w.calls env func c ∧ c.gives k (.of keywords vs) v

def argsGive : List Expr → List Val → Prop
  | [], vs => vs = []
  | e :: rest, vs => ∃ v, e.gives v ∧ ∃ vs', argsGive rest vs' ∧ vs = v :: vs'

def opGives (o : String) : List (Option Val) → List Expr → List (Option Val) → Prop
  | before, [], vs => vs = before
  | before, e :: rest, vs => (w.takes o before false ∧ opGives o (before ++ [none]) rest vs) ∨
      w.takes o before true ∧ ∃ v, e.gives v ∧ opGives o (before ++ [some v]) rest vs

end

mutual

/-- The expression can end the process with status 0. -/
def Expr.zero : Expr → Prop
  | .const _ => False
  | .name _ => False
  | .attribute base _ => base.zero
  | .op o parts => opZero o [] parts
  | .call func args keywords => func.zero ∨ (∃ f, func.gives w k env f) ∧ (argsZero args ∨
      ∃ vs, argsGive w k env args vs ∧ ∃ c, w.calls env func c ∧ c.zero k (.of keywords vs))

def argsZero : List Expr → Prop
  | [] => False
  | e :: rest => e.zero ∨ (∃ v, e.gives w k env v) ∧ argsZero rest

def opZero (o : String) : List (Option Val) → List Expr → Prop
  | _, [] => False
  | before, e :: rest => (w.takes o before false ∧ opZero o (before ++ [none]) rest) ∨
      w.takes o before true ∧
        (e.zero ∨ ∃ v, e.gives w k env v ∧ opZero o (before ++ [some v]) rest)

end

/-! ## Statements -/

mutual

/-- The statement can complete. -/
def Stmt.falls : Stmt → Prop
  | .expr e => ∃ v, e.gives w k env v
  | .ite test body orelse =>
    (∃ v, test.gives w k env v ∧ Truth v true ∧ allFall body) ∨
      ∃ v, test.gives w k env v ∧ Truth v false ∧ allFall orelse
  | .ret _ => False
  | .raise _ => False

def allFall : List Stmt → Prop
  | [] => True
  | s :: rest => s.falls ∧ allFall rest

end

mutual

/-- The statement can return the value. -/
def Stmt.returns : Stmt → Val → Prop
  | .expr _, _ => False
  | .ite test body orelse, v =>
    (∃ u, test.gives w k env u ∧ Truth u true ∧ anyReturns body v) ∨
      ∃ u, test.gives w k env u ∧ Truth u false ∧ anyReturns orelse v
  | .ret none, v => v = .none
  | .ret (some e), v => e.gives w k env v
  | .raise _, _ => False

def anyReturns : List Stmt → Val → Prop
  | [], _ => False
  | s :: rest, v => s.returns v ∨ s.falls w k env ∧ anyReturns rest v

end

mutual

/-- The statement can end the process with status 0. -/
def Stmt.zero : Stmt → Prop
  | .expr e => e.zero w k env
  | .ite test body orelse => test.zero w k env ∨
      (∃ v, test.gives w k env v ∧ Truth v true ∧ anyZero body) ∨
      ∃ v, test.gives w k env v ∧ Truth v false ∧ anyZero orelse
  | .ret none => False
  | .ret (some e) => e.zero w k env
  | .raise none => False
  | .raise (some e) => e.zero w k env ∨ e.gives w k env (.quit 0)

def anyZero : List Stmt → Prop
  | [] => False
  | s :: rest => s.zero ∨ s.falls w k env ∧ anyZero rest

end

end Syntax

/-- The bodies of functions do what the contract allows. -/
structure Respects (w : World) (k : Contract) : Prop where
  falls : ∀ d inner, allFall w k inner d.body → k.gives d inner .none
  returns : ∀ d inner v, anyReturns w k inner d.body v → k.gives d inner v
  zero : ∀ d inner, anyZero w k inner d.body → k.zero d inner

section Sound

variable {w : World} {k : Contract}

/-- What the reading has to say about a result. -/
def Shown {α : Type} (gives : α → Prop) (zero : Prop) : Res α → Prop
  | .value v => gives v
  | .abort (.exited 0) => zero
  | .abort _ => True

/-- What it has to say about an end. -/
def ShownOut (falls : Prop) (returns : Val → Prop) (zero : Prop) : Out → Prop
  | .fell => falls
  | .returned v => returns v
  | .abort (.exited 0) => zero
  | .abort _ => True

theorem Shown.of_abort {α β : Type} {gives : α → Prop} {gives' : β → Prop} {zero zero' : Prop}
    {a : Abort} (h : Shown gives zero (.abort a)) (hzero : zero → zero') :
    Shown gives' zero' (.abort a) := by
  match a, h with
  | .raised, _ => exact trivial
  | .exited 0, h => exact hzero h
  | .exited (_ + 1), _ => exact trivial

theorem Shown.out {gives : Val → Prop} {falls zero zero' : Prop} {returns : Val → Prop}
    {a : Abort} (h : Shown gives zero (.abort a)) (hzero : zero → zero') :
    ShownOut falls returns zero' (.abort a) := by
  match a, h with
  | .raised, _ => exact trivial
  | .exited 0, h => exact hzero h
  | .exited (_ + 1), _ => exact trivial

theorem ShownOut.imp {falls falls' zero zero' : Prop} {returns returns' : Val → Prop} {o : Out}
    (h : ShownOut falls returns zero o) (hfalls : falls → falls')
    (hreturns : ∀ v, returns v → returns' v) (hzero : zero → zero') :
    ShownOut falls' returns' zero' o := by
  match o, h with
  | .fell, h => exact hfalls h
  | .returned v, h => exact hreturns v h
  | .abort .raised, _ => exact trivial
  | .abort (.exited 0), h => exact hzero h
  | .abort (.exited (_ + 1)), _ => exact trivial

mutual

theorem eval_ways (hk : Respects w k) {env : Env} {e : Expr} {r : Res Val} :
    Eval w env e r → Shown (e.gives w k env) (e.zero w k env) r
  | .raised => trivial
  | .const _ => rfl
  | .param h => .inl h
  | .name h hv => .inr ⟨h, hv⟩
  | .attribute h hv => ⟨_, eval_ways hk h, hv⟩
  | .attributeBase h => (eval_ways hk h).of_abort id
  | .op h hv => ⟨_, evalOp_ways hk h, hv⟩
  | .opPart h => (evalOp_ways hk h).of_abort id
  | .callFunc h => (eval_ways hk h).of_abort .inl
  | .callArgs hf h => (evalArgs_ways hk h).of_abort fun hz => .inr ⟨⟨_, eval_ways hk hf⟩, .inl hz⟩
  | .call (r := .value _) hf h hc hr =>
    ⟨⟨_, eval_ways hk hf⟩, _, evalArgs_ways hk h, _, hc, applies_ways hk hr⟩
  | .call (r := .abort _) hf h hc hr => (applies_ways hk hr).of_abort fun hz =>
    .inr ⟨⟨_, eval_ways hk hf⟩, .inr ⟨_, evalArgs_ways hk h, _, hc, hz⟩⟩

theorem applies_ways (hk : Respects w k) {c : Callee} {vs : Arguments} {r : Res Val} :
    Applies w c vs r → Shown (c.gives k vs) (c.zero k vs) r
  | @Applies.exit _ vs hlength => by
    cases hstatus : exitStatus vs with
    | zero => exact ⟨rfl, hlength, hstatus⟩
    | succ n => exact trivial
  | .systemExit _ => ⟨rfl, rfl⟩
  | .outside h => by
    match r, h with
    | .value _, h => exact h
    | .abort .raised, _ => exact trivial
    | .abort (.exited 0), h => exact h
    | .abort (.exited (_ + 1)), _ => exact trivial
  | @Applies.helper _ d _ inner o _ hbind hbody hr => by
    have hways := exec_ways hk hbody
    subst hr
    match o, hways with
    | .fell, h => exact ⟨inner, hbind, hk.falls d inner h⟩
    | .returned v, h => exact ⟨inner, hbind, hk.returns d inner v h⟩
    | .abort .raised, _ => exact trivial
    | .abort (.exited 0), h => exact ⟨inner, hbind, hk.zero d inner h⟩
    | .abort (.exited (_ + 1)), _ => exact trivial

theorem evalArgs_ways (hk : Respects w k) {env : Env} {es : List Expr} {r : Res (List Val)} :
    EvalArgs w env es r → Shown (argsGive w k env es) (argsZero w k env es) r
  | .nil => rfl
  | .cons h hrest => ⟨_, eval_ways hk h, _, evalArgs_ways hk hrest, rfl⟩
  | .first h => (eval_ways hk h).of_abort .inl
  | .later h hrest => (evalArgs_ways hk hrest).of_abort fun hz => .inr ⟨⟨_, eval_ways hk h⟩, hz⟩

theorem evalOp_ways (hk : Respects w k) {o : String} {env : Env} {before : List (Option Val)}
    {es : List Expr} {r : Res (List (Option Val))} : EvalOp w o env before es r →
      Shown (opGives w k env o before es) (opZero w k env o before es) r
  | .nil => rfl
  | .skip (r := .value _) ht h => .inl ⟨ht, evalOp_ways hk h⟩
  | .skip (r := .abort _) ht h => (evalOp_ways hk h).of_abort fun hz => .inl ⟨ht, hz⟩
  | .take (r := .value _) ht he h => .inr ⟨ht, _, eval_ways hk he, evalOp_ways hk h⟩
  | .take (r := .abort _) ht he h =>
    (evalOp_ways hk h).of_abort fun hz => .inr ⟨ht, .inr ⟨_, eval_ways hk he, hz⟩⟩
  | .abort ht he => (eval_ways hk he).of_abort fun hz => .inr ⟨ht, .inl hz⟩

theorem execStmt_ways (hk : Respects w k) {env : Env} {s : Stmt} {o : Out} :
    ExecStmt w env s o → ShownOut (s.falls w k env) (s.returns w k env) (s.zero w k env) o
  | .expr h => ⟨_, eval_ways hk h⟩
  | .exprAbort h => (eval_ways hk h).out id
  | .ite (b := true) htest hb h => (exec_ways hk h).imp
    (fun hf => .inl ⟨_, eval_ways hk htest, hb, hf⟩)
    (fun _ hr => .inl ⟨_, eval_ways hk htest, hb, hr⟩)
    fun hz => .inr (.inl ⟨_, eval_ways hk htest, hb, hz⟩)
  | .ite (b := false) htest hb h => (exec_ways hk h).imp
    (fun hf => .inr ⟨_, eval_ways hk htest, hb, hf⟩)
    (fun _ hr => .inr ⟨_, eval_ways hk htest, hb, hr⟩)
    fun hz => .inr (.inr ⟨_, eval_ways hk htest, hb, hz⟩)
  | .iteAbort h => (eval_ways hk h).out .inl
  | .retNone => rfl
  | .ret h => eval_ways hk h
  | .retAbort h => (eval_ways hk h).out id
  | .reraise => trivial
  | .raise (v := v) h => by
    match v, eval_ways hk h with
    | .quit 0, h => exact .inr h
    | .quit (_ + 1), _ => exact trivial
    | .none, _ => exact trivial
    | .int _, _ => exact trivial
    | .str _, _ => exact trivial
    | .other, _ => exact trivial
  | .raiseAbort h => (eval_ways hk h).out .inl

theorem exec_ways (hk : Respects w k) {env : Env} {body : List Stmt} {o : Out} :
    Exec w env body o →
      ShownOut (allFall w k env body) (anyReturns w k env body) (anyZero w k env body) o
  | .nil => trivial
  | .next h hrest => (exec_ways hk hrest).imp (fun hf => ⟨execStmt_ways hk h, hf⟩)
    (fun _ hr => .inr ⟨execStmt_ways hk h, hr⟩) fun hz => .inr ⟨execStmt_ways hk h, hz⟩
  | .stop (o := .fell) _ ho => absurd rfl ho
  | .stop (o := .returned _) h _ => .inl (execStmt_ways hk h)
  | .stop (o := .abort .raised) _ _ => trivial
  | .stop (o := .abort (.exited 0)) h _ => .inl (execStmt_ways hk h)
  | .stop (o := .abort (.exited (_ + 1))) _ _ => trivial

end

end Sound

/-! ## No way is made up -/

/-- What runs of the functions do. -/
def World.contract (w : World) : Contract where
  gives d inner v := ∃ o, Exec w inner d.body o ∧ o.result = .value v
  zero d inner := Exec w inner d.body (.abort (.exited 0))

section Exact

variable {w : World}

theorem applies_of_gives {c : Callee} {vs : Arguments} {v : Val}
    (h : c.gives w.contract vs v) : Applies w c vs (.value v) := by
  cases c with
  | helper d =>
    obtain ⟨inner, hbind, o, hbody, hr⟩ := h
    exact .helper hbind hbody hr
  | exit => cases h
  | systemExit =>
    obtain ⟨positional, keywords⟩ := vs
    obtain ⟨rfl, rfl⟩ := h
    exact .systemExit positional
  | outside acts => exact .outside h

theorem applies_of_zero {c : Callee} {vs : Arguments} (h : c.zero w.contract vs) :
    Applies w c vs (.abort (.exited 0)) := by
  cases c with
  | helper d =>
    obtain ⟨inner, hbind, hbody⟩ := h
    exact .helper hbind hbody rfl
  | exit =>
    obtain ⟨positional, keywords⟩ := vs
    obtain ⟨rfl, hlength, hstatus⟩ := h
    exact hstatus ▸ .exit hlength
  | systemExit => cases h
  | outside acts => exact .outside h

variable {env : Env}

mutual

theorem eval_of_gives : ∀ {e : Expr} {v : Val}, e.gives w w.contract env v →
    Eval w env e (.value v)
  | .const c, _, h => by
    cases h
    exact .const c
  | .name _, _, .inl h => .param h
  | .name _, _, .inr h => .name h.1 h.2
  | .attribute _ _, _, ⟨_, hb, hv⟩ => .attribute (eval_of_gives hb) hv
  | .op _ _, _, ⟨_, hvs, hv⟩ => .op (evalOp_of_gives hvs) hv
  | .call _ _ _, _, ⟨⟨_, hf⟩, _, hvs, _, hc, hv⟩ =>
    .call (eval_of_gives hf) (evalArgs_of_gives hvs) hc (applies_of_gives hv)

theorem evalArgs_of_gives : ∀ {es : List Expr} {vs : List Val}, argsGive w w.contract env es vs →
    EvalArgs w env es (.value vs)
  | [], _, h => by
    cases h
    exact .nil
  | _ :: _, _, ⟨_, hv, _, hvs, h⟩ => by
    subst h
    exact .cons (eval_of_gives hv) (evalArgs_of_gives hvs)

theorem evalOp_of_gives {o : String} : ∀ {before : List (Option Val)} {es : List Expr}
    {vs : List (Option Val)}, opGives w w.contract env o before es vs →
    EvalOp w o env before es (.value vs)
  | _, [], _, h => by
    cases h
    exact .nil
  | _, _ :: _, _, .inl ⟨ht, h⟩ => .skip ht (evalOp_of_gives h)
  | _, _ :: _, _, .inr ⟨ht, _, hv, h⟩ => .take ht (eval_of_gives hv) (evalOp_of_gives h)

end

mutual

theorem eval_of_zero : ∀ {e : Expr}, e.zero w w.contract env →
    Eval w env e (.abort (.exited 0))
  | .attribute _ _, h => .attributeBase (eval_of_zero (e := _) h)
  | .op _ _, h => .opPart (evalOp_of_zero h)
  | .call _ _ _, .inl h => .callFunc (eval_of_zero h)
  | .call _ _ _, .inr ⟨⟨_, hf⟩, .inl h⟩ => .callArgs (eval_of_gives hf) (evalArgs_of_zero h)
  | .call _ _ _, .inr ⟨⟨_, hf⟩, .inr ⟨_, hvs, _, hc, hz⟩⟩ =>
    .call (eval_of_gives hf) (evalArgs_of_gives hvs) hc (applies_of_zero hz)

theorem evalArgs_of_zero : ∀ {es : List Expr}, argsZero w w.contract env es →
    EvalArgs w env es (.abort (.exited 0))
  | _ :: _, .inl h => .first (eval_of_zero h)
  | _ :: _, .inr ⟨⟨_, hv⟩, h⟩ => .later (eval_of_gives hv) (evalArgs_of_zero h)

theorem evalOp_of_zero {o : String} : ∀ {before : List (Option Val)} {es : List Expr},
    opZero w w.contract env o before es → EvalOp w o env before es (.abort (.exited 0))
  | _, _ :: _, .inl ⟨ht, h⟩ => .skip ht (evalOp_of_zero h)
  | _, _ :: _, .inr ⟨ht, .inl h⟩ => .abort ht (eval_of_zero h)
  | _, _ :: _, .inr ⟨ht, .inr ⟨_, hv, h⟩⟩ => .take ht (eval_of_gives hv) (evalOp_of_zero h)

end

mutual

theorem execStmt_of_falls : ∀ {s : Stmt}, s.falls w w.contract env → ExecStmt w env s .fell
  | .expr _, ⟨_, h⟩ => .expr (eval_of_gives h)
  | .ite _ _ _, .inl ⟨_, hv, hb, h⟩ => .ite (eval_of_gives hv) hb (exec_of_falls h)
  | .ite _ _ _, .inr ⟨_, hv, hb, h⟩ => .ite (eval_of_gives hv) hb (exec_of_falls h)

theorem exec_of_falls : ∀ {body : List Stmt}, allFall w w.contract env body → Exec w env body .fell
  | [], _ => .nil
  | _ :: _, ⟨hs, h⟩ => .next (execStmt_of_falls hs) (exec_of_falls h)

end

mutual

theorem execStmt_of_returns {v : Val} : ∀ {s : Stmt}, s.returns w w.contract env v →
    ExecStmt w env s (.returned v)
  | .ite _ _ _, .inl ⟨_, hv, hb, h⟩ => .ite (eval_of_gives hv) hb (exec_of_returns h)
  | .ite _ _ _, .inr ⟨_, hv, hb, h⟩ => .ite (eval_of_gives hv) hb (exec_of_returns h)
  | .ret none, h => by
    cases h
    exact .retNone
  | .ret (some _), h => .ret (eval_of_gives h)

theorem exec_of_returns {v : Val} : ∀ {body : List Stmt}, anyReturns w w.contract env body v →
    Exec w env body (.returned v)
  | _ :: _, .inl h => .stop (execStmt_of_returns h) (by simp)
  | _ :: _, .inr ⟨hs, h⟩ => .next (execStmt_of_falls hs) (exec_of_returns h)

end

mutual

theorem execStmt_of_zero : ∀ {s : Stmt}, s.zero w w.contract env →
    ExecStmt w env s (.abort (.exited 0))
  | .expr _, h => .exprAbort (eval_of_zero h)
  | .ite _ _ _, .inl h => .iteAbort (eval_of_zero h)
  | .ite _ _ _, .inr (.inl ⟨_, hv, hb, h⟩) => .ite (eval_of_gives hv) hb (exec_of_zero h)
  | .ite _ _ _, .inr (.inr ⟨_, hv, hb, h⟩) => .ite (eval_of_gives hv) hb (exec_of_zero h)
  | .ret (some _), h => .retAbort (eval_of_zero h)
  | .raise (some _), .inl h => .raiseAbort (eval_of_zero h)
  | .raise (some _), .inr h => .raise (eval_of_gives h)

theorem exec_of_zero : ∀ {body : List Stmt}, anyZero w w.contract env body →
    Exec w env body (.abort (.exited 0))
  | _ :: _, .inl h => .stop (execStmt_of_zero h) (by simp)
  | _ :: _, .inr ⟨hs, h⟩ => .next (execStmt_of_falls hs) (exec_of_zero h)

end

end Exact

end OpenstackBlueprint.Kit.MiniPython
