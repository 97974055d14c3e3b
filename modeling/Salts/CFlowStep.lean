import Mathlib.Algebra.Group.Nat.Defs
import Mathlib.Logic.Function.Basic
import Salts.CstlBasic

/-!
The result of resuming a publisher or a resumable (`cflow_step` of `cflow/reactive.h`).
-/

namespace Salts.CFlow

/-- One `cflow_step`: its kind with the value or the message that comes with it.  The message of an
error may be a null pointer. -/
inductive Step (α : Type) where
  | value (v : α)
  | valueAndDone (v : α)
  | wait
  | done
  | error (message : Option String)
  deriving DecidableEq

namespace Step

variable {α : Type}

def terminal : Step α → Bool
  | value _ => false
  | valueAndDone _ => true
  | wait => false
  | done => true
  | error _ => true

end Step

end Salts.CFlow
