/-!
# Why a declaration gets no glue

A fault never ends a run. The declaration it concerns is left out, a comment takes its place, and
the fault is reported with the declaration's name. Two of the faults are *hard*: they are about
names, and a module that lacks a name or gives one twice is of no use as a whole.
-/

set_option autoImplicit false

namespace LuaGlue

/-- What was to be done with a value that cannot cross the boundary. -/
inductive Action where
  | push
  | read
  | write
  | bind
  deriving DecidableEq, Repr

def Action.word : Action → String
  | push => "push"
  | read => "read"
  | write => "write"
  | bind => "bind"

/-- Why a tuple's members cannot be told. -/
inductive TupleFault where
  | noMembers
  | emptyList
  | emptyMember (entry : String)
  | tooDeep
  deriving DecidableEq, Repr

def TupleFault.message : TupleFault → String
  | noMembers => "no member list configured"
  | emptyList => "member list is empty"
  | emptyMember entry => "empty member in '" ++ entry ++ "'"
  | tooDeep => "members nest too deeply"

inductive Fault where
  /-- Two functions of one script name have the same suffix. -/
  | overloadCollision (base suffix : String)
  /-- A script name that another function has already. -/
  | duplicateName (name first : String)
  | unsupported (action : Action) (type : String)
  | tuple (name : String) (reason : TupleFault)
  /-- An owned buffer whose field is no pointer. -/
  | ownedBuffer (owner field type : String)
  /-- A callback field whose signature cannot be told. -/
  | callback (owner field type : String)
  | enumRange (item : String) (value : Int)
  deriving DecidableEq, Repr

namespace Fault

def message : Fault → String
  | overloadCollision base suffix =>
    "overloads of '" ++ base ++ "' collide on suffix '" ++ suffix ++ "'"
  | duplicateName name first =>
    "script name '" ++ name ++ "' is already registered by '" ++ first ++ "'"
  | unsupported action type => "cannot " ++ action.word ++ " a value of type '" ++ type ++ "'"
  | tuple name reason => "tuple struct '" ++ name ++ "': " ++ reason.message
  | ownedBuffer owner field type =>
    "owned buffer '" ++ owner ++ "." ++ field ++ "' has no element type (found '" ++ type ++ "')"
  | callback owner field type =>
    "callback field '" ++ owner ++ "." ++ field ++ "': '" ++ type ++
      "' is not a non-variadic function pointer"
  | enumRange item value =>
    "value " ++ toString value ++ " of '" ++ item ++ "' does not fit a Lua integer"

/-- Whether the fault makes the whole module unusable. -/
def isHard : Fault → Bool
  | overloadCollision .. | duplicateName .. => true
  | _ => false

end Fault

end LuaGlue
