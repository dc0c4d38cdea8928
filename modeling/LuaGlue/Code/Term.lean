import LuaGlue.Code.Api
import LuaGlue.Code.Symbol

/-!
# C expressions

The expressions generated code is written with. What matters about them can be read off their
constructors: which functions are called with which arguments, where a value is taken from and
where it goes. Names and spellings from the interface stay text, as does arithmetic that nothing
depends on.

There are five sorts, none of which contains itself through a list: places, stack indices,
arguments, calls, conditions and expressions. Each has one function `render`, and no term is printed
in any other way. Nothing is ever put in parentheses unless a constructor says so.
-/

set_option autoImplicit false

namespace LuaGlue

/-- Something that holds a native value. -/
inductive Place where
  /-- A name, or any expression given as text. -/
  | name (s : String)
  /-- `p[k]` -/
  | element (p : Place) (k : String)
  /-- `p.field` -/
  | member (p : Place) (field : String)
  /-- `(p).field` -/
  | memberOf (p : Place) (field : String)
  /-- `*p` -/
  | target (p : Place)
  /-- `base->path` -/
  | through (base path : String)
  deriving DecidableEq, Repr

def Place.render : Place → String
  | name s => s
  | element p k => p.render ++ "[" ++ k ++ "]"
  | member p field => p.render ++ "." ++ field
  | memberOf p field => "(" ++ p.render ++ ")." ++ field
  | target p => "*" ++ p.render
  | through base path => base ++ "->" ++ path

/-- A position on the Lua stack. -/
inductive StackIndex where
  /-- Counted from the bottom: an argument of the running function. -/
  | slot (n : Nat)
  | top
  | belowTop
  /-- A variable that holds the position, or any expression given as text. -/
  | held (name : String)
  deriving DecidableEq, Repr

def StackIndex.render : StackIndex → String
  | slot n => toString n
  | top => "-1"
  | belowTop => "-2"
  | held name => name

inductive Arg where
  /-- The Lua state. -/
  | state
  | at (i : StackIndex)
  | value (p : Place)
  /-- `(type)p` -/
  | cast (type : String) (p : Place)
  /-- `&name` -/
  | address (name : String)
  /-- `&(p)` -/
  | addressOf (p : Place)
  | number (n : Nat)
  /-- `v + 1`: the position in a Lua sequence of the element `v` of an array. -/
  | succ (v : String)
  | sizeof (type : String)
  /-- A C text literal; what stands between the quotes is written as it is. -/
  | literal (s : String)
  | symbol (s : Symbol)
  /-- An entry of a callback field's pool of closure slots. -/
  | slotEntry (pool : Symbol) (entry : Nat)
  /-- `owned | mask`, with the mask of one buffer. -/
  | ownedWith (bit : Nat)
  | text (s : String)
  deriving DecidableEq, Repr

/-- The mask of the owned buffer number `bit`. -/
def ownershipMask (bit : Nat) : String := "((lua_Integer)1 << " ++ toString bit ++ ")"

namespace Arg

protected def render : Arg → String
  | state => "L"
  | .at i => i.render
  | value p => p.render
  | cast type p => "(" ++ type ++ ")" ++ p.render
  | address name => "&" ++ name
  | addressOf p => "&(" ++ p.render ++ ")"
  | number n => toString n
  | succ v => v ++ " + 1"
  | sizeof type => "sizeof(" ++ type ++ ")"
  | literal s => "\"" ++ s ++ "\""
  | symbol s => s.spelling
  | slotEntry pool entry => "&tether_slots[" ++ pool.spelling ++ "][" ++ toString entry ++ "]"
  | ownedWith bit => "owned | " ++ ownershipMask bit
  | text s => s

end Arg

/-- What is called. -/
inductive Callee where
  | api (f : Api)
  | generated (s : Symbol)
  | support (s : Support)
  /-- A function of the C library. -/
  | libc (name : String)
  /-- A function of the library that is bound. -/
  | native (name : String)
  deriving DecidableEq, Repr

def Callee.render : Callee → String
  | api f => f.name
  | generated s => s.spelling
  | support s => s.name
  | libc name | native name => name

structure Call where
  callee : Callee
  args : List Arg
  deriving DecidableEq, Repr

def Call.render (c : Call) : String :=
  c.callee.render ++ "(" ++ ", ".intercalate (c.args.map Arg.render) ++ ")"

/-- A call of an API function on the running state. -/
def Api.on (f : Api) (args : List Arg) : Call := ⟨.api f, .state :: args⟩

/-- A call of a support function on the running state. -/
def Support.on (s : Support) (args : List Arg) : Call := ⟨.support s, .state :: args⟩

inductive Cond where
  | holds (c : Call)
  | fails (c : Call)
  /-- `p != null` -/
  | notNull (p : Place) (null : String)
  /-- `p == null` -/
  | isNull (p : Place) (null : String)
  /-- The value at a position is a string. -/
  | isString (i : StackIndex)
  /-- The protected call of a closure with so many arguments and results fails. -/
  | callFails (nargs nresults : Nat)
  /-- The text `key` is `name`. -/
  | keyIs (name : String)
  /-- The buffer number `bit` is owned. -/
  | owns (bit : Nat)
  | text (s : String)
  deriving DecidableEq, Repr

protected def Cond.render : Cond → String
  | holds c => c.render
  | fails c => "!" ++ c.render
  | notNull p null => p.render ++ " != " ++ null
  | isNull p null => p.render ++ " == " ++ null
  | isString i => (Api.on .type [.at i]).render ++ " == LUA_TSTRING"
  | callFails nargs nresults =>
    (Api.on .pcall [.number nargs, .number nresults, .number 0]).render ++ " != LUA_OK"
  | keyIs name => "strcmp(key, \"" ++ name ++ "\") == 0"
  | owns bit => "owned & " ++ ownershipMask bit
  | text s => s

inductive Expr where
  | value (p : Place)
  | call (c : Call)
  | cast (type : String) (e : Expr)
  /-- `*e` -/
  | target (e : Expr)
  /-- `&name` -/
  | address (name : String)
  /-- `c ? yes : no` -/
  | choose (c : Cond) (yes no : Expr)
  /-- `table[k]`, in a table of this file. -/
  | entry (table : Symbol) (k : String)
  | text (s : String)
  deriving DecidableEq, Repr

protected def Expr.render : Expr → String
  | value p => p.render
  | call c => c.render
  | cast type e => "(" ++ type ++ ")" ++ e.render
  | target e => "*" ++ e.render
  | address name => "&" ++ name
  | choose c yes no => c.render ++ " ? " ++ yes.render ++ " : " ++ no.render
  | entry table k => table.spelling ++ "[" ++ k ++ "]"
  | text s => s

end LuaGlue
