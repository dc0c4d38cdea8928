/-!
# Names at file scope

Everything the generated file defines for others to refer to. A reference and the definition it
means are the same `Symbol`, and only `Symbol.spelling` turns one into text; so "every reference
is defined" is a statement about symbols, and "no two definitions clash" one about `spelling`.
-/

set_option autoImplicit false

namespace LuaGlue

inductive Symbol where
  /-- The wrapper of a native function, under the name the overload plan gave it. -/
  | wrapper (name : String)
  /-- A wrapper someone wrote by hand. -/
  | handWritten (name : String)
  | constructor (struct : String)
  /-- Reads a value of the struct off the Lua stack. -/
  | converter (struct : String)
  | indexer (struct : String)
  | newIndexer (struct : String)
  | collector (struct : String)
  | getter (struct key : String)
  | setter (struct key : String)
  /-- The number of a callback field's pool of closure slots. -/
  | slot (struct field : String)
  /-- Runs the closure of a slot. -/
  | dispatcher (struct field : String)
  | trampoline (struct field : String) (entry : Nat)
  | trampolineTable (struct field : String)
  | callbackType (struct field : String)
  | enumRegistrar (enum : String)
  | constRegistrar (position : Nat)
  | metatableRegistrar
  | functionTable
  | entryPoint (name : String)
  deriving DecidableEq, Repr

/-- How a symbol is written in C. -/
def Symbol.spelling : Symbol → String
  | wrapper name | handWritten name | entryPoint name => name
  | constructor s => "l_" ++ s ++ "_new"
  | converter s => "tether_to_" ++ s
  | indexer s => "l_" ++ s ++ "__index"
  | newIndexer s => "l_" ++ s ++ "__newindex"
  | collector s => "l_" ++ s ++ "__gc"
  | getter s key => "tether_" ++ s ++ "_get_" ++ key
  | setter s key => "tether_" ++ s ++ "_set_" ++ key
  | slot s field => "TETHER_SLOT_" ++ s ++ "_" ++ field
  | dispatcher s field => "tether_call_" ++ s ++ "_" ++ field
  | trampoline s field entry => "tether_trampoline_" ++ s ++ "_" ++ field ++ "_" ++ toString entry
  | trampolineTable s field => "tether_trampolines_" ++ s ++ "_" ++ field
  | callbackType s field => "tether_fn_" ++ s ++ "_" ++ field
  | enumRegistrar e => "tether_enum_" ++ e
  | constRegistrar position => "tether_consts_" ++ toString position
  | metatableRegistrar => "tether_register_metatables"
  | functionTable => "tether_functions"

/-- The helpers that every generated file brings along, whatever the library. -/
inductive Support where
  /-- A pointer from a userdata, a light userdata or nothing. -/
  | topointer
  /-- Keeps a value alive as long as a userdata. -/
  | anchor
  /-- Pops the value on top into a keep table. -/
  | keep
  /-- Which of its buffers a userdata owns. -/
  | owned
  | setOwned
  /-- Binds a closure to a slot of a callback field. -/
  | slotBind
  /-- Reports a failing callback. -/
  | callbackError
  deriving DecidableEq, Repr

def Support.name : Support → String
  | topointer => "tether_topointer"
  | anchor => "tether_anchor"
  | keep => "tether_keep"
  | owned => "tether_owned"
  | setOwned => "tether_set_owned"
  | slotBind => "tether_slot_bind"
  | callbackError => "TETHER_CALLBACK_ERROR"

end LuaGlue
