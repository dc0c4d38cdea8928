import LuaGlue.Marshal.Push
import LuaGlue.Marshal.Read

/-!
# Callback fields

A field that is a function pointer cannot hold a script's closure, and a C function pointer carries
nothing by which to find one. So every callback field has a pool of *trampolines*, each wired to
a closure slot of its own. An instance claims an entry of the pool when it is first assigned a
closure and keeps it until it is assigned `nil`. When native code calls a trampoline, a
*dispatcher* that all trampolines of the field share runs the closure of its slot in a protected
call, and answers with zero if the slot is empty or the closure fails.

A collected instance keeps its entry, since native code may still hold the function pointer.
Variadic signatures are not bound at all. Closures run on the main thread of the state that
registered them.
-/

set_option autoImplicit false

namespace LuaGlue

open Draft

/-- Trampolines, and so different closures, there are per callback field. -/
def poolSize : Nat := 16

/-- A callback field, which owns a pool of closure slots. -/
structure CallbackSlot where
  owner : String
  field : String
  deriving DecidableEq, Repr

def CallbackSlot.symbol (s : CallbackSlot) : Symbol := .slot s.owner s.field

/-- The callback fields among some fields that can be bound. -/
def bindableFields (ctx : Context) (owner : String) : List Field → Classifying (List CallbackSlot)
  | [] => pure []
  | f :: rest => do
    let category ← ctx.classify f.type
    let slots ← bindableFields ctx owner rest
    return if category.isBindable then ⟨owner, f.name⟩ :: slots else slots

/-- The slots of some structs, in the order of their declarations. -/
def collectSlots (ctx : Context) : List StructDecl → Classifying (List CallbackSlot)
  | [] => pure []
  | s :: rest => do
    let slots ← bindableFields ctx s.name s.fields
    return slots ++ (← collectSlots ctx rest)

/-! ## The pools -/

/-- Lines given as text. -/
def textLines (lines : List String) : Code := .ofLines (lines.map .text)

/-- The function that binds a closure to a slot. The entry an instance holds is recorded under the
field's name in its anchor table; a new closure uses it again and `nil` gives it back. -/
def slotBindCode (null : String) : Code :=
  .blockOf (.text
    "static int tether_slot_bind(lua_State* L, int ud, int slot, const char* field, int value)")
    (.seq
      [textLines
        ["int entry = -1;",
         "tether_slot* s;",
         "if (!lua_isnil(L, value)) luaL_checktype(L, value, LUA_TFUNCTION);",
         "ud = lua_absindex(L, ud);",
         "value = lua_absindex(L, value);"],
       .branchOf (.text "lua_getiuservalue(L, ud, 1) == LUA_TTABLE")
        (textLines
          ["if (lua_getfield(L, -1, field) == LUA_TNUMBER) entry = (int)lua_tointeger(L, -1);",
           "lua_pop(L, 1);"]),
       textLines ["lua_pop(L, 1);"],
       .branchOf (.text "entry >= 0")
        (textLines
          ["s = &tether_slots[slot][entry];",
           "if (s->L != " ++ null ++ ") luaL_unref(s->L, LUA_REGISTRYINDEX, s->ref);",
           "s->L = " ++ null ++ ";",
           "s->ref = LUA_NOREF;"]),
       .branchOf (.text "lua_isnil(L, value)")
        (textLines
          ["lua_pushnil(L);",
           "tether_anchor(L, ud, field, -1);",
           "lua_pop(L, 1);",
           "return -1;"]),
       .branchOf (.text "entry < 0")
        (.seq
          [.blockOf (.text "for (int k = 0; k < TETHER_SLOT_POOL && entry < 0; k++)")
            (textLines ["if (tether_slots[slot][k].L == " ++ null ++ ") entry = k;"]),
           textLines
            ["if (entry < 0) return luaL_error(L, \"all %d callback slots of '%s' are in use\", " ++
               "TETHER_SLOT_POOL, field);",
             "lua_pushinteger(L, entry);",
             "tether_anchor(L, ud, field, -1);",
             "lua_pop(L, 1);"]]),
       textLines
        ["s = &tether_slots[slot][entry];",
         "lua_pushvalue(L, value);",
         "s->ref = luaL_ref(L, LUA_REGISTRYINDEX);",
         "lua_rawgeti(L, LUA_REGISTRYINDEX, LUA_RIDX_MAINTHREAD);",
         "s->L = lua_tothread(L, -1);",
         "lua_pop(L, 1);",
         "return entry;"]])

/-- The pools of all slots and the function that binds closures to them; nothing for a module
without callbacks. -/
def slotArena (ctx : Context) (slots : List CallbackSlot) : Code :=
  if slots.isEmpty then .done
  else
    .seq
      [.ofLines (banner "Callback slots" ++
        [.directive ("#define TETHER_SLOT_POOL " ++ toString poolSize), .blank]),
       .blockOf (.text "typedef struct tether_slot") (textLines ["lua_State* L;", "int ref;"])
        (.named "tether_slot"),
       .ofLines [.blank],
       .blockOf (.text "enum")
        (.ofLines (slots.map (fun s => .item s.symbol) ++ [.text "TETHER_SLOT_COUNT"])) .semicolon,
       .ofLines
        [.blank, .text "static tether_slot tether_slots[TETHER_SLOT_COUNT][TETHER_SLOT_POOL];",
         .blank],
       slotBindCode ctx.null,
       .ofLines [.blank]]

/-! ## Trampolines -/

/-- The function pointer a spelling means, looking through at most `steps - 1` aliases. -/
def signatureWithin (aliases : List (String × String)) : Nat → String → Option FunctionPointer
  | 0, _ => none
  | steps + 1, spelling =>
    match CType.parse spelling with
    | .function f => if f.variadic then none else some f
    | .named t =>
      if t.pointers == 0 && t.dims.isEmpty then
        (aliases.lookup t.base).bind (signatureWithin aliases steps)
      else none
    | .malformed => none

/-- How many spellings are looked at for a callback's signature. -/
def maxSignatureSteps : Nat := 8

/-- The signature of a callback field. -/
def signature (ctx : Context) (owner : String) (field : Field) : Except Fault FunctionPointer :=
  match signatureWithin ctx.manifest.types.aliases maxSignatureSteps field.type with
  | some f => .ok f
  | none => .error (.callback owner field.name field.type)

/-- The name of a trampoline's parameter. -/
def callbackParam (i : Nat) : String := "a" ++ toString i

/-- The results a trampoline converts back. Strings and aggregates would outlive the value on the
stack they were read from. -/
def Category.isCallbackResult : Category → Bool
  | .bool | .integer _ | .float _ | .enum _ | .handle _ | .pointer .. => true
  | _ => false

/-- Pushes the arguments of a callback from position `i` on. -/
def pushArguments (ctx : Context) (i : Nat) : List String → Draft Unit
  | [] => pure ()
  | spelling :: rest => do
    push ctx spelling (.name (callbackParam i))
    pushArguments ctx (i + 1) rest

/-- Reports that a callback failed. -/
def reportFailure (site : String) (message : Arg) : Line :=
  .call ⟨.support .callbackError, [.literal site, message]⟩

/-- The room on the stack a dispatcher asks for: the closure, its arguments and one more. -/
def dispatcherRoom (nargs : Nat) : Nat := nargs + 2

/-- The body of a dispatcher. -/
def dispatcherBody (ctx : Context) (site result : String) (category : Category)
    (params : List String) : Draft Unit := do
  let nargs := params.length
  let state : Place := .through "s" "L"
  branch (.isNull state ctx.null) (returnZero ctx result)
  line (.declare (.plain "lua_State*" "L") (.value state))
  branch (.fails (Api.checkstack.on [.number (dispatcherRoom nargs)])) do
    line (reportFailure site (.literal "stack overflow"))
    returnZero ctx result
  line (.call (Api.rawgeti.on [.text "LUA_REGISTRYINDEX", .value (.through "s" "ref")]))
  pushArguments ctx 0 params
  let converted := category.isCallbackResult
  if !category.isVoid && !converted then
    line (.placeholder ("convert callback result '" ++ result ++ "'"))
  branch (.callFails nargs (if converted then 1 else 0)) do
    lines
      [.declare (.plain "const char*" "msg") (.call (Api.tostring.on [.at .top])),
       reportFailure site
        (.text ("msg != " ++ ctx.null ++ " ? msg : \"error object is not a string\"")),
       popOne]
    returnZero ctx result
  if converted then
    line (.declare ⟨declareLocal result "ret", "ret"⟩ (.text (ctx.zeroInit category)))
    read ctx .lenient result (.name "ret") .top
    lines [popOne, .ret (.value (.name "ret"))]
  else if !category.isVoid then returnZero ctx result

/-- One trampoline: calls the dispatcher with the slot of its entry. -/
def trampolineCode (owner field result : String) (category : Category) (params : String)
    (nargs entry : Nat) : Code :=
  let call : Call :=
    ⟨.generated (.dispatcher owner field),
      .slotEntry (.slot owner field) entry ::
        (List.range nargs).map fun i => .value (.name (callbackParam i))⟩
  .blockOf (.define ("static " ++ result) (.trampoline owner field entry) params)
    (.line (if category.isVoid then .call call else .ret (.call call)) .done)

/-- The dispatcher, the trampolines and their table for a callback field. -/
def trampolines (ctx : Context) (owner : String) (field : Field) : Draft Unit := do
  let signature ← ofExcept (signature ctx owner field)
  let result := Text.trimmed signature.result
  let category ← ctx.categoryOf result
  let declared := signature.params.mapIdx fun i spelling => declare spelling (callbackParam i)
  let params := if declared.isEmpty then "void" else ", ".intercalate declared
  block (.define ("static " ++ result) (.dispatcher owner field.name)
      (", ".intercalate ("tether_slot* s" :: declared)))
    (dispatcherBody ctx (owner ++ "." ++ field.name) result category signature.params)
  let pool := List.range poolSize
  let type : Symbol := .callbackType owner field.name
  write (.seq
    [.ofLines [.blank],
     .seq (pool.map
      (trampolineCode owner field.name result category params signature.params.length)),
     .ofLines [.blank, .functionType result type params],
     .blockOf
      (.table ("static const " ++ type.spelling) (.trampolineTable owner field.name)
        "TETHER_SLOT_POOL")
      (.ofLines (pool.map fun entry => .item (.trampoline owner field.name entry))) .semicolon,
     .ofLines [.blank]])

/-- The body of the setter that stores a closure into a callback field. -/
def callbackSetter (ctx : Context) (owner field : String) : List Line :=
  [.declare (.plain "int" "entry")
    (.call (Support.slotBind.on
      [.value (.name "ud"), .symbol (.slot owner field), .literal field, .value (.name "value")])),
   .assign (.through "self" field)
    (.choose (.text "entry < 0") (.text ctx.null) (.entry (.trampolineTable owner field) "entry"))]

end LuaGlue
