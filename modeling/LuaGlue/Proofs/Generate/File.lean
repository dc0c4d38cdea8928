import LuaGlue.Generate
import LuaGlue.Proofs.Code.Symbols

/-!
# What the sections of a file mention

The sections around the chunks are made from the bindings alone, so what they mention is a function of
them: `cFile_mentions` puts the file together.
-/

set_option autoImplicit false

namespace LuaGlue

/-! ## Text without a mention -/

theorem textLines_mentions (ls : List String) : (textLines ls).mentions = [] := by
  rw [textLines, Code.mentions_ofLines]
  simp [List.flatMap_map, Line.mentions]

theorem directives_mentions (ls : List String) : (directives ls).mentions = [] := by
  rw [directives, Code.mentions_ofLines]
  simp [List.flatMap_map, Line.mentions]

theorem blankLine_mentions : blankLine.mentions = [] := rfl

theorem banner_mentions (title : String) : (banner title).flatMap Line.mentions = [] := rfl

theorem sectionBanner_mentions (title : String) : (sectionBanner title).mentions = [] := rfl

theorem text_mentions {s : String} {body : Code} (h : body.mentions = []) (ending : Ending) :
    (Code.blockOf (.text s) body ending).mentions = [] := by
  rw [Code.mentions_blockOf, h]
  rfl

theorem supportFunction_mentions (signature : String) {body : Code} (h : body.mentions = []) :
    (supportFunction signature body).mentions = [] := by
  simp [supportFunction, text_mentions h, blankLine_mentions]

theorem supportCode_mentions (null : String) : (supportCode null).mentions = [] := by
  have hanchor (c : String) (before inside after : List String) :
      (Code.seq [textLines before, .branchOf (.text c) (textLines inside), textLines after]).mentions =
        [] := by
    simp [Code.mentions_branchOf, textLines_mentions, Cond.symbols]
  unfold supportCode
  rw [Code.mentions_seq]
  simp only [List.flatMap_cons, List.flatMap_nil,
    supportFunction_mentions _ (textLines_mentions _), supportFunction_mentions _ (hanchor _ _ _ _),
    List.append_nil]

theorem errorSinkCode_mentions (sink : Option String) : (errorSinkCode sink).mentions = [] := by
  cases sink <;> rfl

theorem prelude_mentions (ctx : Context) : (prelude ctx).mentions = [] := by
  unfold prelude
  dsimp only
  rw [Code.mentions_seq]
  simp only [List.flatMap_cons, List.flatMap_nil, directives_mentions, blankLine_mentions,
    errorSinkCode_mentions, supportCode_mentions, Code.mentions_ofLines, Line.mentions,
    List.append_nil]

theorem slotBindCode_mentions (null : String) : (slotBindCode null).mentions = [] := by
  unfold slotBindCode
  refine text_mentions ?_ _
  rw [Code.mentions_seq]
  have hclaim (c : String) (inside : List String) :
      (Code.branchOf (.text c) (textLines inside)).mentions = [] := by
    simp [Code.mentions_branchOf, textLines_mentions, Cond.symbols]
  have hsearch (c head : String) (inside after : List String) :
      (Code.branchOf (.text c)
        (.seq [.blockOf (.text head) (textLines inside), textLines after])).mentions = [] := by
    simp [Code.mentions_branchOf, Code.mentions_blockOf, textLines_mentions, Cond.symbols,
      Head.mentions]
  simp only [List.flatMap_cons, List.flatMap_nil, textLines_mentions, hclaim, hsearch,
    List.append_nil]

/-! ## Sections -/

/-- The constructor and the converter of a struct, declared. -/
def prototypeOutline (s : StructBinding) : List Mention :=
  [.declares (.constructor s.native), .declares (.converter s.native)]

theorem prototypesCode_mentions (structs : List StructBinding) :
    (prototypesCode structs).mentions = structs.flatMap prototypeOutline := by
  unfold prototypesCode
  cases structs with
  | nil => rfl
  | cons s rest =>
    rw [if_neg (by simp), Code.mentions_seq]
    simp only [List.flatMap_cons, List.flatMap_nil, sectionBanner_mentions, blankLine_mentions,
      Code.mentions_ofLines, List.nil_append, List.append_nil, List.flatMap_append,
      List.flatMap_assoc]
    rfl

theorem slotArena_mentions (ctx : Context) (slots : List CallbackSlot) :
    (slotArena ctx slots).mentions = slots.map fun s => .defines s.symbol := by
  have hitems : (slots.map fun s => Line.item s.symbol).flatMap Line.mentions =
      slots.map fun s => .defines s.symbol := by
    rw [List.flatMap_map, List.map_eq_flatMap]
    rfl
  unfold slotArena
  cases hslots : slots.isEmpty with
  | true =>
    rw [List.isEmpty_iff.mp hslots]
    rfl
  | false =>
    rw [if_neg (by simp), Code.mentions_seq]
    simp only [List.flatMap_cons, List.flatMap_nil, Code.mentions_ofLines, Code.mentions_blockOf,
      List.flatMap_append, hitems, banner_mentions, text_mentions (textLines_mentions _),
      slotBindCode_mentions, Line.mentions, Head.mentions, List.nil_append, List.append_nil]

/-- The metamethods of a struct, referred to. -/
def metatableOutline (s : StructBinding) : List Mention :=
  [.refers (.indexer s.native), .refers (.newIndexer s.native)] ++
    if s.hasCollector then [.refers (.collector s.native)] else []

theorem metatableLines_mentions (s : StructBinding) :
    (metatableLines s).flatMap Line.mentions = metatableOutline s := by
  unfold metatableLines metatableOutline
  cases s.hasCollector <;> rfl

/-- The function that registers the metatables: there is one if there are structs. -/
def metatablesOutline (structs : List StructBinding) : List Mention :=
  if structs.isEmpty then [] else .defines .metatableRegistrar :: structs.flatMap metatableOutline

theorem metatablesCode_mentions (structs : List StructBinding) :
    (metatablesCode structs).mentions = metatablesOutline structs := by
  have hlines : (structs.flatMap metatableLines).flatMap Line.mentions =
      structs.flatMap metatableOutline := by
    rw [List.flatMap_assoc]
    exact congrArg (structs.flatMap ·) (funext metatableLines_mentions)
  unfold metatablesCode metatablesOutline
  split
  · rfl
  · rw [Code.mentions_seq]
    simp only [List.flatMap_cons, List.flatMap_nil, sectionBanner_mentions, blankLine_mentions,
      Code.mentions_blockOf, Code.mentions_ofLines, hlines, Head.mentions, List.nil_append,
      List.append_nil, List.cons_append]

/-- The symbols in the table of functions. -/
def registered (ctx : Context) (b : Bindings) : List Symbol :=
  b.functions.flatMap (fun f =>
      (ctx.naming.registeredNames f.names.scriptName).map fun _ => .wrapper f.names.cName) ++
    (b.structs.map (fun s => .constructor s.native) ++
      ctx.manifest.output.extraRegistrations.map fun e => .handWritten e.function)

theorem registrationCode_mentions (ctx : Context) (b : Bindings) :
    (registrationCode ctx b).mentions =
      (ctx.manifest.output.extraRegistrations.map fun e => .declares (.handWritten e.function)) ++
        .defines .functionTable :: (registered ctx b).map .refers := by
  have hblank (extras : List ExtraRegistration) :
      (if extras.isEmpty then Code.done else blankLine).mentions = [] := by
    split <;> rfl
  have hextras (extras : List ExtraRegistration) :
      (extras.map fun e => Line.prototype "int" (.handWritten e.function) "lua_State* L").flatMap
        Line.mentions = extras.map fun e => .declares (.handWritten e.function) := by
    rw [List.flatMap_map, List.map_eq_flatMap]
    rfl
  have hentries {α : Type} (as : List α) (name : α → String) (f : α → Symbol) :
      (as.map fun a => Line.registration (name a) (f a)).flatMap Line.mentions =
        (as.map f).map .refers := by
    rw [List.flatMap_map, List.map_map, List.map_eq_flatMap]
    rfl
  have hfunctions : (b.functions.flatMap (functionEntries ctx.naming)).flatMap Line.mentions =
      (b.functions.flatMap fun f => (ctx.naming.registeredNames f.names.scriptName).map fun _ =>
        Symbol.wrapper f.names.cName).map .refers := by
    rw [List.flatMap_assoc, List.map_flatMap]
    exact congrArg (b.functions.flatMap ·) (funext fun f => hentries _ _ _)
  unfold registrationCode
  dsimp only
  rw [Code.mentions_seq]
  simp only [List.flatMap_cons, List.flatMap_nil, sectionBanner_mentions, blankLine_mentions,
    Code.mentions_blockOf, Code.mentions_ofLines, hblank, hextras, List.flatMap_append, hfunctions,
    hentries, Head.mentions, Line.mentions, registered, List.map_append, List.nil_append,
    List.append_nil, List.append_assoc, List.cons_append]

/-- The functions the entry point calls or hands on. -/
def started (b : Bindings) : List Symbol :=
  (if b.structs.isEmpty then [] else [.metatableRegistrar]) ++
    .functionTable :: (b.enums.map (·.registrar) ++ b.consts.map (·.registrar))

theorem entryPointCode_mentions (ctx : Context) (b : Bindings) :
    (entryPointCode ctx b).mentions =
      .defines (.entryPoint ctx.naming.entryPointName) :: (started b).map .refers := by
  have hcalls : (registrarCalls b).flatMap Line.mentions =
      (b.enums.map (·.registrar) ++ b.consts.map (·.registrar)).map .refers := by
    rw [registrarCalls, List.flatMap_map]
    exact List.map_eq_flatMap.symm
  have hmetatables : (metatableCall b).flatMap Line.mentions =
      (if b.structs.isEmpty then [] else [Symbol.metatableRegistrar]).map .refers := by
    unfold metatableCall
    split <;> rfl
  have hmodule : (Api.newlib.on [.symbol .functionTable]).symbols = [.functionTable] := rfl
  have hfuncs : (Api.setfuncs.on [.symbol .functionTable, .number 0]).symbols = [.functionTable] :=
    rfl
  have hplain {f : Api} {i : StackIndex} : (f.on [.at i]).symbols = [] := rfl
  have hnone {f : Api} : (f.on []).symbols = [] := rfl
  have hpop : popOne.mentions = [] := rfl
  unfold entryPointCode started
  dsimp only
  rw [Code.mentions_seq]
  simp only [List.flatMap_cons, List.flatMap_nil, sectionBanner_mentions, List.nil_append,
    List.append_nil]
  split <;>
    simp only [Code.mentions_blockOf, Code.mentions_ofLines, List.flatMap_append, hmetatables,
      hcalls, hmodule, hfuncs, hplain, hnone, hpop, List.flatMap_cons, List.flatMap_nil,
      Line.mentions, Expr.symbols, Head.mentions, List.map_nil, List.map_append, List.map_cons,
      List.nil_append, List.append_nil, List.append_assoc, List.cons_append]

/-! ## The file -/

/-- Everything the file mentions: the sections around the chunks. -/
theorem cFile_mentions (ctx : Context) (slots : List CallbackSlot) (b : Bindings) :
    (cFile ctx slots b).mentions =
      b.structs.flatMap prototypeOutline ++ (slots.map (fun s => .defines s.symbol) ++
        (b.chunks.flatMap Code.mentions ++ (metatablesOutline b.structs ++
          ((registrationCode ctx b).mentions ++ (entryPointCode ctx b).mentions)))) := by
  unfold cFile
  rw [Code.mentions_seq]
  simp only [List.flatMap_cons, List.flatMap_nil, prelude_mentions, prototypesCode_mentions,
    slotArena_mentions, sectionBanner_mentions, Code.mentions_seq, metatablesCode_mentions,
    List.nil_append, List.append_nil]

end LuaGlue
