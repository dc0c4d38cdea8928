import LuaGlue.Proofs.Constants.Values
import LuaGlue.Proofs.Draft.Torn
import LuaGlue.Proofs.Generate.Account
import LuaGlue.Proofs.Generate.Registries

/-!
# The members of enums and constants

The values of a declaration are written by two parts of the generator: the registrar pushes an expression
for each of them, and the stub file has a numeral for each of them, both under the same key. Here both
texts are put together from one list of members (`Declaration.registry`, `Declaration.stub`), and it is
shown that they are what a module has, or that the declaration is left out for the first of its values
that has no expression (`members_written`).

The two are made apart from each other, and only one of them knows about the limits of a word: they
denote the same integer for the values strictly between the least word and the bound of words, and for
no other (`all_ones_differs`).
-/

set_option autoImplicit false

namespace LuaGlue

open Draft

/-! ## Texts -/

/-- A member of an enum or a constant as it is written. -/
structure WrittenMember where
  key : String
  value : Int
  /-- What the registrar pushes. -/
  expression : String
  /-- What the stub file says. -/
  numeral : String

/-- Pushes the expressions and sets them as fields of the table at `target`. -/
def setMembers (target : StackIndex) (members : List WrittenMember) : List Line :=
  members.flatMap fun w =>
    [.call (Api.pushinteger.on [.text w.expression]),
     .call (Api.setfield.on [.at target, .literal w.key])]

/-- The members that a declaration has, by their native names; a struct and a function have none. -/
def Declaration.items : Declaration → List EnumItem
  | .enum e => e.items
  | .consts g => g.items
  | .struct _ | .function _ => []

/-- Whether a declaration is an enum or a group of constants. -/
def Declaration.isConstant : Declaration → Bool
  | .enum _ | .consts _ => true
  | .struct _ | .function _ => false

/-- The key that scripts find a member under. -/
def Declaration.key (n : Naming) : Declaration → String → String
  | .enum e, name => n.memberName e.name name
  | .consts _, name => n.constName name
  | .struct _, name | .function _, name => name

/-- The registrar of an enum or of constants, with what is inside. -/
def Declaration.registry? (n : Naming) (position : Nat) (members : List WrittenMember) :
    Declaration → Option (Symbol × Code)
  | .enum e => some (.enumRegistrar e.name,
      .ofLines (.call (Api.createtable.on [.number 0, .number members.length]) ::
        setMembers .belowTop members ++
        [.call (Api.setfield.on [.at moduleTable, .literal (n.typeName e.name)])]))
  | .consts _ => some (.constRegistrar position, .ofLines (setMembers moduleTable members))
  | .struct _ | .function _ => none

/-- What the stub file says of an enum or of constants. -/
def Declaration.stub (n : Naming) (members : List WrittenMember) : Declaration → String
  | .enum e =>
    stubLine ["---@enum ", n.module, ".", n.typeName e.name] ++
      stubLine [n.module, ".", n.typeName e.name, " = \x7b"] ++
      String.join (members.map fun w => stubLine ["    ", w.key, " = ", w.numeral, ","]) ++ "\x7d\n\n"
  | .consts _ =>
    String.join (members.map fun w => stubLine [n.module, ".", w.key, " = ", w.numeral]) ++ "\n"
  | .struct _ | .function _ => ""

/-! ## Members in a row -/

/-- Why a value has no expression. -/
def EnumItem.fault? (item : EnumItem) : Option Fault :=
  match integerLiteral item with
  | .ok _ => none
  | .error fault => some fault

section

variable {target : StackIndex} {name : String → String} {items : List EnumItem} {s s' : Scratch}

/-- Members are written if all of them have expressions. -/
theorem memberLines_written : ∀ {items : List EnumItem} {members : List ConstMember} {s s' : Scratch}
    {glue : Code}, memberLines target name items s = (.written members glue, s') →
      ∃ written : List WrittenMember,
        written.map (fun w => (w.key, w.value)) = items.map (fun item => (name item.name, item.value)) ∧
        members = written.map (fun w => ⟨w.key, w.value⟩) ∧
        glue = .ofLines (setMembers target written) ∧
        ∀ w ∈ written, cInteger? w.expression = some (asWord w.value) ∧
          w.numeral = toString w.value := by
  intro items
  induction items with
  | nil =>
    intro members s s' glue h
    obtain ⟨rfl, rfl, -⟩ := pure_written.mp h
    exact ⟨[], rfl, rfl, rfl, by simp⟩
  | cons item rest ih =>
    intro members s s' glue h
    obtain ⟨literal, _, _, _, hliteral, hlines, rfl⟩ := bind_written.mp h
    obtain ⟨hexpression, rfl, rfl⟩ := ofExcept_written.mp hliteral
    obtain ⟨_, hmembers, rfl⟩ := lines_bind_written.mp hlines
    obtain ⟨members', _, _, _, hrest, hreturn, rfl⟩ := bind_written.mp hmembers
    obtain ⟨rfl, rfl, -⟩ := pure_written.mp hreturn
    obtain ⟨written, hkeys, rfl, rfl, hwritten⟩ := ih hrest
    refine ⟨⟨name item.name, item.value, literal, toString item.value⟩ :: written, ?_, rfl, ?_, ?_⟩
    · rw [List.map_cons, List.map_cons, hkeys]
    · rw [Code.done_append, Code.append_done, ← Code.ofLines_append]
      rfl
    · exact List.forall_mem_cons.mpr ⟨⟨integerLiteral_denotes hexpression, rfl⟩, hwritten⟩

/-- Members break off at the first one that has no expression. -/
theorem memberLines_fault? :
    (memberLines target name items s).1.fault? = items.findSome? EnumItem.fault? := by
  induction items generalizing s with
  | nil => rfl
  | cons item rest ih =>
    rw [List.findSome?_cons, EnumItem.fault?, memberLines]
    cases hliteral : integerLiteral item with
    | error fault => rfl
    | ok literal =>
      rw [bind_fault?_of_written (ofExcept_written.mpr ⟨rfl, rfl, rfl⟩),
        bind_fault?_of_written (lines_written (u := ()).mpr ⟨rfl, rfl⟩),
        bind_fault?_of_never fun _ _ => rfl]
      exact ih

end

/-! ## Declarations -/

/-- These are the members of a declaration, in its glue and in the stub file `stubs`. -/
structure Declaration.Writes (n : Naming) (position : Nat) (d : Declaration) (glue : Code)
    (stub : String) (written : List WrittenMember) : Prop where
  members : written.map (fun w => (w.key, w.value)) =
    d.items.map fun item => (d.key n item.name, item.value)
  registries : glue.registries = (d.registry? n position written).toList
  stub_eq : stub = d.stub n written
  /-- The expression denotes the value as a script holds it. -/
  expression : ∀ w ∈ written, cInteger? w.expression = some (asWord w.value)
  /-- The numeral denotes that integer too, unless the value is beyond the words or the least of them. -/
  numeral : ∀ w ∈ written, scriptNumber? w.numeral = some (.integer (asWord w.value)) ↔
    -2 ^ 63 < w.value ∧ w.value < 2 ^ 63

theorem scriptNumber?_toString_iff (v : Int) :
    scriptNumber? (toString v) = some (.integer (asWord v)) ↔ -2 ^ 63 < v ∧ v < 2 ^ 63 := by
  rw [numeral_denotes]
  constructor
  · intro h
    by_contra hout
    rw [if_neg hout] at h
    cases h
  · intro h
    rw [if_pos h, asWord_of_isWord (isWord_iff.mpr (by omega))]

section

variable {ctx : Context} {s s' : Scratch} {glue : Code} {position : Nat}

theorem bindEnum_writes {e : EnumDecl} {binding : EnumBinding}
    (h : bindEnum ctx e s = (.written binding glue, s')) :
    ∃ written, (Declaration.enum e).Writes ctx.naming position glue
      (enumStub ctx.naming.module binding) written := by
  obtain ⟨members, _, _, _, hregistrar, hreturn, rfl⟩ := bind_written.mp h
  obtain ⟨rfl, rfl, rfl⟩ := pure_written.mp hreturn
  obtain ⟨inside, hinside, hregistries⟩ := registrar_registries rfl hregistrar
  obtain ⟨_, hmembers, rfl⟩ := line_bind_written.mp hinside
  obtain ⟨members', _, _, _, hitems, hlast, rfl⟩ := bind_written.mp hmembers
  obtain ⟨_, hreturn, rfl⟩ := line_bind_written.mp hlast
  obtain ⟨rfl, rfl, rfl⟩ := pure_written.mp hreturn
  obtain ⟨written, hkeys, rfl, rfl, hwritten⟩ := memberLines_written hitems
  have hlength : written.length = e.items.length := by simpa using congrArg List.length hkeys
  refine ⟨written, hkeys, ?_, ?_, fun w hw => (hwritten w hw).1, fun w hw => ?_⟩
  · rw [Code.append_done, hregistries, Declaration.registry?, hlength, Option.toList_some,
      Code.ofLines_append]
    rfl
  · rw [enumStub, List.map_map, Declaration.stub]
    congr 3
    exact List.map_congr_left fun w hw => by rw [Function.comp_apply, (hwritten w hw).2]
  · rw [(hwritten w hw).2, scriptNumber?_toString_iff]

theorem bindConsts_writes {g : ConstGroup} {binding : ConstBinding}
    (h : bindConsts ctx g position s = (.written binding glue, s')) :
    ∃ written, (Declaration.consts g).Writes ctx.naming position glue
      (constStub ctx.naming.module binding) written := by
  obtain ⟨members, _, _, _, hregistrar, hreturn, rfl⟩ := bind_written.mp h
  obtain ⟨rfl, rfl, rfl⟩ := pure_written.mp hreturn
  obtain ⟨inside, hitems, hregistries⟩ := registrar_registries rfl hregistrar
  obtain ⟨written, hkeys, rfl, rfl, hwritten⟩ := memberLines_written hitems
  refine ⟨written, hkeys, ?_, ?_, fun w hw => (hwritten w hw).1, fun w hw => ?_⟩
  · rw [Code.append_done, hregistries]
    rfl
  · rw [constStub, List.map_map, Declaration.stub]
    congr 2
    exact List.map_congr_left fun w hw => by rw [Function.comp_apply, (hwritten w hw).2]
  · rw [(hwritten w hw).2, scriptNumber?_toString_iff]

theorem registrar_fault? {α : Type} (f : Symbol) (body : Draft α) :
    (registrar f body s).1.fault? = (body s).1.fault? := by
  unfold registrar
  rw [bind_fault?_of_never fun _ _ => rfl, block_fault?]

/-- An enum fails as the first of its members does that has no expression. -/
theorem bindEnum_fault? (ctx : Context) (e : EnumDecl) :
    (bindEnum ctx e s).1.fault? = e.items.findSome? EnumItem.fault? := by
  unfold bindEnum
  rw [bind_fault?_of_never fun _ _ => rfl, registrar_fault?,
    bind_fault?_of_written (line_written (u := ()).mpr ⟨rfl, rfl⟩), bind_fault?_of_never fun _ _ => rfl,
    memberLines_fault?]

theorem bindConsts_fault? (ctx : Context) (g : ConstGroup) (position : Nat) :
    (bindConsts ctx g position s).1.fault? = g.items.findSome? EnumItem.fault? := by
  unfold bindConsts
  rw [bind_fault?_of_never fun _ _ => rfl, registrar_fault?, memberLines_fault?]

end

/-! ## A module -/

/-- A value between the least word and the bound of unsigned words. -/
def EnumItem.Fits (item : EnumItem) : Prop := -2 ^ 63 ≤ item.value ∧ item.value < 2 ^ 64

instance (item : EnumItem) : Decidable item.Fits := inferInstanceAs (Decidable (_ ∧ _))

theorem EnumItem.fault?_eq_some_iff {item : EnumItem} {fault : Fault} :
    item.fault? = some fault ↔ ¬ item.Fits ∧ fault = .enumRange item.name item.value := by
  have hiff : integerLiteral item = .error fault ↔ _ := integerLiteral_eq_error_iff
  have hfits : ¬ item.Fits ↔ item.value < -2 ^ 63 ∨ 2 ^ 64 ≤ item.value := by
    unfold EnumItem.Fits
    omega
  rw [hfits, ← hiff, EnumItem.fault?]
  cases integerLiteral item <;> simp

theorem EnumItem.fault?_eq_none_iff {item : EnumItem} : item.fault? = none ↔ item.Fits := by
  constructor
  · intro hnone
    by_contra hfits
    rw [EnumItem.fault?_eq_some_iff.mpr ⟨hfits, rfl⟩] at hnone
    cases hnone
  · intro hfits
    refine Option.eq_none_iff_forall_ne_some.mpr fun fault hsome => ?_
    exact (EnumItem.fault?_eq_some_iff.mp hsome).1 hfits

theorem findSome?_fault?_eq_none {items : List EnumItem} :
    items.findSome? EnumItem.fault? = none ↔ ∀ item ∈ items, item.Fits := by
  simp only [List.findSome?_eq_none_iff, EnumItem.fault?_eq_none_iff]

/-- The first value that does not fit is the one that is reported. -/
theorem findSome?_fault?_eq_some {items : List EnumItem} {fault : Fault}
    (h : items.findSome? EnumItem.fault? = some fault) :
    ∃ before item after, items = before ++ item :: after ∧ (∀ item' ∈ before, item'.Fits) ∧
      ¬ item.Fits ∧ fault = .enumRange item.name item.value := by
  obtain ⟨before, item, after, hitems, hfault, hbefore⟩ := List.findSome?_eq_some_iff.mp h
  obtain ⟨hunfit, rfl⟩ := EnumItem.fault?_eq_some_iff.mp hfault
  exact ⟨before, item, after, hitems,
    fun item' hitem' => EnumItem.fault?_eq_none_iff.mp (hbefore item' hitem'), hunfit, rfl⟩

/-- A text is a part of another one. -/
def IsPartOf (part whole : String) : Prop := ∃ before after, whole = before ++ part ++ after

namespace IsPartOf

variable {part whole : String}

theorem append_left (h : IsPartOf part whole) (front : String) : IsPartOf part (front ++ whole) := by
  obtain ⟨before, after, rfl⟩ := h
  exact ⟨front ++ before, after, by simp only [String.append_assoc]⟩

theorem append_right (h : IsPartOf part whole) (back : String) : IsPartOf part (whole ++ back) := by
  obtain ⟨before, after, rfl⟩ := h
  exact ⟨before, after ++ back, by simp only [String.append_assoc]⟩

theorem join {texts : List String} (h : part ∈ texts) : IsPartOf part (String.join texts) := by
  obtain ⟨front, back, rfl⟩ := List.append_of_mem h
  exact ⟨String.join front, String.join back, by
    rw [String.join_append, String.join_cons, String.append_assoc]⟩

end IsPartOf

theorem enumStub_isPartOf (n : Naming) {b : Bindings} {binding : EnumBinding} (h : binding ∈ b.enums) :
    IsPartOf (enumStub n.module binding) (renderStubs n b) :=
  ((((IsPartOf.join (List.mem_map_of_mem h)).append_left _).append_right _).append_right _).append_right _

theorem constStub_isPartOf (n : Naming) {b : Bindings} {binding : ConstBinding} (h : binding ∈ b.consts) :
    IsPartOf (constStub n.module binding) (renderStubs n b) :=
  (((IsPartOf.join (List.mem_map_of_mem h)).append_left _).append_right _).append_right _

/-- A run's stub file is made from the bindings of the module. -/
theorem generated_stubs (i : Interface) (m : Manifest) :
    (generate i m).stubs = renderStubs (m.naming.fillFrom i) (moduleBindings i m).2 := by
  rw [← (moduleContext_eq i m).2]
  rfl

/-- What is bound for an enum or for constants is bound with all members. -/
theorem ModuleEntry.Of.writes {ctx : Context} {plan : OverloadPlan} {position : Nat} {d : Declaration}
    {entry : ModuleEntry} {b : Bindings} {entries : List ModuleEntry} (hof : entry.Of ctx plan position d)
    (hconstant : d.isConstant = true) (haccounts : b.Accounts entries) (hentry : entry ∈ entries)
    (hbound : entry.problem? = none) :
    (∀ item ∈ d.items, item.Fits) ∧ ∃ stub written, IsPartOf stub (renderStubs ctx.naming b) ∧
      d.Writes ctx.naming position entry.chunk stub written := by
  cases hof with
  | function | struct => cases hconstant
  | leftOut => cases hbound
  | @enum e binding glue s s' hwritten =>
    have hmem : binding ∈ b.enums := haccounts.enums ▸ List.mem_filterMap.mpr ⟨_, hentry, rfl⟩
    have hfault := bindEnum_fault? (s := s) ctx e
    rw [hwritten] at hfault
    obtain ⟨written, hwrites⟩ := bindEnum_writes hwritten
    exact ⟨findSome?_fault?_eq_none.mp hfault.symm, _, written, enumStub_isPartOf _ hmem, hwrites⟩
  | @consts g binding glue s s' hwritten =>
    have hmem : binding ∈ b.consts := haccounts.consts ▸ List.mem_filterMap.mpr ⟨_, hentry, rfl⟩
    have hfault := bindConsts_fault? (s := s) ctx g position
    rw [hwritten] at hfault
    obtain ⟨written, hwrites⟩ := bindConsts_writes hwritten
    exact ⟨findSome?_fault?_eq_none.mp hfault.symm, _, written, constStub_isPartOf _ hmem, hwrites⟩

/-- An enum or constants are left out for a value that does not fit. -/
theorem ModuleEntry.Reports.unfit {ctx : Context} {position : Nat} {d : Declaration} {p : Problem}
    (hreports : (leftOut p).Reports ctx position d) (hconstant : d.isConstant = true) :
    ∃ before item after, d.items = before ++ item :: after ∧ (∀ item' ∈ before, item'.Fits) ∧
      ¬ item.Fits ∧ p.fault = .enumRange item.name item.value := by
  cases d with
  | function f => cases hconstant
  | struct s => cases hconstant
  | enum e =>
    obtain ⟨s, hfault⟩ := hreports
    rw [bindEnum_fault?] at hfault
    exact findSome?_fault?_eq_some hfault
  | consts g =>
    obtain ⟨s, hfault⟩ := hreports
    rw [bindConsts_fault?] at hfault
    exact findSome?_fault?_eq_some hfault

/-- **How the members of an enum or of constants are written**: with an expression and a numeral each, or
the declaration is left out for the first of them that has no expression. -/
theorem members_written {overloads : Bool} {text : String} {m : Manifest} {loaded i : Interface}
    (hparse : Interface.parse overloads text = .ok loaded)
    (hattach : m.attachOwnedBuffers loaded = .ok i) :
    ∃ account, IsAccount i m account ∧
      account.map (·.1) = enteredPositions m (structMemo i m) i.decls i.decls.length ∧
      ∀ position entry d, (position, entry) ∈ account → i.decls[position]? = some d →
        d.isConstant = true →
        ((∀ item ∈ d.items, item.Fits) ∧ ∃ stub written, IsPartOf stub (generate i m).stubs ∧
          d.Writes (m.naming.fillFrom i) position entry.chunk stub written) ∨
        ∃ before item after, d.items = before ++ item :: after ∧ (∀ item' ∈ before, item'.Fits) ∧
          ¬ item.Fits ∧ entry = .leftOut ⟨d.label position, .enumRange item.name item.value⟩ := by
  obtain ⟨account, haccount, hpositions, hreports⟩ :=
    reporting_account_exists (attached_identities hparse hattach) (m := m)
  refine ⟨account, haccount, hpositions, fun position entry d he hd hconstant => ?_⟩
  obtain ⟨d', hd', hof⟩ := haccount.of _ he
  obtain ⟨d'', hd'', hreport⟩ := hreports _ he
  obtain rfl := Option.some.inj (hd.symm.trans hd')
  obtain rfl := Option.some.inj (hd.symm.trans hd'')
  change entry.Of _ _ position d at hof
  by_cases hbound : entry.problem? = none
  · refine .inl ?_
    rw [generated_stubs, ← (moduleContext_eq i m).2]
    exact hof.writes hconstant haccount.accounts (List.mem_map_of_mem (f := (·.2)) he) hbound
  · refine .inr ?_
    cases hof with
    | leftOut fault =>
      obtain ⟨before, item, after, hitems, hbefore, hunfit, rfl⟩ := hreport.unfit hconstant
      exact ⟨before, item, after, hitems, hbefore, hunfit, rfl⟩
    | _ => exact absurd rfl hbound

/-- In the medley the enum is written, and the constant that is too large is left out. -/
theorem members_written_medley :
    (Interface.parse false medleyText = .ok medley ∧
        ({} : Manifest).attachOwnedBuffers medley = .ok medley) ∧
      ∃ account, IsAccount medley {} account ∧
        (∃ entry stub written, (3, entry) ∈ account ∧ IsPartOf stub (generate medley {}).stubs ∧
          (Declaration.enum ⟨"E", [⟨"A", 0⟩]⟩).Writes (({} : Manifest).naming.fillFrom medley) 3
            entry.chunk stub written) ∧
        (5, .leftOut ⟨"consts#5", .enumRange "C" 18446744073709551616⟩) ∈ account := by
  obtain ⟨account, haccount, hpositions, hwritten⟩ :=
    members_written medley_parsed (m := {}) (i := medley) rfl
  have hentered : enteredPositions {} (structMemo medley {}) medley.decls medley.decls.length =
      [0, 2, 3, 4, 5] := by
    decide +kernel
  rw [hentered] at hpositions
  have hentry (position : Nat) (h : position ∈ [0, 2, 3, 4, 5]) : ∃ entry, (position, entry) ∈ account := by
    obtain ⟨⟨_, entry⟩, he, rfl⟩ := List.mem_map.mp (hpositions ▸ h)
    exact ⟨entry, he⟩
  obtain ⟨enum, henum⟩ := hentry 3 (by decide)
  obtain ⟨consts, hconsts⟩ := hentry 5 (by decide)
  refine ⟨⟨medley_parsed, rfl⟩, account, haccount, ?_, ?_⟩
  · rcases hwritten 3 enum _ henum rfl rfl with ⟨-, stub, written, hstub, hwrites⟩ | hunfit
    · exact ⟨enum, stub, written, henum, hstub, hwrites⟩
    · obtain ⟨before, item, after, hitems, -, hunfit, -⟩ := hunfit
      have hitem : item ∈ (Declaration.enum ⟨"E", [⟨"A", 0⟩]⟩).items := hitems ▸ by simp
      obtain rfl := List.mem_singleton.mp hitem
      exact absurd (by decide) hunfit
  · rcases hwritten 5 consts _ hconsts rfl rfl with ⟨hfits, -⟩ | hunfit
    · exact absurd (hfits _ (List.mem_singleton_self _)) (by decide)
    · obtain ⟨before, item, after, hitems, -, -, rfl⟩ := hunfit
      have hitem : item ∈ (Declaration.consts ⟨[⟨"C", 18446744073709551616⟩]⟩).items :=
        hitems ▸ by simp
      obtain rfl := List.mem_singleton.mp hitem
      exact hconsts

/-- An enum of the least word and of the word whose bits are all set. -/
def limitsText : String :=
  "[[\"enum\",\"Limits\",null,[],[],
    [[\"LEAST\",\"-9223372036854775808\"],[\"ALL\",\"18446744073709551615\"]]]]"

def limits : Interface where
  decls := [.enum ⟨"Limits", [⟨"LEAST", -9223372036854775808⟩, ⟨"ALL", 18446744073709551615⟩]⟩]

def limitsManifest : Manifest where
  naming := { module := "lib" }

/-- Both values have an expression and a numeral, and the numerals denote floats. -/
theorem all_ones_differs :
    (Interface.parse false limitsText = .ok limits ∧
        limitsManifest.attachOwnedBuffers limits = .ok limits) ∧
      (generate limits limitsManifest).problems = [] ∧
      (moduleBindings limits limitsManifest).2.chunks.map (fun c => c.registries.map (·.2.lines)) =
        [[[.call (Api.createtable.on [.number 0, .number 2]),
          .call (Api.pushinteger.on [.text "(-9223372036854775807LL - 1)"]),
          .call (Api.setfield.on [.at .belowTop, .literal "LEAST"]),
          .call (Api.pushinteger.on [.text "(lua_Integer)18446744073709551615ULL"]),
          .call (Api.setfield.on [.at .belowTop, .literal "ALL"]),
          .call (Api.setfield.on [.at moduleTable, .literal "Limits"])]]] ∧
      (generate limits limitsManifest).stubs =
        "---@meta\n\n---@class lib\nlocal lib = \x7b\x7d\n\n" ++
          "---@enum lib.Limits\nlib.Limits = \x7b\n    LEAST = -9223372036854775808,\n" ++
          "    ALL = 18446744073709551615,\n\x7d\n\nreturn lib\n" ∧
      (cInteger? "(-9223372036854775807LL - 1)" = some (-9223372036854775808) ∧
        scriptNumber? "-9223372036854775808" = some .float) ∧
      cInteger? "(lua_Integer)18446744073709551615ULL" = some (-1) ∧
        scriptNumber? "18446744073709551615" = some .float :=
  ⟨⟨by decide +kernel, rfl⟩, by decide +kernel, by decide +kernel, by decide +kernel,
    ⟨by decide +kernel, by decide +kernel⟩, by decide +kernel, by decide +kernel⟩

end LuaGlue
