import LuaGlue.Generate
import LuaGlue.Proofs.Draft.Written
import LuaGlue.Proofs.Generate.File

/-!
# Where a file claims names

Scripts find things by the keys of the module's table, by the keys of the tables of enums, and by the
names of metatables. A file claims them in its *registries*: the table of functions, the function that
registers the metatables, and the registrars of enums and constants. What is claimed is read off their
lines (`Code.claims`, `Code.memberKeys`), and the claims of a whole file are those of its parts in a row.
-/

set_option autoImplicit false

namespace LuaGlue

open Draft

/-! ## Registries -/

/-- The symbol that a block defines. -/
def Head.defined? : Head → Option Symbol
  | .define _ f _ | .table _ f _ => some f
  | .bare | .count .. | .text _ => none

/-- Whether what is defined claims names for scripts. -/
def Symbol.isRegistry : Symbol → Bool
  | .enumRegistrar _ | .constRegistrar _ | .metatableRegistrar | .functionTable => true
  | _ => false

/-- The symbol of a registry, if a block is one. -/
def Head.registrySymbol? (head : Head) : Option Symbol := head.defined?.filter Symbol.isRegistry

namespace Code

/-- The registries of a text, each with what is inside. -/
def registries : Code → List (Symbol × Code)
  | done => []
  | line _ next => next.registries
  | block head body _ next => (head.registrySymbol?.map fun f => (f, body)).toList ++ next.registries
  | branch _ _ _ next => next.registries

/-- The lines of a text, blocks and branches left out. -/
def lines : Code → List Line
  | done => []
  | line l next => l :: next.lines
  | block _ _ _ next => next.lines
  | branch _ _ _ next => next.lines

theorem registries_append (a b : Code) : (a ++ b).registries = a.registries ++ b.registries := by
  induction a with
  | done => rfl
  | line l next ih => simp [registries, ih]
  | block head body ending next _ ih => simp [registries, ih]
  | branch c yes no next _ _ ih => simp [registries, ih]

theorem registries_seq (cs : List Code) : (seq cs).registries = cs.flatMap registries := by
  induction cs with
  | nil => rfl
  | cons c rest ih => rw [seq, registries_append, ih, List.flatMap_cons]

theorem registries_blockOf (head : Head) (body : Code) (ending : Ending) :
    (blockOf head body ending).registries = (head.registrySymbol?.map fun f => (f, body)).toList :=
  List.append_nil _

@[simp] theorem registries_ofLines (ls : List Line) : (ofLines ls).registries = [] := by
  induction ls with
  | nil => rfl
  | cons l rest ih => rw [ofLines, registries, ih]

theorem lines_append (a b : Code) : (a ++ b).lines = a.lines ++ b.lines := by
  induction a with
  | done => rfl
  | line l next ih => simp [lines, ih]
  | block head body ending next _ ih => simp [lines, ih]
  | branch c yes no next _ _ ih => simp [lines, ih]

@[simp] theorem lines_ofLines (ls : List Line) : (ofLines ls).lines = ls := by
  induction ls with
  | nil => rfl
  | cons l rest ih => rw [ofLines, lines, ih]

/-- A registry is defined by the text. -/
theorem defines_of_mem_registries {code body : Code} {f : Symbol} (h : (f, body) ∈ code.registries) :
    .defines f ∈ code.mentions ∧ f.isRegistry = true := by
  induction code with
  | done => exact absurd h List.not_mem_nil
  | line l next ih =>
    obtain ⟨hdefines, hregistry⟩ := ih h
    exact ⟨List.mem_append_right _ hdefines, hregistry⟩
  | block head inside ending next _ ih =>
    rw [mentions_block]
    rcases List.mem_append.mp h with h | h
    · obtain ⟨f', hf', heq⟩ := Option.map_eq_some_iff.mp (Option.mem_toList.mp h)
      cases heq
      obtain ⟨hdefined, hregistry⟩ := Option.filter_eq_some_iff.mp hf'
      refine ⟨List.mem_append_left _ ?_, hregistry⟩
      cases head <;> cases hdefined <;> exact List.mem_singleton.mpr rfl
    · obtain ⟨hdefines, hregistry⟩ := ih h
      exact ⟨List.mem_append_right _ (List.mem_append_right _ hdefines), hregistry⟩
  | branch c yes no next _ _ ih =>
    obtain ⟨hdefines, hregistry⟩ := ih h
    refine ⟨?_, hregistry⟩
    simp only [mentions, List.mem_append]
    exact .inr (.inr (.inr hdefines))

theorem registries_eq_nil {code : Code}
    (h : ∀ f, .defines f ∈ code.mentions → f.isRegistry = false) : code.registries = [] := by
  refine List.eq_nil_iff_forall_not_mem.mpr fun ⟨f, body⟩ hmem => ?_
  obtain ⟨hdefines, hregistry⟩ := defines_of_mem_registries hmem
  rw [h f hdefines] at hregistry
  cases hregistry

end Code

/-! ## Claims -/

/-- The key of the module's table that a line writes. -/
def Line.moduleKey? : Line → Option String
  | .registration name _ => some name
  | .call ⟨.api .setfield, [.state, .at i, .literal key]⟩ => if i = moduleTable then some key else none
  | _ => none

/-- The key that a line writes into the table it has just made. -/
def Line.memberKey? : Line → Option String
  | .call ⟨.api .setfield, [.state, .at .belowTop, .literal key]⟩ => some key
  | _ => none

/-- The metatable that a line makes. -/
def Line.metatable? : Line → Option String
  | .call ⟨.api .newmetatable, [.state, .literal name]⟩ => some name
  | _ => none

namespace Code

/-- What the lines of the registries claim. -/
def claims (claim : Line → Option String) (code : Code) : List String :=
  code.registries.flatMap fun r => r.2.lines.filterMap claim

/-- The keys that are written into the module's table. -/
def moduleKeys (code : Code) : List String := code.claims Line.moduleKey?

/-- The metatables that are made. -/
def metatables (code : Code) : List String := code.claims Line.metatable?

/-- The native names of the enums, each with the keys of its table. -/
def memberKeys (code : Code) : List (String × List String) :=
  code.registries.filterMap fun
    | (.enumRegistrar e, body) => some (e, body.lines.filterMap Line.memberKey?)
    | _ => none

theorem claims_append (claim : Line → Option String) (a b : Code) :
    (a ++ b).claims claim = a.claims claim ++ b.claims claim := by
  rw [claims, registries_append, List.flatMap_append]
  rfl

theorem claims_seq (claim : Line → Option String) (cs : List Code) :
    (seq cs).claims claim = cs.flatMap (claims claim) := by
  induction cs with
  | nil => rfl
  | cons c rest ih => rw [seq, claims_append, ih, List.flatMap_cons]

theorem claims_of_no_registries {code : Code} (h : code.registries = [])
    (claim : Line → Option String) : code.claims claim = [] := by
  rw [claims, h]
  rfl

/-- What is claimed in a registry that stands alone. -/
theorem claims_blockOf {head : Head} {f : Symbol} (hf : head.registrySymbol? = some f)
    (claim : Line → Option String) (body : Code) (ending : Ending) :
    (blockOf head body ending).claims claim = body.lines.filterMap claim := by
  rw [claims, registries_blockOf, hf]
  exact List.append_nil _

theorem claims_ofLines (claim : Line → Option String) (ls : List Line) :
    (ofLines ls).claims claim = [] :=
  claims_of_no_registries (registries_ofLines ls) claim

theorem memberKeys_of_no_enums {code : Code}
    (h : ∀ e, .defines (.enumRegistrar e) ∉ code.mentions) : code.memberKeys = [] := by
  refine List.filterMap_eq_nil_iff.mpr fun ⟨f, body⟩ hmem => ?_
  have hdefines := (defines_of_mem_registries hmem).1
  cases f with
  | enumRegistrar e => exact absurd hdefines (h e)
  | _ => rfl

theorem memberKeys_of_no_registries {code : Code} (h : code.registries = []) :
    code.memberKeys = [] := by
  rw [memberKeys, h]
  rfl

end Code

/-! ## Registrars -/

section

variable {ctx : Context} {s s' : Scratch} {glue : Code}

/-- Members are written one after another, each under its key in the table at `target`. -/
theorem memberLines_claims {target : StackIndex} {name : String → String}
    (claim : Line → Option String)
    (hclaim : ∀ literal, claim (.call (Api.pushinteger.on [.text literal])) = none) :
    ∀ {items : List EnumItem} {members : List ConstMember} {s s' : Scratch} {glue : Code},
      memberLines target name items s = (.written members glue, s') →
        members = items.map (fun item => ⟨name item.name, item.value⟩) ∧
        glue.registries = [] ∧ glue.lines.filterMap claim = items.filterMap fun item =>
          claim (.call (Api.setfield.on [.at target, .literal (name item.name)])) := by
  intro items
  induction items with
  | nil =>
    intro members s s' glue h
    obtain ⟨rfl, rfl, -⟩ := pure_written.mp h
    exact ⟨rfl, rfl, rfl⟩
  | cons item rest ih =>
    intro members s s' glue h
    obtain ⟨literal, _, _, _, hliteral, hlines, rfl⟩ := bind_written.mp h
    obtain ⟨-, rfl, rfl⟩ := ofExcept_written.mp hliteral
    obtain ⟨_, hmembers, rfl⟩ := lines_bind_written.mp hlines
    obtain ⟨members', _, _, _, hrest, hreturn, rfl⟩ := bind_written.mp hmembers
    obtain ⟨rfl, rfl, -⟩ := pure_written.mp hreturn
    obtain ⟨hmembers', hregistries, hkeys⟩ := ih hrest
    refine ⟨by rw [hmembers', List.map_cons], ?_, ?_⟩
    · rw [Code.done_append, Code.registries_append, Code.registries_append, hregistries]
      rfl
    · rw [Code.done_append, Code.append_done, Code.lines_append, Code.lines_ofLines,
        List.filterMap_append, hkeys, List.filterMap_cons_none (hclaim literal),
        List.filterMap_cons, List.filterMap_nil, List.filterMap_cons]
      cases claim (.call (Api.setfield.on [.at target, .literal (name item.name)])) <;> rfl

/-- A registrar is one registry. -/
theorem registrar_registries {α : Type} {f : Symbol} {body : Draft α} {a : α}
    (hf : f.isRegistry = true) (h : registrar f body s = (.written a glue, s')) :
    ∃ inside, body s = (.written a inside, s') ∧ glue.registries = [(f, inside)] := by
  obtain ⟨_, _, _, _, hblock, hrest, rfl⟩ := bind_written.mp h
  obtain ⟨_, hreturn, rfl⟩ := line_bind_written.mp hrest
  obtain ⟨rfl, rfl, rfl⟩ := pure_written.mp hreturn
  obtain ⟨inside, hinside, rfl⟩ := block_written.mp hblock
  refine ⟨inside, hinside, ?_⟩
  simp [Code.registries, Head.registrySymbol?, Head.defined?, hf]

/-- What is claimed between a line that claims nothing and a last line. -/
theorem lines_between {first last : Line} {inner : Code} (claim : Line → Option String)
    (hfirst : claim first = none) :
    (Code.line first (inner ++ .line last .done)).lines.filterMap claim =
      inner.lines.filterMap claim ++ (claim last).toList := by
  rw [Code.lines, Code.lines_append, List.filterMap_cons_none hfirst, List.filterMap_append]
  rfl

theorem memberKeys_of_registry {enum : String} {inside : Code}
    (h : glue.registries = [(.enumRegistrar enum, inside)]) :
    glue.memberKeys = [(enum, inside.lines.filterMap Line.memberKey?)] := by
  rw [Code.memberKeys, h]
  rfl

theorem claims_of_registry {f : Symbol} {inside : Code} (h : glue.registries = [(f, inside)])
    (claim : Line → Option String) : glue.claims claim = inside.lines.filterMap claim := by
  rw [Code.claims, h, List.flatMap_singleton]

/-- The registrar of an enum claims the enum's name in the module, and in the enum's own table the
names of its members. -/
theorem bindEnum_claims {e : EnumDecl} {binding : EnumBinding}
    (h : bindEnum ctx e s = (.written binding glue, s')) :
    binding.native = e.name ∧
      binding.members = e.items.map (fun item => ⟨ctx.naming.memberName e.name item.name, item.value⟩) ∧
      glue.moduleKeys = [ctx.naming.typeName e.name] ∧ glue.metatables = [] ∧
      glue.memberKeys = [(e.name, e.items.map fun item => ctx.naming.memberName e.name item.name)] := by
  obtain ⟨members, _, _, _, hregistrar, hreturn, rfl⟩ := bind_written.mp h
  obtain ⟨rfl, rfl, rfl⟩ := pure_written.mp hreturn
  obtain ⟨inside, hinside, hregistries⟩ := registrar_registries rfl hregistrar
  obtain ⟨_, hmembers, rfl⟩ := line_bind_written.mp hinside
  obtain ⟨members', _, _, _, hitems, hlast, rfl⟩ := bind_written.mp hmembers
  obtain ⟨_, hreturn, rfl⟩ := line_bind_written.mp hlast
  obtain ⟨rfl, rfl, rfl⟩ := pure_written.mp hreturn
  obtain ⟨hmembers, -, hmodule⟩ := memberLines_claims Line.moduleKey? (fun _ => rfl) hitems
  obtain ⟨-, -, hmetatable⟩ := memberLines_claims Line.metatable? (fun _ => rfl) hitems
  obtain ⟨-, -, hmember⟩ := memberLines_claims Line.memberKey? (fun _ => rfl) hitems
  rw [Code.append_done]
  refine ⟨rfl, hmembers, ?_, ?_, ?_⟩
  · rw [Code.moduleKeys, claims_of_registry hregistries, lines_between _ rfl, hmodule]
    simp [Line.moduleKey?, Api.on, moduleTable]
  · rw [Code.metatables, claims_of_registry hregistries, lines_between _ rfl, hmetatable]
    simp [Line.metatable?, Api.on]
  · rw [memberKeys_of_registry hregistries, lines_between _ rfl, hmember]
    simp [Line.memberKey?, Api.on, moduleTable]

/-- The registrar of constants claims their names in the module. -/
theorem bindConsts_claims {g : ConstGroup} {position : Nat} {binding : ConstBinding}
    (h : bindConsts ctx g position s = (.written binding glue, s')) :
    binding.members = g.items.map (fun item => ⟨ctx.naming.constName item.name, item.value⟩) ∧
      glue.moduleKeys = g.items.map (fun item => ctx.naming.constName item.name) ∧
      glue.metatables = [] ∧ glue.memberKeys = [] := by
  obtain ⟨members, _, _, _, hregistrar, hreturn, rfl⟩ := bind_written.mp h
  obtain ⟨rfl, rfl, rfl⟩ := pure_written.mp hreturn
  obtain ⟨inside, hitems, hregistries⟩ := registrar_registries rfl hregistrar
  obtain ⟨rfl, -, hmodule⟩ := memberLines_claims Line.moduleKey? (fun _ => rfl) hitems
  obtain ⟨-, -, hmetatable⟩ := memberLines_claims Line.metatable? (fun _ => rfl) hitems
  rw [Code.append_done]
  refine ⟨rfl, ?_, ?_, ?_⟩
  · rw [Code.moduleKeys, claims_of_registry hregistries, hmodule]
    simp [Line.moduleKey?, Api.on]
  · rw [Code.metatables, claims_of_registry hregistries, hmetatable]
    simp [Line.metatable?, Api.on]
  · rw [Code.memberKeys, hregistries]
    rfl

end

end LuaGlue
