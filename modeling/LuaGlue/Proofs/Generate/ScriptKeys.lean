import LuaGlue.Proofs.Generate.Account
import LuaGlue.Proofs.Generate.Registries
import LuaGlue.Proofs.Naming.Letters
import Mathlib.Data.List.Perm.Basic

/-!
# When scripts can tell everything apart

A file claims the names of its functions, types and constants in the module's table, a metatable for
every struct, and the names of an enum's members in the enum's table. Functions keep out of each other's
way, since the plan sees to that, and out of that of types and constants, since their names have no
capitals. Types, constants and members are compared with nothing: what they are made from may differ and
their names be the same (`claims_once_iff`), and then one replaces the other (`metatable_shared`).
-/

set_option autoImplicit false

namespace LuaGlue

open Draft

/-! ## What bindings ask for -/

/-- The names that the structs and the enums of a module ask for. -/
def Bindings.typeNames (n : Naming) (b : Bindings) : List String :=
  (b.structs.map (·.native) ++ b.enums.map (·.native)).map n.typeName

/-- The names that the constants of a module ask for. -/
def Bindings.constNames (b : Bindings) : List String := b.consts.flatMap fun c => c.members.map (·.name)

/-- The names that the functions of a module ask for, aliases of reserved words included. -/
def Bindings.functionKeys (n : Naming) (b : Bindings) : List String :=
  b.functions.flatMap fun f => n.registeredNames f.names.scriptName

/-! ## The registries of a file -/

theorem Code.Outlined.registries_eq_nil {known : String → Prop} {code : Code} {ms : List Mention}
    (h : code.Outlined known ms)
    (hms : ∀ f ∈ ms.filterMap Mention.defined?, f.isRegistry = false) : code.registries = [] := by
  refine Code.registries_eq_nil fun f hf => hms f ?_
  rw [← h.defined_eq]
  exact mem_filterMap_defined.mpr hf

theorem structDefined_isRegistry {struct : String} {as : List Accessor} {x : Symbol}
    (hx : x ∈ structDefined struct as) : x.isRegistry = false := by
  rcases mem_structDefined.mp hx with ⟨a, -, -, h⟩ | ⟨a, -, h⟩ | h
  · rcases mem_poolDefined.mp h with rfl | ⟨entry, -, rfl⟩ | rfl | rfl <;> rfl
  · rcases mem_accessorDefined.mp h with ⟨-, rfl⟩ | ⟨-, rfl⟩ <;> rfl
  · rcases mem_wholeDefined.mp h with rfl | rfl | rfl | rfl | ⟨-, rfl⟩ <;> rfl

section

variable (ctx : Context) (slots : List CallbackSlot) (b : Bindings)

/-- The registries of a file are those of its chunks and of two sections behind them. -/
theorem cFile_registries : (cFile ctx slots b).registries =
    b.chunks.flatMap Code.registries ++
      ((metatablesCode b.structs).registries ++ (registrationCode ctx b).registries) := by
  have hprelude : (prelude ctx).registries = [] :=
    Code.registries_eq_nil fun f hf => by simp [prelude_mentions] at hf
  have hprototypes : (prototypesCode b.structs).registries = [] :=
    Code.registries_eq_nil fun f hf => by
      simp [prototypesCode_mentions, prototypeOutline] at hf
  have harena : (slotArena ctx slots).registries = [] :=
    Code.registries_eq_nil fun f hf => by
      rw [slotArena_mentions] at hf
      obtain ⟨slot, -, heq⟩ := List.mem_map.mp hf
      cases heq
      rfl
  have hentry : (entryPointCode ctx b).registries = [] :=
    Code.registries_eq_nil fun f hf => by
      rw [entryPointCode_mentions] at hf
      rcases List.mem_cons.mp hf with heq | hf
      · cases heq
        rfl
      · simp at hf
  have hbanner : (sectionBanner "Bindings").registries = [] := rfl
  rw [cFile, Code.registries_seq]
  simp only [List.flatMap_cons, List.flatMap_nil, hprelude, hprototypes, harena, hentry, hbanner,
    Code.registries_seq, List.nil_append, List.append_nil]

theorem cFile_claims (claim : Line → Option String) : (cFile ctx slots b).claims claim =
    b.chunks.flatMap (Code.claims claim) ++
      ((metatablesCode b.structs).claims claim ++ (registrationCode ctx b).claims claim) := by
  rw [Code.claims, cFile_registries, List.flatMap_append, List.flatMap_append, List.flatMap_assoc]
  rfl

theorem cFile_memberKeys : (cFile ctx slots b).memberKeys =
    b.chunks.flatMap Code.memberKeys ++
      ((metatablesCode b.structs).memberKeys ++ (registrationCode ctx b).memberKeys) := by
  rw [Code.memberKeys, cFile_registries, List.filterMap_append, List.filterMap_append,
    List.filterMap_flatMap]
  rfl

theorem metatablesCode_claims (structs : List StructBinding) (claim : Line → Option String) :
    (metatablesCode structs).claims claim = (structs.flatMap metatableLines).filterMap claim := by
  unfold metatablesCode
  cases structs with
  | nil => rfl
  | cons s rest =>
    have hregistry : (Head.define "static void" .metatableRegistrar "lua_State* L").registrySymbol? =
        some .metatableRegistrar := rfl
    rw [if_neg (by simp), Code.claims_seq]
    simp only [List.flatMap_cons, List.flatMap_nil, sectionBanner, blankLine, Code.claims_ofLines,
      Code.claims_blockOf hregistry, Code.lines_ofLines, List.nil_append, List.append_nil]

theorem registrationCode_claims {claim : Line → Option String} (given : String → Option String)
    (hentry : ∀ name f, claim (.registration name f) = given name)
    (htext : ∀ text, claim (.text text) = none) (ctx : Context) (b : Bindings) :
    (registrationCode ctx b).claims claim =
      (b.functionKeys ctx.naming ++ b.structs.map (·.scriptName) ++
        ctx.manifest.output.extraRegistrations.map (·.name)).filterMap given := by
  have hblank (extras : List ExtraRegistration) :
      (if extras.isEmpty then Code.done else .ofLines [.blank]).claims claim = [] := by
    split <;> rfl
  have hentries {α : Type} (as : List α) (name : α → String) (f : α → Symbol) :
      (as.map fun a => Line.registration (name a) (f a)).filterMap claim =
        (as.map name).filterMap given := by
    simp only [List.filterMap_map, Function.comp_def, hentry]
  have hfunctions : (b.functions.flatMap (functionEntries ctx.naming)).filterMap claim =
      (b.functionKeys ctx.naming).filterMap given := by
    simp only [Bindings.functionKeys, List.filterMap_flatMap, functionEntries, List.filterMap_map,
      Function.comp_def, hentry]
  have htable : (Head.table "static const luaL_Reg" .functionTable "").registrySymbol? =
      some .functionTable := rfl
  unfold registrationCode
  dsimp only
  rw [Code.claims_seq]
  simp only [List.flatMap_cons, List.flatMap_nil, sectionBanner, blankLine, Code.claims_ofLines,
    Code.claims_blockOf htable, Code.lines_ofLines, hblank, List.filterMap_append, hfunctions, hentries,
    List.filterMap_cons_none (htext _), List.filterMap_nil, List.nil_append, List.append_nil]

end

/-! ## What an entry claims -/

section

variable {ctx : Context} {plan : OverloadPlan} {position : Nat} {d : Declaration} {e : ModuleEntry}

theorem bindStruct_names {struct : StructDecl} {s s' : Scratch} {binding : StructBinding} {glue : Code}
    (h : bindStruct ctx struct s = (.written binding glue, s')) :
    binding.scriptName = ctx.naming.typeName binding.native ∧
      binding.metatable = ctx.naming.metatable binding.native := by
  obtain ⟨_, _, _, _, _, _, -, -, -, -, -, -, describes⟩ := bindStruct_parts h
  rw [describes.native]
  exact ⟨describes.scriptName, describes.metatable⟩

/-- Functions, structs and comments have no registries in their chunks. -/
theorem ModuleEntry.Of.registries_eq_nil (h : e.Of ctx plan position d) (henum : e.enum? = none)
    (hconsts : e.consts? = none) : e.chunk.registries = [] := by
  cases h with
  | function hplan hwritten =>
    refine (wrapFunction_outlined ctx hwritten).registries_eq_nil fun f hf => ?_
    rw [List.mem_singleton.mp hf]
    rfl
  | @struct _ binding _ _ _ hwritten =>
    obtain ⟨fields, -, houtlined, hnative, -⟩ := bindStruct_outlined hwritten
    rw [← hnative] at houtlined
    refine houtlined.registries_eq_nil fun f hf => ?_
    have hdefined := Piece.outline_defined (.struct binding fields)
    rw [Piece.outline, Piece.defined] at hdefined
    rw [hdefined] at hf
    exact structDefined_isRegistry hf
  | leftOut fault => exact (problemComment_outlined _ fun _ => True).registries_eq_nil (by simp)
  | enum => cases henum
  | consts => cases hconsts

/-- The chunk of an enum claims the enum's name in the module and its members' names in its own table, and
that of constants claims their names. -/
theorem ModuleEntry.Of.chunk_claims (h : e.Of ctx plan position d) :
    e.chunk.moduleKeys = e.enum?.toList.map (fun b => ctx.naming.typeName b.native) ++
        e.consts?.toList.flatMap (fun b => b.members.map (·.name)) ∧
      e.chunk.metatables = [] ∧
      e.chunk.memberKeys = e.enum?.toList.map fun b => (b.native, b.members.map (·.name)) := by
  by_cases hnone : e.enum? = none ∧ e.consts? = none
  · have hnil := h.registries_eq_nil hnone.1 hnone.2
    rw [hnone.1, hnone.2]
    exact ⟨Code.claims_of_no_registries hnil _, Code.claims_of_no_registries hnil _,
      Code.memberKeys_of_no_registries hnil⟩
  · cases h with
    | function | struct | leftOut => exact absurd ⟨rfl, rfl⟩ hnone
    | enum hwritten =>
      obtain ⟨hnative, hmembers, hkeys, hmetatables, hmemberKeys⟩ := bindEnum_claims hwritten
      refine ⟨?_, hmetatables, ?_⟩
      · rw [ModuleEntry.chunk, hkeys, ← hnative]
        rfl
      · rw [ModuleEntry.chunk, hmemberKeys, ModuleEntry.enum?, Option.toList_some, List.map_singleton,
          hnative, hmembers, List.map_map]
        rfl
    | consts hwritten =>
      obtain ⟨hmembers, hkeys, hmetatables, hmemberKeys⟩ := bindConsts_claims hwritten
      refine ⟨?_, hmetatables, hmemberKeys⟩
      rw [ModuleEntry.chunk, hkeys]
      simp [ModuleEntry.enum?, ModuleEntry.consts?, hmembers]

end

/-! ## What a module claims -/

section

variable {i : Interface} {m : Manifest} {account : List (Nat × ModuleEntry)}

theorem moduleFile_claims (i : Interface) (m : Manifest) (claim : Line → Option String) :
    (moduleFile i m).claims claim = (moduleBindings i m).2.chunks.flatMap (Code.claims claim) ++
      ((metatablesCode (moduleBindings i m).2.structs).claims claim ++
        (registrationCode (moduleContext i m) (moduleBindings i m).2).claims claim) :=
  cFile_claims (moduleContext i m) (moduleBindings i m).1 (moduleBindings i m).2 claim

theorem IsAccount.entry_of (h : IsAccount i m account) {e : ModuleEntry} (he : e ∈ account.map (·.2)) :
    ∃ k d, i.decls[k]? = some d ∧ e.Of (moduleContext i m) (modulePlan i m) k d := by
  obtain ⟨entry, hentry, rfl⟩ := List.mem_map.mp he
  exact ⟨entry.1, h.of _ hentry⟩

/-- A struct that is bound is declared, and its glue was written. -/
theorem IsAccount.struct_written (h : IsAccount i m account) {b : StructBinding}
    (hb : b ∈ (moduleBindings i m).2.structs) :
    ∃ (k : Nat) (s : StructDecl) (glue : Code) (t t' : Scratch), i.decls[k]? = some (.struct s) ∧
      bindStruct (moduleContext i m) s t = (.written b glue, t') := by
  rw [h.accounts.structs] at hb
  obtain ⟨e, he, hstruct⟩ := List.mem_filterMap.mp hb
  obtain ⟨k, d, hd, hof⟩ := h.entry_of he
  cases hof <;> cases hstruct
  exact ⟨k, _, _, _, _, hd, ‹_›⟩

/-- An enum that is bound is declared, and its glue was written. -/
theorem IsAccount.enum_written (h : IsAccount i m account) {b : EnumBinding}
    (hb : b ∈ (moduleBindings i m).2.enums) :
    ∃ (k : Nat) (e : EnumDecl) (glue : Code) (t t' : Scratch), i.decls[k]? = some (.enum e) ∧
      bindEnum (moduleContext i m) e t = (.written b glue, t') := by
  rw [h.accounts.enums] at hb
  obtain ⟨e, he, henum⟩ := List.mem_filterMap.mp hb
  obtain ⟨k, d, hd, hof⟩ := h.entry_of he
  cases hof <;> cases henum
  exact ⟨k, _, _, _, _, hd, ‹_›⟩

/-- A group of constants that is bound is declared, and its glue was written. -/
theorem IsAccount.consts_written (h : IsAccount i m account) {b : ConstBinding}
    (hb : b ∈ (moduleBindings i m).2.consts) :
    ∃ (k : Nat) (g : ConstGroup) (glue : Code) (t t' : Scratch), i.decls[k]? = some (.consts g) ∧
      bindConsts (moduleContext i m) g k t = (.written b glue, t') := by
  rw [h.accounts.consts] at hb
  obtain ⟨e, he, hconsts⟩ := List.mem_filterMap.mp hb
  obtain ⟨k, d, hd, hof⟩ := h.entry_of he
  cases hof <;> cases hconsts
  exact ⟨k, _, _, _, _, hd, ‹_›⟩

theorem IsAccount.struct_names (h : IsAccount i m account) {s : StructBinding}
    (hs : s ∈ (moduleBindings i m).2.structs) :
    s.scriptName = (moduleContext i m).naming.typeName s.native ∧
      s.metatable = (moduleContext i m).naming.metatable s.native := by
  obtain ⟨_, _, _, _, _, -, hwritten⟩ := h.struct_written hs
  exact bindStruct_names hwritten

/-- There is a metatable for every struct. -/
theorem IsAccount.metatables_eq (h : IsAccount i m account) : (moduleFile i m).metatables =
    (moduleBindings i m).2.structs.map fun s => (moduleContext i m).naming.metatable s.native := by
  have hchunks : (moduleBindings i m).2.chunks.flatMap (Code.claims Line.metatable?) = [] := by
    rw [h.accounts.chunks, List.flatMap_eq_nil_iff]
    intro c hc
    obtain ⟨e, he, rfl⟩ := List.mem_map.mp hc
    obtain ⟨k, d, -, hof⟩ := h.entry_of he
    exact hof.chunk_claims.2.1
  have hlines (s : StructBinding) :
      (metatableLines s).filterMap Line.metatable? = [s.metatable] := by
    unfold metatableLines
    cases s.hasCollector <;> rfl
  rw [Code.metatables, moduleFile_claims, hchunks, metatablesCode_claims, List.nil_append,
    registrationCode_claims (fun _ => none) (fun _ _ => rfl) fun _ => rfl,
    List.filterMap_flatMap]
  simp only [hlines, List.filterMap_none, List.append_nil, ← List.map_eq_flatMap]
  exact List.map_congr_left fun s hs => (h.struct_names hs).2

/-- What the chunks claim, entry by entry. -/
theorem IsAccount.chunks_flatMap (h : IsAccount i m account) {α : Type} {f : Code → List α}
    {g : ModuleEntry → List α} (hfg : ∀ k d e, e.Of (moduleContext i m) (modulePlan i m) k d →
      f e.chunk = g e) :
    (moduleBindings i m).2.chunks.flatMap f = (account.map (·.2)).flatMap g := by
  rw [h.accounts.chunks, List.flatMap_map]
  refine List.flatMap_congr fun e he => ?_
  obtain ⟨k, d, -, hof⟩ := h.entry_of he
  exact hfg k d e hof

/-- The keys of the module's table are the names that are asked for. -/
theorem IsAccount.moduleKeys_perm (h : IsAccount i m account)
    (hextras : m.output.extraRegistrations = []) :
    (moduleFile i m).moduleKeys.Perm
      ((moduleBindings i m).2.functionKeys (moduleContext i m).naming ++
        ((moduleBindings i m).2.typeNames (moduleContext i m).naming ++
          (moduleBindings i m).2.constNames)) := by
  have hlines (s : StructBinding) : (metatableLines s).filterMap Line.moduleKey? = [] := by
    unfold metatableLines
    cases s.hasCollector <;> rfl
  have hmetatables (structs : List StructBinding) :
      (structs.flatMap metatableLines).filterMap Line.moduleKey? = [] := by
    rw [List.filterMap_flatMap]
    simp [hlines]
  have hstructs : (moduleBindings i m).2.structs.map (·.scriptName) =
      (moduleBindings i m).2.structs.map fun s => (moduleContext i m).naming.typeName s.native :=
    List.map_congr_left fun s hs => (h.struct_names hs).1
  have henums : (account.map (·.2)).flatMap (fun e =>
        e.enum?.toList.map fun b => (moduleContext i m).naming.typeName b.native) =
      (moduleBindings i m).2.enums.map fun b => (moduleContext i m).naming.typeName b.native := by
    rw [h.accounts.enums, List.filterMap_eq_flatMap_toList, List.map_flatMap]
  have hconsts : (account.map (·.2)).flatMap (fun e =>
        e.consts?.toList.flatMap fun b => b.members.map (·.name)) =
      (moduleBindings i m).2.constNames := by
    rw [Bindings.constNames, h.accounts.consts, List.filterMap_eq_flatMap_toList, List.flatMap_assoc]
  have hchunks : (moduleBindings i m).2.chunks.flatMap Code.moduleKeys =
      (account.map (·.2)).flatMap fun e =>
        e.enum?.toList.map (fun b => (moduleContext i m).naming.typeName b.native) ++
          e.consts?.toList.flatMap fun b => b.members.map (·.name) :=
    h.chunks_flatMap fun k d e hof => hof.chunk_claims.1
  have hentries := (List.flatMap_append_perm (account.map (·.2))
    (fun e => e.enum?.toList.map fun b => (moduleContext i m).naming.typeName b.native)
    fun e => e.consts?.toList.flatMap fun b => b.members.map (·.name)).symm
  rw [← hchunks, henums, hconsts] at hentries
  have hextras' : (moduleContext i m).manifest.output.extraRegistrations = [] := by
    rw [(moduleContext_eq i m).1, hextras]
  have hall : (moduleFile i m).moduleKeys = (moduleBindings i m).2.chunks.flatMap Code.moduleKeys ++
      ((moduleBindings i m).2.functionKeys (moduleContext i m).naming ++
        (moduleBindings i m).2.structs.map fun s => (moduleContext i m).naming.typeName s.native) := by
    rw [Code.moduleKeys, moduleFile_claims, metatablesCode_claims, hmetatables, List.nil_append,
      registrationCode_claims some (fun _ _ => rfl) fun _ => rfl, hextras', List.map_nil,
      List.append_nil, hstructs, List.filterMap_some]
    rfl
  rw [hall, Bindings.typeNames, List.map_append, List.map_map, List.map_map]
  refine (hentries.append_right _).trans (List.perm_iff_count.mpr fun key => ?_)
  simp only [List.count_append, Function.comp_def]
  omega

/-- The keys of the tables of enums are the names of their members. -/
theorem IsAccount.memberKeys_eq (h : IsAccount i m account) : (moduleFile i m).memberKeys =
    (moduleBindings i m).2.enums.map fun b => (b.native, b.members.map (·.name)) := by
  have hchunks : (moduleBindings i m).2.chunks.flatMap Code.memberKeys =
      (account.map (·.2)).flatMap fun e =>
        e.enum?.toList.map fun b => (b.native, b.members.map (·.name)) :=
    h.chunks_flatMap fun k d e hof => hof.chunk_claims.2.2
  have hmetatables : (metatablesCode (moduleBindings i m).2.structs).memberKeys = [] := by
    refine Code.memberKeys_of_no_enums fun e he => ?_
    rw [metatablesCode_mentions, metatablesOutline] at he
    split at he
    · exact absurd he List.not_mem_nil
    · obtain ⟨s, -, hs⟩ := List.mem_flatMap.mp ((List.mem_cons.mp he).resolve_left (by simp))
      unfold metatableOutline at hs
      split at hs <;> simp at hs
  have hregistration :
      (registrationCode (moduleContext i m) (moduleBindings i m).2).memberKeys = [] := by
    refine Code.memberKeys_of_no_enums fun e he => ?_
    simp [registrationCode_mentions] at he
  have hfile : (moduleFile i m).memberKeys =
      (moduleBindings i m).2.chunks.flatMap Code.memberKeys ++
        ((metatablesCode (moduleBindings i m).2.structs).memberKeys ++
          (registrationCode (moduleContext i m) (moduleBindings i m).2).memberKeys) :=
    cFile_memberKeys (moduleContext i m) (moduleBindings i m).1 (moduleBindings i m).2
  rw [hfile, hchunks, hmetatables, hregistration, List.append_nil, List.append_nil,
    h.accounts.enums, List.filterMap_eq_flatMap_toList, List.map_flatMap]

/-- The table of an enum has its members' names as keys. -/
theorem IsAccount.enum_members (h : IsAccount i m account) {b : EnumBinding}
    (hb : b ∈ (moduleBindings i m).2.enums) :
    ∃ e ∈ i.enums, b.native = e.name ∧ b.members.map (·.name) =
      e.items.map fun item => (moduleContext i m).naming.memberName e.name item.name := by
  obtain ⟨k, e, _, _, _, hd, hwritten⟩ := h.enum_written hb
  obtain ⟨hnative, hmembers, -⟩ := bindEnum_claims hwritten
  refine ⟨e, List.mem_filterMap.mpr ⟨_, List.mem_of_getElem? hd, rfl⟩, hnative, ?_⟩
  rw [hmembers, List.map_map]
  rfl

end

/-! ## Functions -/

section

variable {i : Interface} {m : Manifest} {account : List (Nat × ModuleEntry)}

/-- Candidates stand where their declarations do. -/
theorem candidates_positions (m : Manifest) (decls : List Declaration) :
    ((candidates m decls).map (·.position)).Nodup := by
  have hpositions : (decls.zipIdx.map Prod.snd).Nodup := by
    rw [List.zipIdx_map_snd]
    exact List.nodup_range'
  refine List.Nodup.sublist ?_ hpositions
  unfold candidates
  generalize decls.zipIdx = located
  induction located with
  | nil => exact .slnil
  | cons first rest ih =>
    obtain ⟨d, k⟩ := first
    rw [List.filterMap_cons, List.map_cons]
    cases d with
    | function f =>
      dsimp only
      cases isWrapped m f with
      | false => exact .cons k ih
      | true => exact .cons_cons k ih
    | struct s => exact .cons k ih
    | enum e => exact .cons k ih
    | consts g => exact .cons k ih

/-- The names of the functions in a module are given out by verdicts. -/
theorem modulePlan_follows (i : Interface) (m : Manifest) :
    ∃ M, (modulePlan i m).Follows
      (Candidate.verdict (moduleContext i m) M (candidates m i.decls)) (candidates m i.decls) := by
  obtain ⟨_, _, _, _, _, M, _, _, _, _, hplan, _⟩ := module_runs i m
  exact ⟨M, OverloadPlan.follows (build_giveOut hplan (Memo.Grows.refl _))
    (candidates_positions m i.decls)⟩

/-- What is registered for a function in an account is what the plan has for the function there. -/
theorem IsAccount.function_candidate (h : IsAccount i m account) {k : Nat} {e : ModuleEntry}
    (he : (k, e) ∈ account) {f : FunctionBinding} (hf : e.function? = some f) :
    ∃ c ∈ candidates m i.decls, c.position = k ∧
      (modulePlan i m).names? k = some (.ok f.names) := by
  obtain ⟨_, _, _, _, _, _, _, _, _, _, hplan, _⟩ := module_runs i m
  obtain ⟨d, hd, hof⟩ : ∃ d, i.decls[k]? = some d ∧
      e.Of (moduleContext i m) (modulePlan i m) k d := h.of _ he
  cases hof <;> cases hf
  rename_i hnames hwritten
  have hwrapped := (build_planned hplan hd).mp (by rw [hnames]; rfl)
  refine ⟨⟨k, _⟩, mem_candidates_iff.mpr ⟨hd, hwrapped⟩, rfl, ?_⟩
  rw [hnames, (wrapFunction_names _ hwritten).2]

/-- **No name is registered for two functions of a module.** -/
theorem IsAccount.functionKeys_nodup (h : IsAccount i m account)
    (hpositions : (account.map (·.1)).Nodup) :
    ((moduleBindings i m).2.functionKeys (moduleContext i m).naming).Nodup := by
  obtain ⟨M, hplan⟩ := modulePlan_follows i m
  rw [Bindings.functionKeys, h.accounts.functions, List.nodup_flatMap]
  refine ⟨fun f _ => registeredNames_nodup _ _, List.pairwise_filterMap.mpr ?_⟩
  refine List.pairwise_map.mpr ((List.pairwise_map.mp hpositions).imp_of_mem ?_)
  rintro ⟨k, e⟩ ⟨k', e'⟩ he he' hne f hf f' hf' key hkey hkey'
  obtain ⟨c, hc, rfl, hnames⟩ := h.function_candidate he hf
  obtain ⟨c', hc', rfl, hnames'⟩ := h.function_candidate he' hf'
  exact hplan.keys_apart hc hc' hne (OverloadPlan.mem_keysOf.mpr ⟨_, hnames, hkey⟩)
    (OverloadPlan.mem_keysOf.mpr ⟨_, hnames', hkey'⟩)

theorem wanted_noCapital (ctx : Context) (M : Memo) (functions : List Candidate) (c : Candidate) :
    NoCapital (c.wanted ctx M functions) := by
  unfold Candidate.wanted
  split
  · exact (functionName_noCapital _ _).append (suffixOf_noCapital _ _)
  · exact functionName_noCapital _ _

/-- A function that is bound was given its name by the plan, and its wrapper was written. -/
theorem IsAccount.function_written (h : IsAccount i m account) {b : FunctionBinding}
    (hb : b ∈ (moduleBindings i m).2.functions) :
    ∃ c ∈ candidates m i.decls, (modulePlan i m).names? c.position = some (.ok b.names) ∧
      ∃ glue t t', wrapFunction (moduleContext i m) c.function b.names t = (.written b glue, t') := by
  rw [h.accounts.functions] at hb
  obtain ⟨e, he, hfunction⟩ := List.mem_filterMap.mp hb
  obtain ⟨⟨k, e⟩, hentry, rfl⟩ := List.mem_map.mp he
  obtain ⟨c, hc, rfl, hnames⟩ := h.function_candidate hentry hfunction
  obtain ⟨d, hd, hof⟩ : ∃ d, i.decls[c.position]? = some d ∧
      e.Of (moduleContext i m) (modulePlan i m) c.position d := h.of _ hentry
  cases hof <;> cases hfunction
  rename_i hwritten
  rw [(mem_candidates_iff.mp hc).1] at hd
  cases hd
  rw [← (wrapFunction_names _ hwritten).2] at hwritten
  exact ⟨c, hc, hnames, _, _, _, hwritten⟩

/-- The names of functions have no capitals. -/
theorem IsAccount.functionKeys_noCapital (h : IsAccount i m account) {key : String}
    (hkey : key ∈ (moduleBindings i m).2.functionKeys (moduleContext i m).naming) :
    NoCapital key := by
  obtain ⟨M, hplan⟩ := modulePlan_follows i m
  obtain ⟨f, hf, hkey⟩ := List.mem_flatMap.mp hkey
  obtain ⟨c, hc, hnames, -⟩ := h.function_written hf
  refine registeredNames_noCapital ?_ hkey
  rw [(hplan.verdict_of_ok hc hnames).2]
  exact wanted_noCapital _ _ _ _

end

/-! ## When nothing is claimed twice -/

/-- No name is claimed twice: not the metatables, not the keys of the module's table and, in an enum whose
members have different names, not the keys of its table. -/
structure Code.ClaimsOnce (file : Code) (i : Interface) : Prop where
  metatables : file.metatables.Nodup
  moduleKeys : file.moduleKeys.Nodup
  memberKeys : ∀ e ∈ i.enums, (e.items.map (·.name)).Nodup →
    ∀ keys, (e.name, keys) ∈ file.memberKeys → keys.Nodup

/-- What is compared with nothing has different names all the same. -/
structure KeysApart (n : Naming) (i : Interface) (b : Bindings) : Prop where
  types : (b.typeNames n).Nodup
  consts : b.constNames.Nodup
  /-- No constant is called like a type. -/
  others : ∀ name ∈ b.typeNames n, name ∉ b.constNames
  /-- A function can only be called like a type if its name does not begin with a letter. -/
  types_functions : ∀ key ∈ b.functionKeys n, beginsWithLetter key = false → key ∉ b.typeNames n
  /-- A function can only be called like a constant if its name has no letters. -/
  consts_functions : ∀ key ∈ b.functionKeys n, hasLetter key = false → key ∉ b.constNames
  members : ∀ e ∈ i.enums, e.name ∈ b.enums.map (·.native) → (e.items.map (·.name)).Nodup →
    (e.items.map fun item => n.memberName e.name item.name).Nodup

section

variable {i : Interface} {m : Manifest} {account : List (Nat × ModuleEntry)} {overloads : Bool}

theorem IsAccount.constName_of_mem (h : IsAccount i m account) {name : String}
    (hname : name ∈ (moduleBindings i m).2.constNames) :
    ∃ item, name = (moduleContext i m).naming.constName item := by
  obtain ⟨b, hb, hname⟩ := List.mem_flatMap.mp hname
  obtain ⟨_, _, _, _, _, -, hwritten⟩ := h.consts_written hb
  rw [(bindConsts_claims hwritten).1, List.map_map] at hname
  obtain ⟨item, -, rfl⟩ := List.mem_map.mp hname
  exact ⟨item.name, rfl⟩

/-- Functions meet types and constants only where there are no letters to tell them by. -/
theorem IsAccount.functions_disjoint_iff (h : IsAccount i m account) :
    (((moduleBindings i m).2.functionKeys (moduleContext i m).naming).Disjoint
        ((moduleBindings i m).2.typeNames (moduleContext i m).naming) ↔
      ∀ key ∈ (moduleBindings i m).2.functionKeys (moduleContext i m).naming,
        beginsWithLetter key = false →
          key ∉ (moduleBindings i m).2.typeNames (moduleContext i m).naming) ∧
    (((moduleBindings i m).2.functionKeys (moduleContext i m).naming).Disjoint
        (moduleBindings i m).2.constNames ↔
      ∀ key ∈ (moduleBindings i m).2.functionKeys (moduleContext i m).naming,
        hasLetter key = false → key ∉ (moduleBindings i m).2.constNames) := by
  constructor
  · refine ⟨fun hapart key hkey _ htype => hapart hkey htype, fun hplain key hkey htype => ?_⟩
    obtain ⟨native, -, rfl⟩ := List.mem_map.mp htype
    refine hplain _ hkey (Bool.eq_false_iff.mpr fun hletter => ?_) htype
    exact ne_typeName (h.functionKeys_noCapital hkey) hletter _ _ rfl
  · refine ⟨fun hapart key hkey _ hconst => hapart hkey hconst, fun hplain key hkey hconst => ?_⟩
    obtain ⟨item, rfl⟩ := h.constName_of_mem hconst
    refine hplain _ hkey (Bool.eq_false_iff.mpr fun hletter => ?_) hconst
    exact ne_constName (h.functionKeys_noCapital hkey) hletter _ _ rfl

/-- The keys of an enum's table. -/
theorem IsAccount.mem_memberKeys (h : IsAccount i m account)
    (hidentities : (i.decls.map (Declaration.identity overloads)).Nodup) {e : EnumDecl}
    (he : e ∈ i.enums) {keys : List String} : (e.name, keys) ∈ (moduleFile i m).memberKeys ↔
      e.name ∈ (moduleBindings i m).2.enums.map (·.native) ∧
        keys = e.items.map fun item => (moduleContext i m).naming.memberName e.name item.name := by
  have members {b : EnumBinding} (hb : b ∈ (moduleBindings i m).2.enums) (hnative : b.native = e.name) :
      b.members.map (·.name) =
        e.items.map fun item => (moduleContext i m).naming.memberName e.name item.name := by
    obtain ⟨e', he', hname, hmembers⟩ := h.enum_members hb
    rw [hmembers, enum_unique hidentities he' he (hname.symm.trans hnative)]
  rw [h.memberKeys_eq, List.mem_map, List.mem_map]
  constructor
  · rintro ⟨b, hb, heq⟩
    obtain ⟨hnative, rfl⟩ := Prod.mk.inj heq
    exact ⟨⟨b, hb, hnative⟩, members hb hnative⟩
  · rintro ⟨⟨b, hb, hnative⟩, rfl⟩
    exact ⟨b, hb, Prod.ext hnative (members hb hnative)⟩

/-- The metatables of different names are different. -/
theorem IsAccount.metatables_nodup (h : IsAccount i m account)
    (htypes : ((moduleBindings i m).2.typeNames (moduleContext i m).naming).Nodup) :
    (moduleFile i m).metatables.Nodup := by
  rw [Bindings.typeNames, List.map_append] at htypes
  have hstructs := List.pairwise_map.mp (List.pairwise_map.mp htypes.of_append_left)
  rw [h.metatables_eq]
  exact List.pairwise_map.mpr (hstructs.imp fun hne heq => hne ((String.append_right_inj _).mp heq))

theorem IsAccount.claimsOnce_iff (h : IsAccount i m account)
    (hpositions : (account.map (·.1)).Nodup)
    (hidentities : (i.decls.map (Declaration.identity overloads)).Nodup)
    (hextras : m.output.extraRegistrations = []) :
    (moduleFile i m).ClaimsOnce i ↔
      KeysApart (moduleContext i m).naming i (moduleBindings i m).2 := by
  have hkeys := (h.moduleKeys_perm hextras).nodup_iff
  rw [List.nodup_append', List.nodup_append', List.disjoint_append_right,
    and_iff_right (h.functionKeys_nodup hpositions), h.functions_disjoint_iff.1,
    h.functions_disjoint_iff.2] at hkeys
  constructor
  · intro hclaims
    obtain ⟨⟨htypes, hconsts, hothers⟩, hfunctions, hfunctions'⟩ := hkeys.mp hclaims.moduleKeys
    refine ⟨htypes, hconsts, fun _ htype hconst => hothers htype hconst, hfunctions, hfunctions',
      fun e he hbound hnames => ?_⟩
    exact hclaims.memberKeys e he hnames _ ((h.mem_memberKeys hidentities he).mpr ⟨hbound, rfl⟩)
  · intro hapart
    have hothers := List.disjoint_left.mpr hapart.others
    refine ⟨h.metatables_nodup hapart.types, hkeys.mpr ⟨⟨hapart.types, hapart.consts, hothers⟩,
      hapart.types_functions, hapart.consts_functions⟩, fun e he hnames keys hmem => ?_⟩
    obtain ⟨hbound, rfl⟩ := (h.mem_memberKeys hidentities he).mp hmem
    exact hapart.members e he hbound hnames

end

/-- **When a module claims no name twice**: exactly if what nobody compares is different all the same. The
interface is as it was read, or has its owned buffers attached. -/
theorem claims_once_iff {overloads : Bool} {text : String} {m : Manifest} {loaded i : Interface}
    (hparse : Interface.parse overloads text = .ok loaded)
    (hi : i = loaded ∨ m.attachOwnedBuffers loaded = .ok i)
    (hextras : m.output.extraRegistrations = []) :
    (generate i m).code = (moduleFile i m).text ∧
      ((moduleFile i m).ClaimsOnce i ↔
        KeysApart (m.naming.fillFrom i) i (moduleBindings i m).2) := by
  refine ⟨rfl, ?_⟩
  have hidentities : (i.decls.map (Declaration.identity overloads)).Nodup := by
    rcases hi with rfl | hattach
    · exact parse_identities hparse
    · exact attached_identities hparse hattach
  obtain ⟨account, haccount, hentered⟩ := account_exists hidentities
  rw [← (moduleContext_eq i m).2]
  refine haccount.claimsOnce_iff ?_ hidentities hextras
  rw [hentered]
  exact List.nodup_range.filter _

theorem claims_once_medley :
    (Interface.parse false medleyText = .ok medley ∧
        ({} : Manifest).output.extraRegistrations = []) ∧
      (moduleFile medley {}).moduleKeys = ["E", "B", "f", "P"] ∧
      (moduleFile medley {}).memberKeys = [("E", ["A"])] ∧
      (moduleFile medley {}).ClaimsOnce medley := by
  have hapart : KeysApart (({} : Manifest).naming.fillFrom medley) medley
      (moduleBindings medley {}).2 := by
    constructor <;> decide +kernel
  exact ⟨⟨medley_parsed, rfl⟩, by decide +kernel, by decide +kernel,
    (claims_once_iff medley_parsed (.inl rfl) rfl).2.mpr hapart⟩

/-- Two structs, whose names differ in an ending that is dropped. -/
def boxesText : String :=
  "[[\"struct\",\"box\",null,[],[[\"x\",\"int\"]]],
    [\"struct\",\"box_t\",null,[],[[\"y\",\"int\"]]]]"

def boxes : Interface where
  decls := [.struct ⟨"box", [⟨"x", "int"⟩], []⟩, .struct ⟨"box_t", [⟨"y", "int"⟩], []⟩]

/-- Two structs share a constructor's name and a metatable, and nobody is told. -/
theorem metatable_shared :
    Interface.parse false boxesText = .ok boxes ∧
      ({} : Manifest).attachOwnedBuffers boxes = .ok boxes ∧
      ({} : Manifest).output.extraRegistrations = [] ∧
      (moduleFile boxes {}).metatables = [".Box", ".Box"] ∧
      (moduleFile boxes {}).moduleKeys = ["Box", "Box"] ∧
      (generate boxes {}).problems = [] ∧
      ¬ (moduleFile boxes {}).ClaimsOnce boxes := by
  have hmetatables : (moduleFile boxes {}).metatables = [".Box", ".Box"] := by decide +kernel
  refine ⟨by decide +kernel, rfl, rfl, hmetatables, by decide +kernel, by decide +kernel, ?_⟩
  intro hclaims
  have hnodup := hclaims.metatables
  rw [hmetatables] at hnodup
  exact absurd hnodup (by decide)

end LuaGlue
