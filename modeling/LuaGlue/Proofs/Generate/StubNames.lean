import LuaGlue.Proofs.Function.Pairing
import LuaGlue.Proofs.Function.Pieces
import LuaGlue.Proofs.Generate.ScriptKeys
import LuaGlue.Proofs.Stub.Names

/-!
# When a stub file can be read

Every name in a stub file is made from a native name by one of the rules of naming. Where native names are
identifiers, the rules for types, members, constants and functions can still make something else of them,
that for parameters cannot. So the file can be read exactly if what is written passes the conditions of its
rules (`stub_names_valid_iff`); none of them is checked, and one member that fails spoils the file
(`member_begins_with_digit`).
-/

set_option autoImplicit false

namespace LuaGlue

open Text

/-- The names that a declaration declares: its own, and those of its parameters, fields or members. -/
def Declaration.names : Declaration → List String
  | .function f => f.name :: f.params.map (·.name)
  | .struct s => s.name :: s.fields.map (·.name)
  | .enum e => e.name :: e.items.map (·.name)
  | .consts g => g.items.map (·.name)

/-- All names that an interface declares. -/
def Interface.names (i : Interface) : List String := i.decls.flatMap Declaration.names

/-- The stub file of a module, in pieces. -/
def moduleStub (i : Interface) (m : Manifest) : List StubPiece :=
  stubPieces (moduleContext i m).naming (moduleBindings i m).2

/-- What is left of the native names that were given script names can be written, rule by rule. -/
structure StubFits (n : Naming) (i : Interface) (b : Bindings) : Prop where
  structs : ∀ s ∈ b.structs, n.typeFits s.native = true
  enums : ∀ e ∈ b.enums, n.typeFits e.native = true
  members : ∀ e ∈ i.enums, e.name ∈ b.enums.map (·.native) →
    ∀ item ∈ e.items, n.memberFits e.name item.name = true
  /-- A group of constants is known by its position. -/
  consts : ∀ k g, i.decls[k]? = some (.consts g) →
    .constRegistrar k ∈ b.consts.map (·.registrar) → ∀ item ∈ g.items, n.constFits item.name = true
  /-- A function that shares its name with others has a suffix, any other has none. -/
  functions : ∀ f ∈ b.functions, ∀ suffix,
    f.names.scriptName = n.functionName f.native ++ suffix → n.functionFits f.native suffix = true

/-! ## What the names are made from -/

section

variable {i : Interface} {m : Manifest} {account : List (Nat × ModuleEntry)}

theorem Interface.mem_names {d : Declaration} (hd : d ∈ i.decls) {name : String}
    (h : name ∈ d.names) : name ∈ i.names :=
  List.mem_flatMap.mpr ⟨d, hd, h⟩

theorem bindStruct_native {ctx : Context} {struct : StructDecl} {s s' : Scratch}
    {binding : StructBinding} {glue : Code}
    (h : bindStruct ctx struct s = (.written binding glue, s')) : binding.native = struct.name := by
  obtain ⟨-, -, -, hnative, -⟩ := bindStruct_outlined h
  exact hnative

theorem bindEnum_scriptName {ctx : Context} {e : EnumDecl} {s s' : Scratch} {binding : EnumBinding}
    {glue : Code} (h : bindEnum ctx e s = (.written binding glue, s')) :
    binding.scriptName = ctx.naming.typeName e.name := by
  obtain ⟨_, _, _, _, -, hreturn, rfl⟩ := Draft.bind_written.mp h
  obtain ⟨rfl, -, -⟩ := Draft.pure_written.mp hreturn
  rfl

theorem bindConsts_registrar {ctx : Context} {g : ConstGroup} {position : Nat} {s s' : Scratch}
    {binding : ConstBinding} {glue : Code}
    (h : bindConsts ctx g position s = (.written binding glue, s')) :
    binding.registrar = .constRegistrar position := by
  obtain ⟨_, _, _, _, -, hreturn, rfl⟩ := Draft.bind_written.mp h
  obtain ⟨rfl, -, -⟩ := Draft.pure_written.mp hreturn
  rfl

/-- The arguments of a wrapper have the names of parameters. -/
theorem wrapFunction_args {ctx : Context} {f : FunctionDecl} {names : FunctionNames} {s s' : Scratch}
    {binding : FunctionBinding} {glue : Code}
    (h : wrapFunction ctx f names s = (.written binding glue, s')) :
    ∀ a ∈ binding.args, a.name ∈ f.params.map (·.name) := by
  obtain ⟨w, t, t', hw, -, rfl⟩ := wrapFunction_written h
  have hparams := pairParams_params ctx f.name f.params s.memo
  rw [← hw.units] at hparams
  intro a ha
  obtain ⟨r, hr, rfl⟩ := List.mem_map.mp ha
  have hname : r.arg.name ∈ w.given.map (·.arg.name) := List.mem_map_of_mem hr
  rw [hw.reads.arg_names] at hname
  obtain ⟨u, hu, hname⟩ := List.mem_map.mp hname
  rw [← hname, ← hparams]
  refine List.mem_map_of_mem (List.mem_flatMap.mpr ⟨u, hu, ?_⟩)
  cases u <;> exact List.mem_cons_self

theorem IsAccount.struct_declared (h : IsAccount i m account) {b : StructBinding}
    (hb : b ∈ (moduleBindings i m).2.structs) : b.native ∈ i.names := by
  obtain ⟨k, s, _, _, _, hd, hwritten⟩ := h.struct_written hb
  rw [bindStruct_native hwritten]
  exact Interface.mem_names (List.mem_of_getElem? hd) List.mem_cons_self

theorem IsAccount.enum_scriptName (h : IsAccount i m account) {b : EnumBinding}
    (hb : b ∈ (moduleBindings i m).2.enums) :
    b.scriptName = (moduleContext i m).naming.typeName b.native := by
  obtain ⟨_, _, _, _, _, -, hwritten⟩ := h.enum_written hb
  rw [bindEnum_scriptName hwritten, (bindEnum_claims hwritten).1]

/-- A group of constants that is bound is declared at the position it is known by. -/
theorem IsAccount.consts_declared (h : IsAccount i m account) {b : ConstBinding}
    (hb : b ∈ (moduleBindings i m).2.consts) :
    ∃ k g, i.decls[k]? = some (.consts g) ∧ b.registrar = .constRegistrar k ∧
      b.members.map (·.name) =
        g.items.map fun item => (moduleContext i m).naming.constName item.name := by
  obtain ⟨k, g, _, _, _, hd, hwritten⟩ := h.consts_written hb
  refine ⟨k, g, hd, bindConsts_registrar hwritten, ?_⟩
  rw [(bindConsts_claims hwritten).1, List.map_map]
  rfl

/-- A function that is bound is declared, and so are its parameters; what it is called is its own name and
perhaps a suffix. -/
theorem IsAccount.function_declared (h : IsAccount i m account) {b : FunctionBinding}
    (hb : b ∈ (moduleBindings i m).2.functions) :
    b.native ∈ i.names ∧ (∀ a ∈ b.args, a.name ∈ i.names) ∧
      ∃ suffix, b.names.scriptName =
        (moduleContext i m).naming.functionName b.native ++ suffix := by
  obtain ⟨M, hplan⟩ := modulePlan_follows i m
  obtain ⟨c, hc, hnames, _, _, _, hwritten⟩ := h.function_written hb
  have hdeclared := (mem_candidates_iff.mp hc).1
  have hmem {name : String} (hname : name ∈ (Declaration.function c.function).names) :
      name ∈ i.names :=
    Interface.mem_names (List.mem_of_getElem? hdeclared) hname
  have hnative := (wrapFunction_names _ hwritten).1
  refine ⟨hnative ▸ hmem List.mem_cons_self,
    fun a ha => hmem (List.mem_cons_of_mem _ (wrapFunction_args hwritten a ha)), ?_⟩
  rw [(hplan.verdict_of_ok hc hnames).2, hnative]
  unfold Candidate.wanted
  split
  · exact ⟨_, rfl⟩
  · exact ⟨"", String.append_empty.symm⟩

/-! ## Rule by rule -/

variable {overloads : Bool} (h : IsAccount i m account)
  (hnames : ∀ name ∈ i.names, Over NameChar name)

include h hnames

theorem IsAccount.structs_valid_iff :
    (∀ name ∈ (moduleBindings i m).2.structs.map (·.scriptName), isScriptName name = true) ↔
      ∀ s ∈ (moduleBindings i m).2.structs,
        (moduleContext i m).naming.typeFits s.native = true := by
  rw [List.forall_mem_map]
  refine forall₂_congr fun s hs => ?_
  rw [(h.struct_names hs).1, typeName_valid (hnames _ (h.struct_declared hs))]

theorem IsAccount.enums_valid_iff
    (hidentities : (i.decls.map (Declaration.identity overloads)).Nodup) :
    (∀ name ∈ (moduleBindings i m).2.enums.flatMap fun e =>
        e.scriptName :: e.scriptName :: e.members.map (·.name), isScriptName name = true) ↔
      (∀ e ∈ (moduleBindings i m).2.enums,
          (moduleContext i m).naming.typeFits e.native = true) ∧
        ∀ e ∈ i.enums, e.name ∈ (moduleBindings i m).2.enums.map (·.native) →
          ∀ item ∈ e.items, (moduleContext i m).naming.memberFits e.name item.name = true := by
  have hdeclared {e : EnumDecl} (he : e ∈ i.enums) {name : String}
      (hname : name ∈ (Declaration.enum e).names) : Over NameChar name :=
    hnames name (Interface.mem_names (declared_of_mem_enums he) hname)
  have htype {b : EnumBinding} (hb : b ∈ (moduleBindings i m).2.enums) :
      isScriptName b.scriptName = (moduleContext i m).naming.typeFits b.native := by
    obtain ⟨e, he, hnative, -⟩ := h.enum_members hb
    rw [h.enum_scriptName hb, hnative, typeName_valid (hdeclared he List.mem_cons_self)]
  have hmember {e : EnumDecl} (he : e ∈ i.enums) {item : EnumItem} (hitem : item ∈ e.items) :
      isScriptName ((moduleContext i m).naming.memberName e.name item.name) =
        (moduleContext i m).naming.memberFits e.name item.name :=
    memberName_valid (hdeclared he (List.mem_cons_of_mem _ (List.mem_map_of_mem hitem)))
  constructor
  · intro hvalid
    refine ⟨fun b hb => ?_, fun e he hbound item hitem => ?_⟩
    · rw [← htype hb]
      exact hvalid _ (List.mem_flatMap.mpr ⟨b, hb, List.mem_cons_self⟩)
    · obtain ⟨b, hb, hnative⟩ := List.mem_map.mp hbound
      obtain ⟨e', he', hnative', hmembers⟩ := h.enum_members hb
      obtain rfl := enum_unique hidentities he' he (hnative'.symm.trans hnative)
      rw [← hmember he hitem]
      refine hvalid _ (List.mem_flatMap.mpr ⟨b, hb, ?_⟩)
      rw [hmembers]
      exact List.mem_cons_of_mem _ (List.mem_cons_of_mem _ (List.mem_map_of_mem hitem))
  · rintro ⟨htypes, hitems⟩ name hname
    obtain ⟨b, hb, hname⟩ := List.mem_flatMap.mp hname
    obtain ⟨e, he, hnative, hmembers⟩ := h.enum_members hb
    rw [hmembers, List.mem_cons, List.mem_cons, ← or_assoc, or_self] at hname
    rcases hname with rfl | hname
    · rw [htype hb]
      exact htypes b hb
    · obtain ⟨item, hitem, rfl⟩ := List.mem_map.mp hname
      rw [hmember he hitem]
      exact hitems e he (List.mem_map.mpr ⟨b, hb, hnative⟩) item hitem

theorem IsAccount.consts_valid_iff :
    (∀ name ∈ (moduleBindings i m).2.consts.flatMap fun c => c.members.map (·.name),
        isScriptName name = true) ↔
      ∀ k g, i.decls[k]? = some (.consts g) →
        .constRegistrar k ∈ (moduleBindings i m).2.consts.map (·.registrar) →
          ∀ item ∈ g.items, (moduleContext i m).naming.constFits item.name = true := by
  have hconst {k : Nat} {g : ConstGroup} (hg : i.decls[k]? = some (.consts g)) {item : EnumItem}
      (hitem : item ∈ g.items) : isScriptName ((moduleContext i m).naming.constName item.name) =
        (moduleContext i m).naming.constFits item.name :=
    constName_valid (hnames _ (Interface.mem_names (d := .consts g) (List.mem_of_getElem? hg)
      (List.mem_map_of_mem hitem)))
  constructor
  · intro hvalid k g hg hbound item hitem
    obtain ⟨b, hb, hregistrar⟩ := List.mem_map.mp hbound
    obtain ⟨k', g', hg', hregistrar', hmembers⟩ := h.consts_declared hb
    cases hregistrar.symm.trans hregistrar'
    rw [hg] at hg'
    cases hg'
    rw [← hconst hg hitem]
    refine hvalid _ (List.mem_flatMap.mpr ⟨b, hb, ?_⟩)
    rw [hmembers]
    exact List.mem_map_of_mem hitem
  · intro hitems name hname
    obtain ⟨b, hb, hname⟩ := List.mem_flatMap.mp hname
    obtain ⟨k, g, hg, hregistrar, hmembers⟩ := h.consts_declared hb
    rw [hmembers] at hname
    obtain ⟨item, hitem, rfl⟩ := List.mem_map.mp hname
    rw [hconst hg hitem]
    exact hitems k g hg (List.mem_map.mpr ⟨b, hb, hregistrar⟩) item hitem

omit hnames in
/-- Parameters are always given names that can be written. -/
theorem IsAccount.functions_valid_iff (hidentifiers : ∀ name ∈ i.names, isIdentifier name = true) :
    (∀ name ∈ (moduleBindings i m).2.functions.flatMap fun f =>
        f.args.map (fun a => argName a.name) ++
          argName f.names.scriptName :: f.args.map fun a => argName a.name,
        isScriptName name = true) ↔
      ∀ f ∈ (moduleBindings i m).2.functions, ∀ suffix,
        f.names.scriptName = (moduleContext i m).naming.functionName f.native ++ suffix →
          (moduleContext i m).naming.functionFits f.native suffix = true := by
  have hfunction {f : FunctionBinding} (hf : f ∈ (moduleBindings i m).2.functions)
      {suffix : String}
      (heq : f.names.scriptName = (moduleContext i m).naming.functionName f.native ++ suffix) :
      isScriptName (argName f.names.scriptName) =
        (moduleContext i m).naming.functionFits f.native suffix := by
    rw [heq]
    exact functionName_valid
      (isIdentifier_iff.mp (hidentifiers _ (h.function_declared hf).1)).2 suffix
  constructor
  · intro hvalid f hf suffix heq
    rw [← hfunction hf heq]
    exact hvalid _ (List.mem_flatMap.mpr ⟨f, hf, by simp⟩)
  · intro hfits name hname
    obtain ⟨f, hf, hname⟩ := List.mem_flatMap.mp hname
    obtain ⟨-, hargs, suffix, heq⟩ := h.function_declared hf
    have hparam : name ∈ f.args.map (fun a => argName a.name) → isScriptName name = true := by
      intro hname
      obtain ⟨a, ha, rfl⟩ := List.mem_map.mp hname
      rw [argName_valid]
      exact hidentifiers _ (hargs a ha)
    rcases List.mem_append.mp hname with hname | hname
    · exact hparam hname
    · rcases List.mem_cons.mp hname with rfl | hname
      · rw [hfunction hf heq]
        exact hfits f hf suffix heq
      · exact hparam hname

end

theorem IsAccount.stub_valid_iff {i : Interface} {m : Manifest} {account : List (Nat × ModuleEntry)}
    {overloads : Bool} (h : IsAccount i m account)
    (hidentities : (i.decls.map (Declaration.identity overloads)).Nodup)
    (hnames : ∀ name ∈ i.names, isIdentifier name = true) :
    (∀ name ∈ StubPiece.names (moduleStub i m), isScriptName name = true) ↔
      StubFits (moduleContext i m).naming i (moduleBindings i m).2 := by
  have hover : ∀ name ∈ i.names, Over NameChar name := fun name hname =>
    (isIdentifier_iff.mp (hnames name hname)).2
  rw [moduleStub, stubPieces_names, List.forall_mem_append, List.forall_mem_append,
    List.forall_mem_append, h.structs_valid_iff hover, h.enums_valid_iff hover hidentities,
    h.consts_valid_iff hover, h.functions_valid_iff hnames]
  constructor
  · rintro ⟨⟨⟨hstructs, henums, hmembers⟩, hconsts⟩, hfunctions⟩
    exact ⟨hstructs, henums, hmembers, hconsts, hfunctions⟩
  · rintro ⟨hstructs, henums, hmembers, hconsts, hfunctions⟩
    exact ⟨⟨⟨hstructs, henums, hmembers⟩, hconsts⟩, hfunctions⟩

/-- **When every name in a stub file can be written**, if native names are identifiers: exactly if what is
left of them fits. The interface is as it was read, or has its owned buffers attached. -/
theorem stub_names_valid_iff {overloads : Bool} {text : String} {m : Manifest}
    {loaded i : Interface} (hparse : Interface.parse overloads text = .ok loaded)
    (hi : i = loaded ∨ m.attachOwnedBuffers loaded = .ok i)
    (hnames : ∀ name ∈ i.names, isIdentifier name = true) :
    (generate i m).stubs = StubPiece.spell (moduleStub i m) ∧
      ((∀ name ∈ StubPiece.names (moduleStub i m), isScriptName name = true) ↔
        StubFits (m.naming.fillFrom i) i (moduleBindings i m).2) := by
  have hidentities : (i.decls.map (Declaration.identity overloads)).Nodup := by
    rcases hi with rfl | hattach
    · exact parse_identities hparse
    · exact attached_identities hparse hattach
  obtain ⟨account, haccount, -⟩ := account_exists hidentities
  refine ⟨renderStubs_pieces _ _, ?_⟩
  rw [← (moduleContext_eq i m).2]
  exact haccount.stub_valid_iff hidentities hnames

/-- A struct whose name without the stem begins with a digit, a function and a parameter with reserved
words for names, an enum and a constant. -/
def tidyText : String :=
  "[[\"struct\",\"sg_2d_desc\",null,[],[[\"size\",\"int\"]]],
    [\"func\",\"sg_end\",\"void (int)\",[[\"local\",\"int\"]]],
    [\"enum\",\"sg_kind\",null,[],[],[[\"SG_KIND_ON\"]]],
    [\"consts\",null,null,[],[],[[\"SG_LIMIT\"]]]]"

def tidy : Interface where
  decls := [.struct ⟨"sg_2d_desc", [⟨"size", "int"⟩], []⟩,
    .function { name := "sg_end", type := "void (int)", returnType := "void"
                params := [⟨"local", "int", false, false, false⟩], variadic := false },
    .enum ⟨"sg_kind", [⟨"SG_KIND_ON", 0⟩]⟩, .consts ⟨[⟨"SG_LIMIT", 0⟩]⟩]

/-- A library with a stem. -/
def stemmed : Manifest where
  naming := { module := "gfx", stem := "sg_" }

theorem stub_names_valid_tidy :
    (Interface.parse false tidyText = .ok tidy ∧
        ∀ name ∈ tidy.names, isIdentifier name = true) ∧
      StubPiece.names (moduleStub tidy stemmed) =
        ["Sg2dDesc", "Kind", "Kind", "ON", "LIMIT", "local_", "end_", "local_"] ∧
      ∀ name ∈ StubPiece.names (moduleStub tidy stemmed), isScriptName name = true := by
  have hparse : Interface.parse false tidyText = .ok tidy := by decide +kernel
  have hnames : ∀ name ∈ tidy.names, isIdentifier name = true := by decide +kernel
  have hfits : StubFits (stemmed.naming.fillFrom tidy) tidy (moduleBindings tidy stemmed).2 := by
    refine ⟨by decide +kernel, by decide +kernel, by decide +kernel, fun k g hg _ => ?_,
      fun f hf suffix hsuffix => ?_⟩
    · obtain rfl : g = ⟨[⟨"SG_LIMIT", 0⟩]⟩ := by simpa [tidy] using List.mem_of_getElem? hg
      decide +kernel
    · have halone : ∀ f ∈ (moduleBindings tidy stemmed).2.functions,
          f.names.scriptName = (stemmed.naming.fillFrom tidy).functionName f.native ++ "" ∧
            (stemmed.naming.fillFrom tidy).functionFits f.native "" = true := by
        decide +kernel
      obtain ⟨hname, hfits⟩ := halone f hf
      rwa [← (String.append_right_inj _).mp (hname.symm.trans hsuffix)]
  exact ⟨⟨hparse, hnames⟩, by decide +kernel,
    (stub_names_valid_iff hparse (.inl rfl) hnames).2.mpr hfits⟩

/-- An enum whose members tell dimensions. -/
def dimensionText : String :=
  "[[\"enum\",\"sg_image_type\",null,[],[],[[\"SG_IMAGETYPE_2D\"]]]]"

def dimensions : Interface where
  decls := [.enum ⟨"sg_image_type", [⟨"SG_IMAGETYPE_2D", 0⟩]⟩]

/-- What is left of the member begins with a digit, and nobody is told. -/
theorem member_begins_with_digit :
    Interface.parse false dimensionText = .ok dimensions ∧
      stemmed.attachOwnedBuffers dimensions = .ok dimensions ∧
      (∀ name ∈ dimensions.names, isIdentifier name = true) ∧
      (isIdentifier stemmed.naming.module = true ∧ isIdentifier stemmed.naming.stem = true) ∧
      (generate dimensions stemmed).stubs =
        "---@meta\n\n---@class gfx\nlocal gfx = \x7b\x7d\n\n" ++
          "---@enum gfx.ImageType\ngfx.ImageType = \x7b\n    2D = 0,\n\x7d\n\nreturn gfx\n" ∧
      (generate dimensions stemmed).problems = [] ∧
      "2D" ∈ StubPiece.names (moduleStub dimensions stemmed) ∧ isScriptName "2D" = false := by
  exact ⟨by decide +kernel, rfl, by decide +kernel, by decide +kernel, by decide +kernel,
    by decide +kernel, by decide +kernel, by decide +kernel⟩

end LuaGlue
