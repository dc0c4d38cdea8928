import LuaGlue.Proofs.Generate.Definitions

/-!
# Generated code is closed

Whatever a generated file refers to stands in the same file, before the reference: a struct that was
dropped is referred to nowhere, and a struct that is referred to was not dropped. The argument goes
through the sections in order, with what each of them may refer to (`LaidOut.resolves`).
-/

set_option autoImplicit false

namespace LuaGlue

/-! ## The outline of a struct resolves -/

section

variable {known : Known} {struct : String} {as : List Accessor}

theorem poolOutline_resolves {owner field : String} (hslot : known (.slot owner field)) :
    Resolves known (poolOutline owner field) := by
  unfold poolOutline tableOutline
  refine resolves_append.mpr ⟨trivial, resolves_append.mpr ⟨.flatMap fun entry _ => ?_, ?_⟩⟩
  · have hdispatcher : known.after [.defines (.dispatcher owner field)] (.dispatcher owner field) :=
      Known.after_of_defined (List.mem_singleton.mpr rfl)
    exact ⟨.inl hdispatcher, .inl (.inl hslot), trivial⟩
  · refine resolves_refers.mpr fun entry hentry => .inl (.inl (Known.after_of_defined ?_))
    exact List.mem_flatMap.mpr ⟨entry, hentry, List.mem_cons_self⟩

theorem fieldOutline_resolves (a : Accessor)
    (hcallback : a.access = .callback →
      known (.slot struct a.key) ∧ known (.trampolineTable struct a.key)) :
    Resolves known (a.getterOutline struct ++ a.setterOutline struct) := by
  refine resolves_append.mpr ⟨?_, ?_⟩
  · unfold Accessor.getterOutline
    split <;> trivial
  · unfold Accessor.setterOutline
    split
    · by_cases ha : a.access = .callback
      · rw [if_pos (by simpa using ha)]
        obtain ⟨hslot, htable⟩ := hcallback ha
        exact ⟨.inl (.inl hslot), .inl (.inl htable), trivial⟩
      · rw [if_neg (by simpa using ha)]
        trivial
    · trivial

theorem dispatchOutline_resolves
    (hgetter : ∀ a ∈ as, a.readable = true → known (.getter struct a.key))
    (hsetter : ∀ a ∈ as, a.writable = true → known (.setter struct a.key)) :
    Resolves known (dispatchOutline struct as) := by
  have setters {known' : Known} (hk : ∀ s, known s → known' s) :
      Resolves known' (setterCalls struct as) := by
    refine resolves_refers.mpr fun a ha => hk _ ?_
    obtain ⟨ha, hw⟩ := List.mem_filter.mp ha
    exact hsetter a ha hw
  have getters {known' : Known} (hk : ∀ s, known s → known' s) :
      Resolves known' (getterCalls struct as) := by
    refine resolves_refers.mpr fun a ha => hk _ ?_
    obtain ⟨ha, hr⟩ := List.mem_filter.mp ha
    exact hgetter a ha hr
  unfold dispatchOutline
  refine resolves_append.mpr ⟨setters fun _ => .inl, ?_⟩
  refine resolves_append.mpr ⟨⟨.inl (Known.after_of_defined List.mem_cons_self), trivial⟩, ?_⟩
  refine resolves_append.mpr ⟨getters fun _ h => .inl (.inl (.inl h)), ?_⟩
  refine resolves_append.mpr ⟨setters fun _ h => .inl (.inl (.inl (.inl h))), ?_⟩
  split <;> trivial

theorem structOutline_resolves
    (hslot : ∀ a ∈ as, a.access = .callback → known (.slot struct a.key)) :
    Resolves known (structOutline struct as) := by
  unfold structOutline
  refine resolves_append.mpr ⟨.flatMap fun a ha => ?_, resolves_append.mpr ⟨.flatMap fun a ha => ?_, ?_⟩⟩
  · obtain ⟨ha, hcallback⟩ := List.mem_filter.mp ha
    exact poolOutline_resolves (hslot a ha (by simpa using hcallback))
  · refine fieldOutline_resolves a fun hcallback => ⟨.inl (hslot a ha hcallback), ?_⟩
    refine Known.after_of_defined (List.mem_flatMap.mpr ⟨a, ?_, ?_⟩)
    · exact List.mem_filter.mpr ⟨ha, by simpa using hcallback⟩
    · simp [poolOutline, tableOutline]
  · refine dispatchOutline_resolves (fun a ha hr => ?_) (fun a ha hw => ?_)
    · refine Known.after_of_defined (List.mem_flatMap.mpr ⟨a, ha, List.mem_append_left _ ?_⟩)
      simp [Accessor.getterOutline, hr]
    · refine Known.after_of_defined (List.mem_flatMap.mpr ⟨a, ha, List.mem_append_right _ ?_⟩)
      simp [Accessor.setterOutline, hw]

end

/-! ## The file resolves -/

section

variable {i : Interface} {manifest : Manifest} {ctx : Context} {slots : List CallbackSlot}
  {b : Bindings} {m : Memo} {plan : OverloadPlan} {seen : List String} {laid : List Laid}

/-- A bound struct is among those that were written. -/
theorem LaidOut.bound_written (h : LaidOut i manifest ctx slots b m plan seen laid)
    (hi : ∀ s ∈ i.structs, ∀ e ∈ i.enums, s.name ≠ e.name) {name : String}
    (hb : ctx.isBound name = true) : ∃ s ∈ b.structs, s.native = name := by
  obtain ⟨s, hs, rfl⟩ := h.declared name hb
  obtain ⟨d, hd, hsd⟩ := List.mem_filterMap.mp hs
  have hdecl : .struct s ∈ i.decls := by
    cases d <;> simp at hsd
    rwa [← hsd]
  obtain ⟨k, hk⟩ := List.mem_iff_getElem?.mp hdecl
  have hlt : k < i.decls.length := (List.getElem?_eq_some_iff.mp hk).1
  have hseen := h.lays.met k hlt s hk hb
  rcases h.lays.bound s.name hseen hb with ⟨e, he, heq⟩ | ⟨l, hl, binding, fields, hpiece, hname⟩
  · -- an enum of that name would have kept the struct from being written
    have he' : e ∈ i.enums := List.mem_filterMap.mpr ⟨_, he, rfl⟩
    exact absurd heq.symm (hi s hs e he')
  · exact ⟨binding, h.mem_structs.mpr ⟨l, hl, fields, hpiece⟩, hname⟩

theorem LaidOut.chunks_defines (h : LaidOut i manifest ctx slots b m plan seen laid) {l : Laid}
    (hl : l ∈ laid) {p : Piece} (hpiece : l.piece = p) {x : Symbol} (hx : x ∈ p.defined) :
    .defines x ∈ b.chunks.flatMap Code.mentions := by
  rw [← mem_filterMap_defined, h.chunks_defined]
  rw [← hpiece] at hx
  exact List.mem_flatMap.mpr ⟨l, hl, hx⟩

theorem LaidOut.struct_defines (h : LaidOut i manifest ctx slots b m plan seen laid)
    {s : StructBinding} (hs : s ∈ b.structs) {x : Symbol} (hx : x ∈ s.defined) :
    .defines x ∈ b.chunks.flatMap Code.mentions := by
  obtain ⟨l, hl, hx⟩ := h.struct_defined hs hx
  exact h.chunks_defines hl rfl hx

theorem LaidOut.function_defines (h : LaidOut i manifest ctx slots b m plan seen laid)
    {f : FunctionBinding} (hf : f ∈ b.functions) :
    .defines (.wrapper f.names.cName) ∈ b.chunks.flatMap Code.mentions := by
  obtain ⟨l, hl, hpiece⟩ := h.mem_functions.mp hf
  exact h.chunks_defines hl hpiece (List.mem_singleton.mpr rfl)

theorem LaidOut.enum_defines (h : LaidOut i manifest ctx slots b m plan seen laid)
    {e : EnumBinding} (he : e ∈ b.enums) :
    .defines e.registrar ∈ b.chunks.flatMap Code.mentions := by
  obtain ⟨l, hl, hpiece⟩ := h.mem_enums.mp he
  exact h.chunks_defines hl hpiece (List.mem_singleton.mpr rfl)

theorem LaidOut.consts_defines (h : LaidOut i manifest ctx slots b m plan seen laid)
    {c : ConstBinding} (hc : c ∈ b.consts) :
    .defines c.registrar ∈ b.chunks.flatMap Code.mentions := by
  obtain ⟨l, hl, hpiece⟩ := h.mem_consts.mp hc
  exact h.chunks_defines hl hpiece (List.mem_singleton.mpr rfl)

end

/-! ## The sections resolve -/

section

variable {ctx : Context} {slots : List CallbackSlot} {b : Bindings} {known : Known}

theorem chunks_resolve {i : Interface} {manifest : Manifest} {m : Memo} {plan : OverloadPlan}
    {seen : List String} {laid : List Laid} (h : LaidOut i manifest ctx slots b m plan seen laid)
    (hconverter : ∀ name, ctx.isBound name = true → known (.converter name))
    (hslot : ∀ s ∈ slots, known s.symbol) : Resolves known (b.chunks.flatMap Code.mentions) := by
  rw [show b.chunks = _ from h.lays.chunks, List.flatMap_map]
  refine .flatMap fun l hl => (h.lays.outlined l hl).resolves hconverter ?_
  cases hp : l.piece with
  | struct binding fields =>
    exact structOutline_resolves fun a ha hcallback =>
      hslot _ (h.slot_mem (h.made hl hp) ha hcallback)
  | function f => trivial
  | enum e => trivial
  | consts c => trivial
  | comment => trivial

theorem metatables_resolve {structs : List StructBinding}
    (hindexer : ∀ s ∈ structs, known (.indexer s.native))
    (hnewIndexer : ∀ s ∈ structs, known (.newIndexer s.native))
    (hcollector : ∀ s ∈ structs, s.hasCollector = true → known (.collector s.native)) :
    Resolves known (metatablesOutline structs) := by
  unfold metatablesOutline
  split
  · trivial
  · refine .flatMap fun s hs => resolves_append.mpr ⟨⟨?_, ?_, trivial⟩, ?_⟩
    · exact .inl (hindexer s hs)
    · exact .inl (hnewIndexer s hs)
    · split
      · rename_i h
        exact ⟨.inl (.inl (hcollector s hs h)), trivial⟩
      · trivial

theorem registration_resolves
    (hfunction : ∀ f ∈ b.functions, known (.wrapper f.names.cName))
    (hstruct : ∀ s ∈ b.structs, known (.constructor s.native)) :
    Resolves known (registrationCode ctx b).mentions := by
  rw [registrationCode_mentions]
  refine resolves_append.mpr ⟨.of_not_refers (by simp), resolves_refers.mpr fun f hf => .inl ?_⟩
  rcases List.mem_append.mp hf with hf | hf
  · obtain ⟨binding, hbinding, hf⟩ := List.mem_flatMap.mp hf
    obtain ⟨name, -, rfl⟩ := List.mem_map.mp hf
    exact .inl (hfunction binding hbinding)
  · rcases List.mem_append.mp hf with hf | hf
    · obtain ⟨s, hs, rfl⟩ := List.mem_map.mp hf
      exact .inl (hstruct s hs)
    · -- a function written by hand was declared at the beginning of the section
      obtain ⟨e, he, rfl⟩ := List.mem_map.mp hf
      exact Known.after_of_declared (List.mem_map.mpr ⟨e, he, rfl⟩)

theorem entryPoint_resolves (hmetatables : b.structs.isEmpty = false → known .metatableRegistrar)
    (htable : known .functionTable) (henum : ∀ e ∈ b.enums, known e.registrar)
    (hconsts : ∀ c ∈ b.consts, known c.registrar) :
    Resolves known (entryPointCode ctx b).mentions := by
  rw [entryPointCode_mentions]
  refine resolves_refers.mpr fun f hf => .inl ?_
  rcases List.mem_append.mp hf with hf | hf
  · split at hf
    · exact absurd hf List.not_mem_nil
    · rename_i hne
      rw [List.mem_singleton.mp hf]
      exact hmetatables (by simpa using hne)
  · rcases List.mem_cons.mp hf with rfl | hf
    · exact htable
    · rcases List.mem_append.mp hf with hf | hf
      · obtain ⟨e, he, rfl⟩ := List.mem_map.mp hf
        exact henum e he
      · obtain ⟨c, hc, rfl⟩ := List.mem_map.mp hf
        exact hconsts c hc

end

/-! ## The file -/

section

variable {i : Interface} {manifest : Manifest} {ctx : Context} {slots : List CallbackSlot}
  {b : Bindings} {m : Memo} {plan : OverloadPlan} {seen : List String} {laid : List Laid}

/-- Every section refers to what stands before it. -/
theorem LaidOut.resolves (h : LaidOut i manifest ctx slots b m plan seen laid)
    (hi : ∀ s ∈ i.structs, ∀ e ∈ i.enums, s.name ≠ e.name) :
    Resolves (fun _ => False) (cFile ctx slots b).mentions := by
  rw [cFile_mentions]
  refine resolves_append.mpr ⟨.of_not_refers (by simp [prototypeOutline]), ?_⟩
  refine resolves_append.mpr ⟨.of_not_refers (by simp), ?_⟩
  have hprototype : ∀ s ∈ b.structs, ∀ f ∈ [Symbol.constructor s.native, .converter s.native],
      Known.after (fun _ => False) (b.structs.flatMap prototypeOutline) f := by
    intro s hs f hf
    refine Known.after_of_declared (List.mem_flatMap.mpr ⟨s, hs, ?_⟩)
    simpa [prototypeOutline] using hf
  refine resolves_append.mpr ⟨chunks_resolve h (fun name hb => .inl ?_) (fun s hs => ?_), ?_⟩
  · obtain ⟨s, hs, rfl⟩ := h.bound_written hi hb
    exact hprototype s hs _ (by simp)
  · exact Known.after_of_defined (List.mem_map.mpr ⟨s, hs, rfl⟩)
  refine resolves_append.mpr ⟨metatables_resolve ?_ ?_ ?_, resolves_append.mpr
    ⟨registration_resolves ?_ ?_, entryPoint_resolves ?_ ?_ ?_ ?_⟩⟩
  · exact fun s hs =>
      Known.after_of_defined (h.struct_defines hs (mem_wholeDefined.mpr (by simp)))
  · exact fun s hs =>
      Known.after_of_defined (h.struct_defines hs (mem_wholeDefined.mpr (by simp)))
  · exact fun s hs hc =>
      Known.after_of_defined (h.struct_defines hs (mem_wholeDefined.mpr (by simp [hc])))
  · exact fun f hf => .inl (Known.after_of_defined (h.function_defines hf))
  · exact fun s hs => .inl (.inl (.inl (hprototype s hs _ (by simp))))
  · intro hne
    refine .inl (Known.after_of_defined ?_)
    rw [metatablesOutline, if_neg (by simp [hne])]
    exact List.mem_cons_self
  · refine Known.after_of_defined ?_
    rw [registrationCode_mentions]
    exact List.mem_append_right _ List.mem_cons_self
  · exact fun e he => .inl (.inl (Known.after_of_defined (h.enum_defines he)))
  · exact fun c hc => .inl (.inl (Known.after_of_defined (h.consts_defines hc)))

/-- A function someone wrote by hand. -/
def Symbol.isHandWritten : Symbol → Bool
  | .handWritten _ => true
  | _ => false

/-- Pieces define; declaring is left to the prototypes. -/
theorem Piece.outline_declares_not (p : Piece) (f : Symbol) : .declares f ∉ p.outline := by
  have hgetter (struct : String) (a : Accessor) : .declares f ∉ a.getterOutline struct := by
    unfold Accessor.getterOutline
    split <;> simp
  have hsetter (struct : String) (a : Accessor) : .declares f ∉ a.setterOutline struct := by
    unfold Accessor.setterOutline
    split
    · split <;> simp
    · simp
  cases p with
  | struct s fields =>
    simp only [outline, structOutline, poolOutline, tableOutline, trampolineOutline, dispatchOutline,
      setterCalls, getterCalls, List.mem_append, List.mem_flatMap, List.mem_cons, List.mem_map,
      List.not_mem_nil, reduceCtorEq, hgetter, hsetter, or_false, and_false, exists_false, false_or]
    split <;> simp
  | _ => simp [outline]

/-- What is only declared is written by hand. -/
theorem LaidOut.declares_defines (h : LaidOut i manifest ctx slots b m plan seen laid) {f : Symbol}
    (hf : .declares f ∈ (cFile ctx slots b).mentions) (hhand : f.isHandWritten = false) :
    .defines f ∈ (cFile ctx slots b).mentions := by
  rw [cFile_mentions] at hf ⊢
  rcases List.mem_append.mp hf with hf | hf
  · -- a prototype, whose function is defined among the chunks
    obtain ⟨s, hs, hf⟩ := List.mem_flatMap.mp hf
    simp only [prototypeOutline, List.mem_cons, List.not_mem_nil, or_false,
      Mention.declares.injEq] at hf
    refine List.mem_append_right _ (List.mem_append_right _ (List.mem_append_left _ ?_))
    refine h.struct_defines hs (mem_wholeDefined.mpr ?_)
    rcases hf with rfl | rfl <;> simp
  rcases List.mem_append.mp hf with hf | hf
  · exact absurd hf (by simp)
  rcases List.mem_append.mp hf with hf | hf
  · rw [show b.chunks = _ from h.lays.chunks, List.flatMap_map] at hf
    obtain ⟨l, hl, hf⟩ := List.mem_flatMap.mp hf
    rcases (h.lays.outlined l hl).mem_or hf with hf | hf
    · exact absurd hf (l.piece.outline_declares_not f)
    · exact absurd hf (by simp [Mention.isConversion])
  rcases List.mem_append.mp hf with hf | hf
  · unfold metatablesOutline metatableOutline at hf
    split at hf
    · exact absurd hf List.not_mem_nil
    · simp only [List.mem_cons, reduceCtorEq, List.mem_flatMap, List.mem_append, List.not_mem_nil,
        or_false, false_or] at hf
      obtain ⟨s, -, hf⟩ := hf
      split at hf <;> simp at hf
  rw [registrationCode_mentions, entryPointCode_mentions] at hf
  simp only [List.mem_append, List.mem_map, Mention.declares.injEq, List.mem_cons, reduceCtorEq,
    and_false, exists_false, or_false] at hf
  obtain ⟨e, -, rfl⟩ := hf
  exact absurd hhand (by simp [Symbol.isHandWritten])

end

/-- The C file that is generated. -/
def moduleFile (i : Interface) (m : Manifest) : Code :=
  let (ctx, slots, b) := Classifying.fresh (bindAll i m)
  cFile ctx slots b

/-- **Generated code is closed**, whatever structs had to be dropped: what it refers to was declared or
defined before, and is defined in the file unless someone wrote it by hand. Structs and enums have
different names, as tags have in C. -/
theorem generated_code_closed (i : Interface) (m : Manifest)
    (hi : ∀ s ∈ i.structs, ∀ e ∈ i.enums, s.name ≠ e.name) :
    (generate i m).code = (moduleFile i m).text ∧
      ∀ before f later, (moduleFile i m).mentions = before ++ .refers f :: later →
        (.declares f ∈ before ∨ .defines f ∈ before) ∧
          (f.isHandWritten = false → .defines f ∈ (moduleFile i m).mentions) := by
  refine ⟨rfl, fun before f later heq => ?_⟩
  unfold moduleFile at heq ⊢
  rcases hrun : (bindAll i m).run {} with ⟨⟨ctx, slots, b⟩, m'⟩
  have hfresh : Classifying.fresh (bindAll i m) = (ctx, slots, b) := congrArg Prod.fst hrun
  rw [hfresh] at heq ⊢
  dsimp only at heq ⊢
  obtain ⟨M, plan, seen, laid, hlaid⟩ := bindAll_laid hrun
  have hbefore := resolves_iff.mp (hlaid.resolves hi) before f later heq
  have hintroduced : .declares f ∈ before ∨ .defines f ∈ before := by
    obtain ⟨x, hx, hf⟩ := List.mem_filterMap.mp (hbefore.resolve_left id)
    cases x with
    | refers _ => exact absurd hf (by simp [Mention.introduced?])
    | declares _ => exact .inl (Option.some.inj hf ▸ hx)
    | defines _ => exact .inr (Option.some.inj hf ▸ hx)
  refine ⟨hintroduced, fun hhand => ?_⟩
  have hsub : ∀ x ∈ before, x ∈ (cFile ctx slots b).mentions := by
    intro x hx
    rw [heq]
    exact List.mem_append_left _ hx
  rcases hintroduced with hf | hf
  · exact hlaid.declares_defines (hsub _ hf) hhand
  · exact hsub _ hf

/-- A struct that can be bound, one that cannot, and a function that takes both. -/
def waveInterface : Interface where
  decls :=
    [.struct ⟨"Wave", [⟨"gain", "float"⟩, ⟨"done", "void (*)(int)"⟩], []⟩,
     .struct ⟨"Hollow", [⟨"hole", "void"⟩], []⟩,
     .enum ⟨"Mode", [⟨"MODE_ON", 1⟩]⟩,
     .function
      { name := "play", type := "void (Wave, Hollow)", returnType := "void"
        params := [⟨"wave", "Wave", false, false, false⟩, ⟨"hollow", "Hollow", false, false, false⟩]
        variadic := false }]

/-- The struct that can be bound is referred to, the one that was dropped is not. -/
theorem generated_code_closed_wave :
    (∀ s ∈ waveInterface.structs, ∀ e ∈ waveInterface.enums, s.name ≠ e.name) ∧
      .refers (.converter "Wave") ∈ (moduleFile waveInterface {}).mentions ∧
      .refers (.converter "Hollow") ∉ (moduleFile waveInterface {}).mentions ∧
      (generate waveInterface {}).code = (moduleFile waveInterface {}).text ∧
      ∀ before f later, (moduleFile waveInterface {}).mentions = before ++ .refers f :: later →
        (.declares f ∈ before ∨ .defines f ∈ before) ∧
          (f.isHandWritten = false → .defines f ∈ (moduleFile waveInterface {}).mentions) := by
  have hnames : ∀ s ∈ waveInterface.structs, ∀ e ∈ waveInterface.enums, s.name ≠ e.name := by
    decide
  have hrefers : (moduleFile waveInterface {}).mentions.contains (.refers (.converter "Wave")) = true ∧
      (moduleFile waveInterface {}).mentions.contains (.refers (.converter "Hollow")) = false := by
    decide +kernel
  refine ⟨hnames, List.contains_iff_mem.mp hrefers.1, fun hmem => ?_,
    generated_code_closed waveInterface {} hnames⟩
  rw [List.contains_iff_mem.mpr hmem] at hrefers
  exact absurd hrefers.2 (by simp)

end LuaGlue
