import LuaGlue.Proofs.Generate.Progress
import Mathlib.Data.List.Flatten

/-!
# A module as it is laid out

What a run leaves behind is a list of pieces, each with the declaration it comes from and its chunk
(`Lays`). A step appends at most one piece (`Lays.step`), so a run lays out a whole module
(`bindAll_laid`): the lists of bindings are read off the pieces, the pieces come from different
declarations, and every struct that stayed bound has one.
-/

set_option autoImplicit false

namespace LuaGlue

/-- A piece, the declaration it comes from, and its chunk. -/
structure Laid where
  position : Nat
  decl : Declaration
  code : Code
  piece : Piece

/-- Two pieces that come from different declarations, which are not met under one name. -/
structure Laid.Before (a b : Laid) : Prop where
  position : a.position < b.position
  tag : ∀ tag, a.decl.tag? = some tag → b.decl.tag? ≠ some tag

/-- The declarations before a position are laid out as these pieces. -/
structure Lays (ctx : Context) (m : Memo) (plan : OverloadPlan) (decls : List Declaration)
    (position : Nat) (p : Progress) (laid : List Laid) : Prop where
  chunks : p.bindings.chunks = laid.map (·.code)
  functions : p.bindings.functions = laid.filterMap (·.piece.function?)
  structs : p.bindings.structs = laid.filterMap (·.piece.struct?)
  enums : p.bindings.enums = laid.filterMap (·.piece.enum?)
  consts : p.bindings.consts = laid.filterMap (·.piece.consts?)
  origin : ∀ l ∈ laid, Origin ctx m plan l.position l.decl l.piece
  outlined : ∀ l ∈ laid, l.code.Outlined ctx.Bound l.piece.outline
  place : ∀ l ∈ laid, l.position < position ∧ decls[l.position]? = some l.decl
  seen : ∀ l ∈ laid, ∀ tag, l.decl.tag? = some tag → tag ∈ p.seen
  apart : laid.Pairwise Laid.Before
  /-- A bound struct whose name was met has a piece, or else an enum has its name. -/
  bound : ∀ tag ∈ p.seen, ctx.isBound tag = true →
    (∃ e, .enum e ∈ decls ∧ e.name = tag) ∨
      ∃ l ∈ laid, ∃ binding fields, l.piece = .struct binding fields ∧ binding.native = tag
  met : ∀ k < position, ∀ s, decls[k]? = some (.struct s) → ctx.isBound s.name = true →
    s.name ∈ p.seen

section

variable {ctx : Context} {m : Memo} {plan : OverloadPlan} {decls : List Declaration} {position : Nat}
  {p p' : Progress} {laid : List Laid}

theorem Lays.start : Lays ctx m plan decls 0 {} [] where
  chunks := rfl
  functions := rfl
  structs := rfl
  enums := rfl
  consts := rfl
  origin := by simp
  outlined := by simp
  place := by simp
  seen := by simp
  apart := .nil
  bound := by simp
  met := by simp

/-- What is said about bound structs when a declaration's name has been met. -/
theorem Lays.bound_met (h : Lays ctx m plan decls position p laid) {laid' : List Laid}
    {d : Declaration} (hd : d ∈ decls) (hmore : ∀ l ∈ laid, l ∈ laid')
    (hown : ∀ s, d = .struct s → ctx.isBound s.name = true → s.name ∈ p.seen ∨
      ∃ l ∈ laid', ∃ binding fields, l.piece = .struct binding fields ∧ binding.native = s.name) :
    ∀ tag ∈ d.tag?.toList ++ p.seen, ctx.isBound tag = true →
      (∃ e, .enum e ∈ decls ∧ e.name = tag) ∨
        ∃ l ∈ laid', ∃ binding fields, l.piece = .struct binding fields ∧ binding.native = tag := by
  have old {tag : String} (htag : tag ∈ p.seen) (hb : ctx.isBound tag = true) :
      (∃ e, .enum e ∈ decls ∧ e.name = tag) ∨
        ∃ l ∈ laid', ∃ binding fields, l.piece = .struct binding fields ∧ binding.native = tag := by
    rcases h.bound tag htag hb with henum | ⟨l, hl, hpiece⟩
    · exact .inl henum
    · exact .inr ⟨l, hmore l hl, hpiece⟩
  intro tag htag hb
  rcases List.mem_append.mp htag with htag | htag
  · cases d with
    | function f => exact absurd htag List.not_mem_nil
    | consts g => exact absurd htag List.not_mem_nil
    | enum e => exact .inl ⟨e, hd, (List.mem_singleton.mp htag).symm⟩
    | struct s =>
      obtain rfl := List.mem_singleton.mp htag
      rcases hown s rfl hb with hseen | hpiece
      · exact old hseen hb
      · exact .inr hpiece
  · exact old htag hb

theorem Lays.step {d : Declaration} (h : Lays ctx m plan decls position p laid)
    (hd : decls[position]? = some d) (hstep : Progress.Step ctx m plan position d p p') :
    ∃ laid', Lays ctx m plan decls (position + 1) p' laid' := by
  have hmem : d ∈ decls := List.mem_of_getElem? hd
  have earlier : ∀ l ∈ laid, l.position < position + 1 ∧ decls[l.position]? = some l.decl :=
    fun l hl => ⟨Nat.lt_succ_of_lt (h.place l hl).1, (h.place l hl).2⟩
  have hmet {seen' : List String} (hwider : ∀ tag ∈ p.seen, tag ∈ seen')
      (hown : ∀ s, d = .struct s → ctx.isBound s.name = true → s.name ∈ seen') :
      ∀ k < position + 1, ∀ s, decls[k]? = some (.struct s) → ctx.isBound s.name = true →
        s.name ∈ seen' := by
    intro k hk s hs hb
    rcases Nat.lt_succ_iff_lt_or_eq.mp hk with hk | rfl
    · exact hwider _ (h.met k hk s hs hb)
    · rw [hd, Option.some.injEq] at hs
      exact hown s hs hb
  cases hstep with
  | @added code piece b' horigin hcode hgains hnew hall =>
    refine ⟨laid ++ [⟨position, d, code, piece⟩], ?_⟩
    refine
      { chunks := ?_, functions := ?_, structs := ?_, enums := ?_, consts := ?_, origin := ?_,
        outlined := ?_, place := ?_, seen := ?_, apart := ?_, bound := ?_, met := ?_ }
    · rw [hgains.chunks, h.chunks, List.map_append]
      rfl
    · rw [hgains.functions, h.functions, List.filterMap_append]
      cases piece <;> rfl
    · rw [hgains.structs, h.structs, List.filterMap_append]
      cases piece <;> rfl
    · rw [hgains.enums, h.enums, List.filterMap_append]
      cases piece <;> rfl
    · rw [hgains.consts, h.consts, List.filterMap_append]
      cases piece <;> rfl
    · exact List.forall_mem_append.mpr ⟨h.origin, by simpa using horigin⟩
    · exact List.forall_mem_append.mpr ⟨h.outlined, by simpa using hcode⟩
    · exact List.forall_mem_append.mpr ⟨earlier, by simpa using hd⟩
    · refine List.forall_mem_append.mpr ⟨fun l hl tag htag => ?_, ?_⟩
      · exact List.mem_append_right _ (h.seen l hl tag htag)
      · intro l hl tag htag
        rw [List.mem_singleton.mp hl] at htag
        exact List.mem_append_left _ (by rw [htag]; exact List.mem_singleton.mpr rfl)
    · refine List.pairwise_append.mpr ⟨h.apart, List.pairwise_singleton _ _, fun l hl l' hl' => ?_⟩
      rw [List.mem_singleton.mp hl']
      exact ⟨(h.place l hl).1, fun tag htag htag' => hnew tag htag' (h.seen l hl tag htag)⟩
    · refine h.bound_met hmem (fun l hl => List.mem_append_left _ hl) fun s hs hb => .inr ?_
      subst hs
      -- its piece is the one just added
      refine ⟨⟨position, .struct s, code, piece⟩, by simp, ?_⟩
      cases horigin with
      | struct hnative hmade => exact ⟨_, _, rfl, hnative⟩
      | comment => exact absurd rfl (hall hb)
    · refine hmet (fun tag htag => List.mem_append_right _ htag) fun s hs _ => ?_
      subst hs
      exact List.mem_cons_self
  | @passed seen' hseen hall =>
    have hwider : ∀ tag ∈ p.seen, tag ∈ seen' := by
      intro tag htag
      rcases hseen with rfl | rfl
      · exact htag
      · exact List.mem_append_right _ htag
    have hknown : ∀ s, d = .struct s → ctx.isBound s.name = true →
        s.name ∈ p.seen ∧ s.name ∈ seen' := by
      rintro s rfl hb
      exact hall hb _ rfl
    refine ⟨laid, h.chunks, h.functions, h.structs, h.enums, h.consts, h.origin, h.outlined, earlier,
      fun l hl tag htag => hwider _ (h.seen l hl tag htag), h.apart, ?_, ?_⟩
    · rcases hseen with rfl | rfl
      · exact h.bound
      · exact h.bound_met hmem (fun _ hl => hl) fun s hs hb => .inl (hknown s hs hb).1
    · exact hmet hwider fun s hs hb => (hknown s hs hb).2

theorem Lays.run {rest : List Declaration} (hrun : Progress.Run ctx m plan position rest p p')
    (h : Lays ctx m plan decls position p laid)
    (hrest : ∀ k, rest[k]? = decls[position + k]?) :
    ∃ laid', Lays ctx m plan decls (position + rest.length) p' laid' := by
  induction hrun generalizing laid with
  | nil => exact ⟨laid, h⟩
  | @cons position d rest p p₁ p' step run ih =>
    obtain ⟨laid₁, h₁⟩ := h.step (by simpa using (hrest 0).symm) step
    obtain ⟨laid', h'⟩ := ih h₁ fun k => by
      rw [show position + 1 + k = position + (k + 1) by omega, ← hrest, List.getElem?_cons_succ]
    refine ⟨laid', ?_⟩
    rwa [List.length_cons, Nat.add_comm rest.length, ← Nat.add_assoc]

end

/-! ## The context -/

theorem findBound_declared {index : TypeIndex} {manifest : Manifest} :
    ∀ {structs : List StructDecl} {bound : List String} {m m' : Memo},
      (Context.findBound index manifest structs).run m = (bound, m') →
      ∀ name ∈ bound, ∃ s ∈ structs, s.name = name := by
  intro structs
  induction structs with
  | nil =>
    intro bound m m' h name hname
    obtain ⟨rfl, -⟩ := Classifying.run_pure_eq.mp h
    exact absurd hname List.not_mem_nil
  | cons s rest ih =>
    intro bound m m' h name hname
    have later {bound : List String} {m₁ : Memo}
        (h : (Context.findBound index manifest rest).run m₁ = (bound, m')) (hname : name ∈ bound) :
        ∃ s' ∈ s :: rest, s'.name = name := by
      obtain ⟨s', hs', heq⟩ := ih h name hname
      exact ⟨s', List.mem_cons_of_mem _ hs', heq⟩
    have taking {m₁ : Memo} (h : (do return s.name :: (← Context.findBound index manifest rest) :
        Classifying (List String)).run m₁ = (bound, m')) : ∃ s' ∈ s :: rest, s'.name = name := by
      obtain ⟨others, m₂, hothers, hreturn⟩ := Classifying.run_bind_eq.mp h
      obtain ⟨rfl, rfl⟩ := Classifying.run_pure_eq.mp hreturn
      rcases List.mem_cons.mp hname with rfl | hname
      · exact ⟨s, List.mem_cons_self, rfl⟩
      · exact later hothers hname
    unfold Context.findBound at h
    split at h
    · exact later h hname
    · obtain ⟨c, m₁, -, h₁⟩ := Classifying.run_bind_eq.mp h
      split at h₁
      · exact taking h₁
      · exact taking h₁
      · exact later h₁ hname

/-- The context of an interface under a manifest knows both, and binds only structs it declares. -/
theorem contextBuild_spec {i : Interface} {manifest : Manifest} {ctx : Context} {m m' : Memo}
    (h : (Context.build i manifest).run m = (ctx, m')) :
    ctx.interface = i ∧ ctx.manifest = manifest ∧
      ∀ name, ctx.isBound name = true → ∃ s ∈ i.structs, s.name = name := by
  obtain ⟨bound, m₁, hbound, hreturn⟩ := Classifying.run_bind_eq.mp h
  obtain ⟨rfl, -⟩ := Classifying.run_pure_eq.mp hreturn
  exact ⟨rfl, rfl, fun name hname => findBound_declared hbound name (List.contains_iff_mem.mp hname)⟩

/-! ## The whole run -/

/-- What a run leaves behind, laid out. -/
structure LaidOut (i : Interface) (manifest : Manifest) (ctx : Context) (slots : List CallbackSlot)
    (b : Bindings) (m : Memo) (plan : OverloadPlan) (seen : List String) (laid : List Laid) : Prop where
  interface_eq : ctx.interface = i
  manifest_eq : ctx.manifest = manifest
  declared : ∀ name, ctx.isBound name = true → ∃ s ∈ i.structs, s.name = name
  lays : Lays ctx m plan i.decls i.decls.length ⟨b, seen⟩ laid
  plan : ∃ m', (OverloadPlan.build ctx (candidates manifest i.decls)).run m = (plan, m')
  slots_mem : ∀ s ∈ i.structs, ctx.isBound s.name = true → ∀ f ∈ s.fields, ∀ c,
    m.find? f.type = some c → c.isBindable = true → f.asSlot s.name ∈ slots

section

variable {i : Interface} {manifest : Manifest} {ctx : Context} {slots : List CallbackSlot}
  {b : Bindings} {m : Memo} {plan : OverloadPlan} {seen : List String} {laid : List Laid}

theorem LaidOut.functions_eq (h : LaidOut i manifest ctx slots b m plan seen laid) :
    b.functions = laid.filterMap (·.piece.function?) := h.lays.functions

theorem LaidOut.mem_functions (h : LaidOut i manifest ctx slots b m plan seen laid)
    {f : FunctionBinding} : f ∈ b.functions ↔ ∃ l ∈ laid, l.piece = .function f := by
  simp only [h.functions_eq, List.mem_filterMap, Piece.function?_eq]

theorem LaidOut.mem_structs (h : LaidOut i manifest ctx slots b m plan seen laid)
    {s : StructBinding} : s ∈ b.structs ↔ ∃ l ∈ laid, ∃ fields, l.piece = .struct s fields := by
  rw [show b.structs = _ from h.lays.structs]
  simp only [List.mem_filterMap, Piece.struct?_eq]

theorem LaidOut.mem_enums (h : LaidOut i manifest ctx slots b m plan seen laid) {e : EnumBinding} :
    e ∈ b.enums ↔ ∃ l ∈ laid, l.piece = .enum e := by
  rw [show b.enums = _ from h.lays.enums]
  simp only [List.mem_filterMap, Piece.enum?_eq]

theorem LaidOut.mem_consts (h : LaidOut i manifest ctx slots b m plan seen laid) {c : ConstBinding} :
    c ∈ b.consts ↔ ∃ l ∈ laid, l.piece = .consts c := by
  rw [show b.consts = _ from h.lays.consts]
  simp only [List.mem_filterMap, Piece.consts?_eq]

theorem LaidOut.made (h : LaidOut i manifest ctx slots b m plan seen laid) {l : Laid} (hl : l ∈ laid)
    {s : StructBinding} {fields : List Accessor} (hpiece : l.piece = .struct s fields) :
    StructMade ctx m s fields := by
  have horigin := h.lays.origin l hl
  rw [hpiece] at horigin
  exact horigin.made

theorem LaidOut.slot_mem (h : LaidOut i manifest ctx slots b m plan seen laid)
    {s : StructBinding} {fields : List Accessor} (hmade : StructMade ctx m s fields) {a : Accessor}
    (ha : a ∈ fields) (hcallback : a.access = .callback) : ⟨s.native, a.key⟩ ∈ slots := by
  obtain ⟨decl, hdecl, hname, m₀, m₁, hlisted, hgrows⟩ := hmade.listed
  obtain ⟨f, hf, hkey, c, hc, hbindable⟩ := accessors_callback hlisted a ha hcallback
  rw [h.interface_eq] at hdecl
  have hb : ctx.isBound decl.name = true := by
    rw [hname]
    exact hmade.bound
  have hslot := h.slots_mem decl hdecl hb f hf c (hgrows _ _ hc) hbindable
  rwa [Field.asSlot, hname, ← hkey] at hslot

end

/-- **Every run lays out a module.** -/
theorem bindAll_laid {i : Interface} {manifest : Manifest} {ctx : Context}
    {slots : List CallbackSlot} {b : Bindings} {m m' : Memo}
    (h : (bindAll i manifest).run m = ((ctx, slots, b), m')) :
    ∃ M plan seen laid, LaidOut i manifest ctx slots b M plan seen laid := by
  obtain ⟨initial, m₁, hbuild, h₁⟩ := Classifying.run_bind_eq.mp h
  obtain ⟨⟨ctx, settled⟩, m₂, hsettle, h₂⟩ := Classifying.run_bind_eq.mp h₁
  obtain ⟨plan, m₃, hplan, h₃⟩ := Classifying.run_bind_eq.mp h₂
  obtain ⟨slots, m₄, hslots, h₄⟩ := Classifying.run_bind_eq.mp h₃
  obtain ⟨⟨b, seen⟩, m₅, hdecls, hreturn⟩ := Classifying.run_bind_eq.mp h₄
  obtain ⟨heq, -⟩ := Classifying.run_pure_eq.mp hreturn
  cases heq
  obtain ⟨hinterface, hmanifest, hdeclared⟩ := contextBuild_spec hbuild
  obtain ⟨narrows, hsettled⟩ := settle_settled hsettle
  obtain ⟨-, hmem⟩ := collectSlots_spec hslots
  have hinterface' : ctx.interface = i := by
    rw [← hinterface, ← narrows.same]
  have hmanifest' : ctx.manifest = manifest := by
    rw [← hmanifest, ← narrows.same]
  -- pieces speak of the memo as it was once the structs were settled, which later ones extend
  have hrun : Progress.Run ctx m₂ plan 0 i.decls {} ⟨b, seen⟩ := by
    refine addDecls_run hsettled (fun d hd s hs => ?_) hdecls
    rw [hinterface']
    exact List.mem_filterMap.mpr ⟨d, hd, by rw [hs]⟩
  have hstart : Lays ctx m₂ plan i.decls 0 {} [] := .start
  obtain ⟨laid, hlaid⟩ := hstart.run hrun fun k => by rw [Nat.zero_add]
  rw [Nat.zero_add] at hlaid
  refine ⟨m₂, plan, seen, laid, hinterface', hmanifest', ?_, hlaid, ⟨m₃, hplan⟩, ?_⟩
  · exact fun name hname => hdeclared name (narrows.bound name hname)
  · intro s hs hb f hf c hc hbindable
    have hwritten := hsettled.all s (by rwa [hinterface']) hb
    obtain ⟨entry, hentry⟩ := lookup_isSome hwritten
    have hbound : s ∈ i.structs.filter fun s => (settled.written.lookup s.name).isSome := by
      rw [List.mem_filter, hentry]
      exact ⟨hs, rfl⟩
    have hgrows := (OverloadPlan.build_grows ctx _).of_run hplan
    exact hmem s hbound f hf c (hgrows _ _ hc) hbindable

end LuaGlue
