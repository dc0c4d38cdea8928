import LuaGlue.Interface.Load
import LuaGlue.Proofs.Generate.Closed

/-!
# Names at file scope

The plan checks the names that scripts see, and no scheme of naming checks another. So the names of the
bindings in a file may clash; `binding_names_nodup_iff` says exactly when. Overloads of one native
function, the functions of structs, converters, registrars, and all that belongs to the pools of
callbacks with different slots never clash; what has to be asked of an interface is `NamesApart`.
-/

set_option autoImplicit false

namespace LuaGlue

/-- The bindings that a text defines: what stands once in every file is left out. -/
def Code.bindings (code : Code) : List Symbol := code.defined.filter Symbol.isBinding

/-- What keeps names apart: of a file with these slots, bindings and defined names. -/
structure NamesApart (slots : List CallbackSlot) (b : Bindings) (names : List Symbol) : Prop where
  /-- Functions of different native names. -/
  functions : b.functions.Pairwise fun f g => f.native ≠ g.native → f.names.cName ≠ g.names.cName
  /-- No wrapper is named like a function that is made for a struct. -/
  methods : ∀ f ∈ b.functions, ∀ s ∈ b.structs, ∀ x ∈ s.defined, f.names.cName ≠ x.spelling
  /-- Owners and fields of callbacks stay different when they are glued together. -/
  pools : (slots.map CallbackSlot.glued).Nodup
  accessors : ((names.filter Symbol.isAccessor).map Symbol.spelling).Nodup
  /-- No getter or setter is named like a converter, like part of a pool, or like an enum's registrar. -/
  helpers : ∀ x ∈ names, x.isAccessor = true → ∀ y ∈ names, y.isHelper = true →
    x.spelling ≠ y.spelling

section

variable {i : Interface} {manifest : Manifest} {ctx : Context} {slots : List CallbackSlot}
  {b : Bindings} {m : Memo} {plan : OverloadPlan} {seen : List String} {laid : List Laid}

theorem LaidOut.mem_bindings (h : LaidOut i manifest ctx slots b m plan seen laid) {x : Symbol} :
    x ∈ (cFile ctx slots b).bindings ↔ x ∈ definitions slots laid ∧ x.isBinding = true := by
  rw [Code.bindings, h.file_defined, List.mem_filter]

theorem LaidOut.bindings_begin (h : LaidOut i manifest ctx slots b m plan seen laid) {x : Symbol}
    (hx : x ∈ (cFile ctx slots b).bindings) :
    ∃ k, x.scheme? = some k ∧ k.head.toList <+: x.spelling.toList := by
  obtain ⟨hdefined, hbinding⟩ := h.mem_bindings.mp hx
  obtain ⟨k, hk⟩ := Option.isSome_iff_exists.mp hbinding
  refine ⟨k, hk, Symbol.spelling_begins hk ?_⟩
  rintro name rfl
  exact h.wrapper_begins hdefined

/-- Where names are kept apart, no two bindings of the file clash. -/
theorem NamesApart.no_clash (h : LaidOut i manifest ctx slots b m plan seen laid)
    (hapart : NamesApart slots b (cFile ctx slots b).bindings) {x y : Symbol}
    (hx : x ∈ (cFile ctx slots b).bindings) (hy : y ∈ (cFile ctx slots b).bindings)
    (heq : x.spelling = y.spelling) (hclash : x.Clash y) : x = y := by
  have hx' := (h.mem_bindings.mp hx).1
  have hy' := (h.mem_bindings.mp hy).1
  cases hclash with
  | wrapper hmethod =>
    obtain ⟨f, hf, rfl⟩ := h.mem_wrapper.mp hx'
    obtain ⟨s, hs, hdefined⟩ := h.mem_method hy' hmethod
    exact absurd heq (hapart.methods f hf s hs _ hdefined)
  | pool hp hq hne hglued =>
    exact absurd (List.inj_on_of_nodup_map hapart.pools (h.mem_pool hx' hp) (h.mem_pool hy' hq) hglued) hne
  | accessor hxa hya =>
    rcases hya with hya | hya
    · exact List.inj_on_of_nodup_map hapart.accessors (List.mem_filter.mpr ⟨hx, hxa⟩)
        (List.mem_filter.mpr ⟨hy, hya⟩) heq
    · exact absurd heq (hapart.helpers x hx hxa y hy hya)

theorem NamesApart.nodup (h : LaidOut i manifest ctx slots b m plan seen laid)
    (hapart : NamesApart slots b (cFile ctx slots b).bindings) :
    ((cFile ctx slots b).bindings.map Symbol.spelling).Nodup := by
  have hinjective : ∀ x ∈ (cFile ctx slots b).bindings, ∀ y ∈ (cFile ctx slots b).bindings,
      x.spelling = y.spelling → x = y := by
    intro x hx y hy heq
    obtain ⟨k, hk, hbegins⟩ := h.bindings_begin hx
    obtain ⟨k', hk', hbegins'⟩ := h.bindings_begin hy
    rcases eq_or_clash hk hk' hbegins hbegins' heq with hsame | hclash | hclash
    · exact hsame
    · exact hapart.no_clash h hx hy heq hclash
    · exact (hapart.no_clash h hy hx heq.symm hclash).symm
  have hwrappers : b.functions.Pairwise fun f g => f.names.cName ≠ g.names.cName := by
    refine (hapart.functions.and h.overloads_apart).imp fun {f g} ⟨hother, hsame⟩ => ?_
    by_cases hnative : f.native = g.native
    · exact hsame hnative
    · exact hother hnative
  have haccessors : ((definitions slots laid).filter Symbol.isAccessor).Nodup := by
    have hown := hapart.accessors.of_map
    rw [Code.bindings, h.file_defined, List.filter_filter] at hown
    rwa [show (definitions slots laid).filter Symbol.isAccessor =
      (definitions slots laid).filter (fun x => x.isAccessor && x.isBinding) from ?_]
    refine List.filter_congr fun x _ => ?_
    cases x <;> rfl
  have hdefined := h.definitions_nodup hapart.pools.of_map hwrappers haccessors
  refine List.Nodup.map_on hinjective ?_
  rw [Code.bindings, h.file_defined]
  exact hdefined.filter _

theorem LaidOut.namesApart (h : LaidOut i manifest ctx slots b m plan seen laid)
    (hnodup : ((cFile ctx slots b).bindings.map Symbol.spelling).Nodup) :
    NamesApart slots b (cFile ctx slots b).bindings := by
  have hinjective {x y : Symbol} (hx : x ∈ (cFile ctx slots b).bindings)
      (hy : y ∈ (cFile ctx slots b).bindings) (hne : x ≠ y) : x.spelling ≠ y.spelling :=
    fun heq => hne (List.inj_on_of_nodup_map hnodup hx hy heq)
  -- the definitions one after another: the slots first, and then piece by piece
  have hpairwise : (definitions slots laid).Pairwise fun x y =>
      x.isBinding = true → y.isBinding = true → x.spelling ≠ y.spelling := by
    rw [Code.bindings, h.file_defined] at hnodup
    exact List.pairwise_filter.mp (List.pairwise_map.mp hnodup)
  rw [definitions, List.pairwise_append, List.pairwise_map, List.pairwise_flatMap] at hpairwise
  obtain ⟨hslots, ⟨-, hpieces⟩, -⟩ := hpairwise
  refine { functions := ?_, methods := ?_, pools := ?_, accessors := ?_, helpers := ?_ }
  · rw [h.functions_eq, List.pairwise_filterMap]
    refine hpieces.imp fun hapart f hf g hg _ => ?_
    refine hapart (.wrapper f.names.cName) ?_ (.wrapper g.names.cName) ?_ rfl rfl
    · rw [Piece.function?_eq.mp hf]
      exact List.mem_singleton.mpr rfl
    · rw [Piece.function?_eq.mp hg]
      exact List.mem_singleton.mpr rfl
  · intro f hf s hs x hx
    refine hinjective (x := .wrapper f.names.cName) (h.mem_bindings.mpr ⟨?_, rfl⟩)
      (h.mem_bindings.mpr ⟨mem_definitions.mpr (.inr (h.struct_defined hs hx)), ?_⟩) ?_
    · exact h.mem_wrapper.mpr ⟨f, hf, rfl⟩
    · rcases mem_wholeDefined.mp hx with rfl | rfl | rfl | rfl | ⟨-, rfl⟩ <;> rfl
    · rcases mem_wholeDefined.mp hx with rfl | rfl | rfl | rfl | ⟨-, rfl⟩ <;> simp
  · refine List.pairwise_map.mpr (hslots.imp fun hapart hglued => hapart rfl rfl ?_)
    show "TETHER_SLOT_" ++ _ ++ "_" ++ _ = "TETHER_SLOT_" ++ _ ++ "_" ++ _
    unfold CallbackSlot.glued at hglued
    simp only [String.append_assoc] at hglued ⊢
    rw [hglued]
  · exact hnodup.sublist (List.filter_sublist.map _)
  · rintro x hx hxa y hy hya heq
    refine hinjective hx hy ?_ heq
    rintro rfl
    cases x <;> cases hxa <;> cases hya

end

/-- The callback slots and the bindings of a module. -/
def moduleBindings (i : Interface) (m : Manifest) : List CallbackSlot × Bindings :=
  (Classifying.fresh (bindAll i m)).2

/-- **When the names of a generated file are pairwise different.** -/
theorem binding_names_nodup_iff (i : Interface) (m : Manifest) :
    (generate i m).code = (moduleFile i m).text ∧
      (((moduleFile i m).bindings.map Symbol.spelling).Nodup ↔
        NamesApart (moduleBindings i m).1 (moduleBindings i m).2 (moduleFile i m).bindings) := by
  refine ⟨rfl, ?_⟩
  unfold moduleFile moduleBindings
  rcases hrun : (bindAll i m).run {} with ⟨⟨ctx, slots, b⟩, m'⟩
  have hfresh : Classifying.fresh (bindAll i m) = (ctx, slots, b) := congrArg Prod.fst hrun
  rw [hfresh]
  dsimp only
  obtain ⟨M, plan, seen, laid, hlaid⟩ := bindAll_laid hrun
  exact ⟨hlaid.namesApart, NamesApart.nodup hlaid⟩

/-- A struct with a callback and an enum keep out of each other's way. -/
example : ((moduleFile waveInterface {}).bindings.map Symbol.spelling).Nodup := by
  decide +kernel

/-- Three functions, each a list of its kind, its name, its type and its parameters. -/
def overloadedText : String :=
  "[[\"func\", \"ab\", \"void (int)\", [[\"x\", \"int\"]]],
    [\"func\", \"ab\", \"void (float)\", [[\"x\", \"float\"]]],
    [\"func\", \"ab_int\", \"void (bool)\", [[\"x\", \"bool\"]]]]"

/-- A function of one parameter without a result. -/
def taking (name type : String) : FunctionDecl where
  name := name
  type := "void (" ++ type ++ ")"
  returnType := "void"
  params := [⟨"x", type, false, false, false⟩]
  variadic := false

def overloadedInterface : Interface where
  decls := [.function (taking "ab" "int"), .function (taking "ab" "float"),
    .function (taking "ab_int" "bool")]

/-- In scripts `ab_int` goes without the stem, so it does not meet the overload `ab_int` of `ab`. -/
def overloadedManifest : Manifest where
  naming := { stem := "ab_" }
  output := { language := .cpp }

/-- The plan gives the overload of one function and another function the same name in C. -/
theorem wrapper_defined_twice :
    Interface.parse true overloadedText = .ok overloadedInterface ∧
      overloadedManifest.attachOwnedBuffers overloadedInterface = .ok overloadedInterface ∧
      (∀ f ∈ overloadedInterface.functions,
        f.name.toList.all (fun c => c.isAlphanum || c == '_') = true) ∧
      (moduleFile overloadedInterface overloadedManifest).bindings.map Symbol.spelling =
        ["l_ab_int", "l_ab_float", "l_ab_int"] ∧
      ¬ ((moduleFile overloadedInterface overloadedManifest).bindings.map Symbol.spelling).Nodup := by
  have hparse : Interface.parse true overloadedText = .ok overloadedInterface := by decide +kernel
  have hletters : ∀ f ∈ overloadedInterface.functions,
      f.name.toList.all (fun c => c.isAlphanum || c == '_') = true := by
    decide
  have hnames : (moduleFile overloadedInterface overloadedManifest).bindings.map Symbol.spelling =
      ["l_ab_int", "l_ab_float", "l_ab_int"] := by
    decide +kernel
  refine ⟨hparse, rfl, hletters, hnames, ?_⟩
  rw [hnames]
  decide

end LuaGlue
