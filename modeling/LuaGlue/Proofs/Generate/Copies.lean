import LuaGlue.Proofs.Classifier.SameTypes
import LuaGlue.Proofs.Generate.Twins
import LuaGlue.Proofs.Interface.Copies

/-!
# Copies of declarations change nothing

The list of dependencies is all of a loaded interface that tells copies. A type index knows dependencies by
name (`build_sameTypes`), and nothing else of a run looks at them (`bindAll_twin`), so a module is generated
alike from every list with the same members (`generate_dependencies`).
-/

set_option autoImplicit false

namespace LuaGlue

/-! ## Dependencies -/

section

variable {i : Interface} {ds : List DependencyType}

/-- Dependencies are known by name, so that it does not matter in which order they come or how often. -/
theorem build_sameTypes (h : ∀ d, d ∈ ds ↔ d ∈ i.dependencies) (m : Manifest) :
    (TypeIndex.build { i with dependencies := ds } m).SameTypes (TypeIndex.build i m) where
  structs := by
    intro name
    simp only [TypeIndex.build, List.mem_append, List.mem_filterMap, h]
    rfl
  enums := by
    intro name
    simp only [TypeIndex.build, List.mem_append, List.mem_filterMap, h]
    rfl
  tuples := rfl
  byteRanges := rfl
  aliases := rfl
  integerStems := rfl

theorem TypeIndex.SameTypes.findBound_eq {a b : TypeIndex} (h : a.SameTypes b) (m : Manifest)
    (structs : List StructDecl) :
    Context.findBound a m structs = Context.findBound b m structs := by
  induction structs with
  | nil => rfl
  | cons s rest ih =>
    unfold Context.findBound
    rw [h.classify_eq, ih]

theorem contextBuild_twin (h : ∀ d, d ∈ ds ↔ d ∈ i.dependencies) {m : Manifest} {ctx : Context}
    {m₀ m₁ : Memo} (hbuild : (Context.build i m).run m₀ = (ctx, m₁)) :
    ∃ t : ctx.Twin, (Context.build { i with dependencies := ds } m).run m₀ = (t.context, m₁) := by
  have hsame := build_sameTypes h m
  obtain ⟨bound, m₂, hbound, hreturn⟩ := Classifying.run_bind_eq.mp hbuild
  obtain ⟨rfl, rfl⟩ := Classifying.run_pure_eq.mp hreturn
  refine ⟨⟨ds, _, hsame.classify_eq⟩, Classifying.run_bind_eq.mpr ⟨bound, m₁, ?_, rfl⟩⟩
  rw [hsame.findBound_eq]
  exact hbound

/-- **A run does not tell lists of dependencies apart that have the same members.** -/
theorem bindAll_twin (h : ∀ d, d ∈ ds ↔ d ∈ i.dependencies) {m : Manifest} {ctx : Context}
    {slots : List CallbackSlot} {b : Bindings} {m₀ m₁ : Memo}
    (hrun : (bindAll i m).run m₀ = ((ctx, slots, b), m₁)) :
    ∃ t : ctx.Twin,
      (bindAll { i with dependencies := ds } m).run m₀ = ((t.context, slots, b), m₁) := by
  obtain ⟨initial, m₂, hbuild, h₁⟩ := Classifying.run_bind_eq.mp hrun
  obtain ⟨⟨ctx', settled⟩, m₃, hsettle, h₂⟩ := Classifying.run_bind_eq.mp h₁
  obtain ⟨plan, m₄, hplan, h₃⟩ := Classifying.run_bind_eq.mp h₂
  obtain ⟨slots', m₅, hslots, h₄⟩ := Classifying.run_bind_eq.mp h₃
  obtain ⟨p, m₆, hdecls, hreturn⟩ := Classifying.run_bind_eq.mp h₄
  obtain ⟨heq, rfl⟩ := Classifying.run_pure_eq.mp hreturn
  cases heq
  obtain ⟨initial', hbuild'⟩ := contextBuild_twin h hbuild
  obtain ⟨t, hsettle'⟩ := initial'.settleWithin_eq hsettle
  rw [← t.overloadPlan_eq] at hplan
  rw [← t.collectSlots_eq] at hslots
  rw [← t.addDecls_eq] at hdecls
  exact ⟨t, Classifying.run_bind_eq.mpr ⟨_, _, hbuild', Classifying.run_bind_eq.mpr
    ⟨_, _, hsettle', Classifying.run_bind_eq.mpr ⟨_, _, hplan, Classifying.run_bind_eq.mpr
      ⟨_, _, hslots, Classifying.run_bind_eq.mpr ⟨_, _, hdecls, rfl⟩⟩⟩⟩⟩⟩

/-- **A module does not depend on the order of dependencies, nor on how often one is listed.** -/
theorem generate_dependencies (h : ∀ d, d ∈ ds ↔ d ∈ i.dependencies) (m : Manifest) :
    generate { i with dependencies := ds } m = generate i m := by
  rcases hrun : (bindAll i m).run {} with ⟨⟨ctx, slots, b⟩, m'⟩
  obtain ⟨t, hrun'⟩ := bindAll_twin h hrun
  have hfresh : Classifying.fresh (bindAll i m) = (ctx, slots, b) := congrArg Prod.fst hrun
  have hfresh' : Classifying.fresh (bindAll { i with dependencies := ds } m) =
      (t.context, slots, b) := congrArg Prod.fst hrun'
  unfold generate
  rw [hfresh, hfresh']
  rfl

end

/-! ## Documents -/

/-- **Copies in a document change nothing**: it is loaded with the same declarations, and from it the same
module is generated, with the same stubs and told of the same problems. -/
theorem copies_generate_alike {overloads : Bool} {text text' : String} {j j' : Json} {i : Interface}
    (hj : Json.parse? Json.maxDepth text = some j)
    (hj' : Json.parse? Json.maxDepth text' = some j')
    (hcopies : j.Copies j') (hi : Interface.parse overloads text = .ok i) :
    ∃ i', Interface.parse overloads text' = .ok i' ∧ i'.decls = i.decls ∧
      ∀ (m : Manifest) (attached : Interface), m.attachOwnedBuffers i = .ok attached →
        ∃ attached', m.attachOwnedBuffers i' = .ok attached' ∧
          generate attached' m = generate attached m := by
  obtain ⟨ds, hi', hsame⟩ := parse_copies hj hj' hcopies hi
  refine ⟨{ i with dependencies := ds }, hi', rfl, fun m attached hattached => ?_⟩
  obtain ⟨hdependencies, hattached'⟩ := attach_dependencies hattached ds
  refine ⟨_, hattached', generate_dependencies (fun d => ?_) m⟩
  rw [hdependencies]
  exact hsame d

/-- A dependency's enum, and a function that returns it. -/
def modeText : String :=
  "[[\"enum\",\"Mode\",null,[],[],[],true],[\"func\",\"mode\",\"Mode ()\"]]"

/-- What extraction finds when it visits the dependency's header twice. -/
def modeTwiceText : String :=
  "[[\"enum\",\"Mode\",null,[],[],[],true],[\"func\",\"mode\",\"Mode ()\"],
    [\"enum\",\"Mode\",null,[],[],[],true],[\"func\",\"mode\",\"Mode ()\"]]"

def modeEnumRecord : Json := .arr [.str "enum", .str "Mode", .null, .arr [], .arr [], .arr [], .bool true]

def modeFunctionRecord : Json := .arr [.str "func", .str "mode", .str "Mode ()"]

def modeInterface : Interface where
  decls := [.function { name := "mode", type := "Mode ()", returnType := "Mode", params := []
                        variadic := false }]
  dependencies := [.enum "Mode"]

theorem copies_generate_alike_mode :
    Json.parse? Json.maxDepth modeText = some (.arr [modeEnumRecord, modeFunctionRecord]) ∧
      Json.parse? Json.maxDepth modeTwiceText = some (.arr [modeEnumRecord, modeFunctionRecord,
        modeEnumRecord, modeFunctionRecord]) ∧
      Interface.parse false modeText = .ok modeInterface ∧
      Interface.parse false modeTwiceText =
        .ok { modeInterface with dependencies := [.enum "Mode", .enum "Mode"] } ∧
      ({} : Manifest).attachOwnedBuffers modeInterface = .ok modeInterface ∧
      generate { modeInterface with dependencies := [.enum "Mode", .enum "Mode"] } {} =
        generate modeInterface {} := by
  have hj : Json.parse? Json.maxDepth modeText =
      some (.arr [modeEnumRecord, modeFunctionRecord]) := by rfl
  have hj' : Json.parse? Json.maxDepth modeTwiceText = some (.arr [modeEnumRecord,
      modeFunctionRecord, modeEnumRecord, modeFunctionRecord]) := by cbv
  have hparse : Interface.parse false modeText = .ok modeInterface := by
    rw [Interface.parse, hj]
    rfl
  have hparse' : Interface.parse false modeTwiceText =
      .ok { modeInterface with dependencies := [.enum "Mode", .enum "Mode"] } := by
    rw [Interface.parse, hj']
    rfl
  have hone : Copies [modeEnumRecord, modeFunctionRecord]
      [modeEnumRecord, modeFunctionRecord, modeEnumRecord] :=
    @Copies.insert _ _ [modeEnumRecord, modeFunctionRecord] [] modeEnumRecord .none (by simp)
  have htwo : Copies [modeEnumRecord, modeFunctionRecord]
      [modeEnumRecord, modeFunctionRecord, modeEnumRecord, modeFunctionRecord] :=
    @Copies.insert _ _ [modeEnumRecord, modeFunctionRecord, modeEnumRecord] [] modeFunctionRecord hone
      (by simp)
  obtain ⟨i', hi', -, hgenerate⟩ := copies_generate_alike hj hj' (.list htwo) hparse
  cases hparse'.symm.trans hi'
  obtain ⟨attached', hattached', hsame⟩ := hgenerate {} modeInterface rfl
  cases hattached'
  exact ⟨hj, hj', hparse, hparse', rfl, hsame⟩

end LuaGlue
