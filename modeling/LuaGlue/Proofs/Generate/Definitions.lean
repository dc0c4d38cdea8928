import LuaGlue.Proofs.Code.Spelling
import LuaGlue.Proofs.Generate.File
import LuaGlue.Proofs.Generate.Module
import Mathlib.Data.List.Nodup

/-!
# What a file defines

The definitions of a file are the slots, and then piece by piece what the chunks define; each can be
traced to a function, a struct or a slot among the bindings. Pieces come from different declarations, so
no two of them define the same, save that functions of different native names may be given one name
(`LaidOut.definitions_nodup`).
-/

set_option autoImplicit false

namespace LuaGlue

/-! ## Definitions of a text -/

/-- The symbol that is defined. -/
def Mention.defined? : Mention → Option Symbol
  | .defines s => some s
  | .refers _ | .declares _ => none

@[simp] theorem Mention.defined?_refers (s : Symbol) : (Mention.refers s).defined? = none := rfl

@[simp] theorem Mention.defined?_declares (s : Symbol) : (Mention.declares s).defined? = none := rfl

@[simp] theorem Mention.defined?_defines (s : Symbol) : (Mention.defines s).defined? = some s := rfl

@[simp] theorem filterMap_refers (s : Symbol) (ms : List Mention) :
    (.refers s :: ms).filterMap Mention.defined? = ms.filterMap Mention.defined? := rfl

@[simp] theorem filterMap_declares (s : Symbol) (ms : List Mention) :
    (.declares s :: ms).filterMap Mention.defined? = ms.filterMap Mention.defined? := rfl

@[simp] theorem filterMap_defines (s : Symbol) (ms : List Mention) :
    (.defines s :: ms).filterMap Mention.defined? = s :: ms.filterMap Mention.defined? := rfl

theorem mem_filterMap_defined {s : Symbol} {ms : List Mention} :
    s ∈ ms.filterMap Mention.defined? ↔ .defines s ∈ ms := by
  rw [List.mem_filterMap]
  constructor
  · rintro ⟨m, hm, hs⟩
    cases m <;> cases hs
    exact hm
  · exact fun hs => ⟨_, hs, rfl⟩

/-- What a text defines, in order. -/
def Code.defined (code : Code) : List Symbol := code.mentions.filterMap Mention.defined?

/-- The outline of a text is enough to tell what it defines. -/
theorem Code.Outlined.defined_eq {known : String → Prop} {code : Code} {ms : List Mention}
    (h : code.Outlined known ms) : code.defined = ms.filterMap Mention.defined? := by
  rw [← h.outline_eq, Code.outline, List.filterMap_filter, Code.defined]
  congr 1
  funext m
  cases m with
  | refers s => split <;> rfl
  | declares s => rfl
  | defines s => rfl

/-! ## Definitions of a piece -/

/-- The dispatcher of a callback field, its trampolines and their table. -/
def poolDefined (owner field : String) : List Symbol :=
  .dispatcher owner field :: ((List.range poolSize).map (.trampoline owner field) ++
    [.callbackType owner field, .trampolineTable owner field])

/-- The getter and the setter of a field. -/
def Accessor.defined (struct : String) (a : Accessor) : List Symbol :=
  (if a.readable then [.getter struct a.key] else []) ++
    if a.writable then [.setter struct a.key] else []

/-- The functions made for a struct as a whole. -/
def wholeDefined (struct : String) (collects : Bool) : List Symbol :=
  [.constructor struct, .converter struct, .indexer struct, .newIndexer struct] ++
    if collects then [.collector struct] else []

def StructBinding.defined (s : StructBinding) : List Symbol := wholeDefined s.native s.hasCollector

def structDefined (struct : String) (as : List Accessor) : List Symbol :=
  (as.filter (·.access == .callback)).flatMap (fun a => poolDefined struct a.key) ++
    (as.flatMap (Accessor.defined struct) ++ wholeDefined struct (as.any (·.isOwnedBuffer)))

def Piece.defined : Piece → List Symbol
  | function f => [.wrapper f.names.cName]
  | struct s fields => structDefined s.native fields
  | enum e => [e.registrar]
  | consts c => [c.registrar]
  | comment => []

theorem poolOutline_defined (owner field : String) :
    (poolOutline owner field).filterMap Mention.defined? = poolDefined owner field := by
  unfold poolOutline tableOutline poolDefined
  -- the size of the pool plays no part
  generalize List.range poolSize = pool
  simp [List.filterMap_flatMap, trampolineOutline, List.map_eq_flatMap]

theorem fieldOutline_defined (struct : String) (a : Accessor) :
    (a.getterOutline struct).filterMap Mention.defined? ++
      (a.setterOutline struct).filterMap Mention.defined? = a.defined struct := by
  unfold Accessor.getterOutline Accessor.setterOutline Accessor.defined
  cases a.readable <;> cases a.writable <;> cases a.access == .callback <;> rfl

theorem dispatchOutline_defined (struct : String) (as : List Accessor) :
    (dispatchOutline struct as).filterMap Mention.defined? =
      wholeDefined struct (as.any (·.isOwnedBuffer)) := by
  unfold dispatchOutline wholeDefined setterCalls getterCalls
  cases as.any (·.isOwnedBuffer) <;> simp [Function.comp_def]

theorem structOutline_defined (struct : String) (as : List Accessor) :
    (structOutline struct as).filterMap Mention.defined? = structDefined struct as := by
  unfold structOutline structDefined
  simp only [List.filterMap_append, List.filterMap_flatMap, poolOutline_defined,
    fieldOutline_defined, dispatchOutline_defined]

theorem Piece.outline_defined (p : Piece) : p.outline.filterMap Mention.defined? = p.defined := by
  cases p with
  | struct s fields => exact structOutline_defined s.native fields
  | function _ | enum _ | consts _ | comment => rfl

/-! ## Where a definition comes from -/

/-- The struct or the enum that a binding is named for. -/
def Symbol.tag? : Symbol → Option String
  | constructor s | converter s | indexer s | newIndexer s | collector s => some s
  | getter s _ | setter s _ | slot s _ | dispatcher s _ | trampoline s _ _ => some s
  | trampolineTable s _ | callbackType s _ => some s
  | enumRegistrar e => some e
  | wrapper _ | handWritten _ | constRegistrar _ | metatableRegistrar | functionTable
  | entryPoint _ => none

section

variable {struct owner field : String} {as : List Accessor} {x : Symbol}

theorem mem_poolDefined : x ∈ poolDefined owner field ↔
    x = .dispatcher owner field ∨ (∃ entry < poolSize, x = .trampoline owner field entry) ∨
      x = .callbackType owner field ∨ x = .trampolineTable owner field := by
  simp only [poolDefined, List.mem_cons, List.mem_append, List.mem_map, List.mem_range,
    List.not_mem_nil, or_false, eq_comm]

theorem mem_accessorDefined {a : Accessor} : x ∈ a.defined struct ↔
    (a.readable = true ∧ x = .getter struct a.key) ∨ (a.writable = true ∧ x = .setter struct a.key) := by
  unfold Accessor.defined
  cases a.readable <;> cases a.writable <;> simp

theorem mem_wholeDefined {collects : Bool} : x ∈ wholeDefined struct collects ↔
    x = .constructor struct ∨ x = .converter struct ∨ x = .indexer struct ∨ x = .newIndexer struct ∨
      (collects = true ∧ x = .collector struct) := by
  unfold wholeDefined
  cases collects <;> simp

theorem mem_structDefined : x ∈ structDefined struct as ↔
    (∃ a ∈ as, a.access = .callback ∧ x ∈ poolDefined struct a.key) ∨
      (∃ a ∈ as, x ∈ a.defined struct) ∨ x ∈ wholeDefined struct (as.any (·.isOwnedBuffer)) := by
  simp only [structDefined, List.mem_append, List.mem_flatMap, List.mem_filter, beq_iff_eq, and_assoc]

theorem structDefined_tag (hx : x ∈ structDefined struct as) : x.tag? = some struct := by
  rcases mem_structDefined.mp hx with ⟨a, -, -, h⟩ | ⟨a, -, h⟩ | h
  · rcases mem_poolDefined.mp h with rfl | ⟨entry, -, rfl⟩ | rfl | rfl <;> rfl
  · rcases mem_accessorDefined.mp h with ⟨-, rfl⟩ | ⟨-, rfl⟩ <;> rfl
  · rcases mem_wholeDefined.mp h with rfl | rfl | rfl | rfl | ⟨-, rfl⟩ <;> rfl

end

/-- A definition of a piece is a wrapper, or is named for the tag of the declaration, or else for its
position. -/
theorem Laid.defined_cases {ctx : Context} {m : Memo} {plan : OverloadPlan} {l : Laid} {x : Symbol}
    (h : Origin ctx m plan l.position l.decl l.piece) (hx : x ∈ l.piece.defined) :
    (∃ f, l.piece = .function f ∧ x = .wrapper f.names.cName) ∨
      (∃ tag, l.decl.tag? = some tag ∧ x.tag? = some tag) ∨ x = .constRegistrar l.position := by
  rcases l with ⟨position, decl, code, piece⟩
  cases h with
  | @function f _ binding => exact .inl ⟨binding, rfl, List.mem_singleton.mp hx⟩
  | struct hnative =>
    refine .inr (.inl ⟨_, rfl, ?_⟩)
    rw [structDefined_tag hx, hnative]
  | enum hnative hregistrar =>
    rw [List.mem_singleton.mp hx, hregistrar]
    exact .inr (.inl ⟨_, rfl, rfl⟩)
  | consts hregistrar =>
    rw [List.mem_singleton.mp hx, hregistrar]
    exact .inr (.inr rfl)
  | comment => exact absurd hx List.not_mem_nil

/-! ## Definitions of a file -/

/-- The bindings that a file defines, slots first. -/
def definitions (slots : List CallbackSlot) (laid : List Laid) : List Symbol :=
  slots.map CallbackSlot.symbol ++ laid.flatMap fun l => l.piece.defined

section

variable {i : Interface} {manifest : Manifest} {ctx : Context} {slots : List CallbackSlot}
  {b : Bindings} {m : Memo} {plan : OverloadPlan} {seen : List String} {laid : List Laid}

theorem LaidOut.chunks_defined (h : LaidOut i manifest ctx slots b m plan seen laid) :
    (b.chunks.flatMap Code.mentions).filterMap Mention.defined? =
      laid.flatMap fun l => l.piece.defined := by
  rw [show b.chunks = _ from h.lays.chunks, List.flatMap_map, List.filterMap_flatMap]
  refine List.flatMap_congr fun l hl => ?_
  rw [← Piece.outline_defined, ← (h.lays.outlined l hl).defined_eq]
  rfl

/-- The names that stand once in every file are those of no binding. -/
theorem LaidOut.file_defined (h : LaidOut i manifest ctx slots b m plan seen laid) :
    (cFile ctx slots b).defined.filter Symbol.isBinding =
      (definitions slots laid).filter Symbol.isBinding := by
  have hprototypes : (b.structs.flatMap prototypeOutline).filterMap Mention.defined? = [] := by
    simp [List.filterMap_flatMap, prototypeOutline]
  have hslots : (slots.map fun s => Mention.defines s.symbol).filterMap Mention.defined? =
      slots.map CallbackSlot.symbol := by
    simp [List.filterMap_map, Function.comp_def]
  have hmetatables : ((metatablesOutline b.structs).filterMap Mention.defined?).filter
      Symbol.isBinding = [] := by
    have hnone (s : StructBinding) : (metatableOutline s).filterMap Mention.defined? = [] := by
      unfold metatableOutline
      cases s.hasCollector <;> rfl
    unfold metatablesOutline
    split
    · rfl
    · simp [List.filterMap_flatMap, hnone, Symbol.isBinding, Symbol.scheme?]
  have hregistration : ((registrationCode ctx b).mentions.filterMap Mention.defined?).filter
      Symbol.isBinding = [] := by
    rw [registrationCode_mentions]
    simp [Symbol.isBinding, Symbol.scheme?]
  have hentryPoint : ((entryPointCode ctx b).mentions.filterMap Mention.defined?).filter
      Symbol.isBinding = [] := by
    rw [entryPointCode_mentions]
    simp [Symbol.isBinding, Symbol.scheme?]
  rw [Code.defined, cFile_mentions, definitions]
  simp only [List.filterMap_append, List.filter_append, hprototypes, hslots, h.chunks_defined,
    hmetatables, hregistration, hentryPoint, List.nil_append, List.append_nil]

theorem mem_definitions {x : Symbol} : x ∈ definitions slots laid ↔
    (∃ s ∈ slots, s.symbol = x) ∨ ∃ l ∈ laid, x ∈ l.piece.defined := by
  rw [definitions, List.mem_append, List.mem_map, List.mem_flatMap]

theorem LaidOut.mem_wrapper (h : LaidOut i manifest ctx slots b m plan seen laid) {name : String} :
    .wrapper name ∈ definitions slots laid ↔ ∃ f ∈ b.functions, f.names.cName = name := by
  rw [mem_definitions]
  constructor
  · rintro (⟨s, -, hs⟩ | ⟨l, hl, hx⟩)
    · exact absurd hs (by simp [CallbackSlot.symbol])
    · rcases Laid.defined_cases (h.lays.origin l hl) hx with ⟨f, hf, hname⟩ | ⟨tag, -, htag⟩ | hc
      · exact ⟨f, h.mem_functions.mpr ⟨l, hl, hf⟩, (Symbol.wrapper.inj hname).symm⟩
      · exact absurd htag (by simp [Symbol.tag?])
      · exact absurd hc (by simp)
  · rintro ⟨f, hf, rfl⟩
    obtain ⟨l, hl, hpiece⟩ := h.mem_functions.mp hf
    refine .inr ⟨l, hl, ?_⟩
    rw [hpiece]
    exact List.mem_singleton.mpr rfl

theorem LaidOut.struct_piece (h : LaidOut i manifest ctx slots b m plan seen laid) {l : Laid}
    (hl : l ∈ laid) {x : Symbol} (hx : x ∈ l.piece.defined)
    (hstruct : x.method?.isSome = true ∨ x.pool?.isSome = true) :
    ∃ s fields, l.piece = .struct s fields := by
  have horigin := h.lays.origin l hl
  rcases l with ⟨position, decl, code, piece⟩
  cases horigin with
  | @struct _ s fields => exact ⟨s, fields, rfl⟩
  | function =>
    rw [List.mem_singleton.mp hx] at hstruct
    exact absurd hstruct (by simp [Symbol.method?, Symbol.pool?])
  | enum _ hregistrar =>
    rw [List.mem_singleton.mp hx, hregistrar] at hstruct
    exact absurd hstruct (by simp [Symbol.method?, Symbol.pool?])
  | consts hregistrar =>
    rw [List.mem_singleton.mp hx, hregistrar] at hstruct
    exact absurd hstruct (by simp [Symbol.method?, Symbol.pool?])
  | comment => exact absurd hx List.not_mem_nil

/-- The functions that are made for structs as a whole are those of the structs that are bound. -/
theorem LaidOut.mem_method (h : LaidOut i manifest ctx slots b m plan seen laid) {x : Symbol}
    (hx : x ∈ definitions slots laid) (hmethod : x.method?.isSome = true) :
    ∃ s ∈ b.structs, x ∈ s.defined := by
  rcases mem_definitions.mp hx with ⟨s, -, rfl⟩ | ⟨l, hl, hx⟩
  · exact absurd hmethod (by simp [CallbackSlot.symbol, Symbol.method?])
  obtain ⟨s, fields, hpiece⟩ := h.struct_piece hl hx (.inl hmethod)
  rw [hpiece] at hx
  refine ⟨s, h.mem_structs.mpr ⟨l, hl, fields, hpiece⟩, ?_⟩
  rw [StructBinding.defined, (h.made hl hpiece).collector]
  rcases mem_structDefined.mp hx with ⟨a, -, -, h'⟩ | ⟨a, -, h'⟩ | h'
  · rcases mem_poolDefined.mp h' with rfl | ⟨entry, -, rfl⟩ | rfl | rfl <;> cases hmethod
  · rcases mem_accessorDefined.mp h' with ⟨-, rfl⟩ | ⟨-, rfl⟩ <;> cases hmethod
  · exact h'

theorem LaidOut.struct_defined (h : LaidOut i manifest ctx slots b m plan seen laid)
    {s : StructBinding} (hs : s ∈ b.structs) {x : Symbol} (hx : x ∈ s.defined) :
    ∃ l ∈ laid, x ∈ l.piece.defined := by
  obtain ⟨l, hl, fields, hpiece⟩ := h.mem_structs.mp hs
  refine ⟨l, hl, ?_⟩
  rw [hpiece]
  rw [StructBinding.defined, (h.made hl hpiece).collector] at hx
  exact mem_structDefined.mpr (.inr (.inr hx))

theorem LaidOut.mem_pool (h : LaidOut i manifest ctx slots b m plan seen laid) {x : Symbol}
    (hx : x ∈ definitions slots laid) {p : CallbackSlot} (hp : x.pool? = some p) : p ∈ slots := by
  rcases mem_definitions.mp hx with ⟨s, hs, rfl⟩ | ⟨l, hl, hx⟩
  · cases hp
    exact hs
  obtain ⟨s, fields, hpiece⟩ := h.struct_piece hl hx (.inr (by rw [hp]; rfl))
  rw [hpiece] at hx
  rcases mem_structDefined.mp hx with ⟨a, ha, hcallback, h'⟩ | ⟨a, -, h'⟩ | h'
  · have hslot := h.slot_mem (h.made hl hpiece) ha hcallback
    rcases mem_poolDefined.mp h' with rfl | ⟨entry, -, rfl⟩ | rfl | rfl <;> cases hp <;> exact hslot
  · rcases mem_accessorDefined.mp h' with ⟨-, rfl⟩ | ⟨-, rfl⟩ <;> cases hp
  · rcases mem_wholeDefined.mp h' with rfl | rfl | rfl | rfl | ⟨-, rfl⟩ <;> cases hp

end

/-! ## Nothing is defined twice -/

theorem poolDefined_field {owner field field' : String} {x : Symbol}
    (h : x ∈ poolDefined owner field) (h' : x ∈ poolDefined owner field') : field = field' := by
  rcases mem_poolDefined.mp h with rfl | ⟨entry, -, rfl⟩ | rfl | rfl <;>
    rcases mem_poolDefined.mp h' with h' | ⟨entry', -, h'⟩ | h' | h' <;> cases h' <;> rfl

theorem poolDefined_nodup (owner field : String) : (poolDefined owner field).Nodup := by
  have hentries : ((List.range poolSize).map (Symbol.trampoline owner field)).Nodup :=
    List.nodup_range.map fun entry entry' h => (Symbol.trampoline.inj h).2.2
  rw [poolDefined, List.nodup_cons, List.nodup_append']
  refine ⟨by simp, hentries, by simp, ?_⟩
  rw [List.disjoint_left]
  intro x hx
  obtain ⟨entry, -, rfl⟩ := List.mem_map.mp hx
  simp

theorem structDefined_nodup {struct : String} {as : List Accessor}
    (h : (as.flatMap (Accessor.defined struct)).Nodup) : (structDefined struct as).Nodup := by
  -- two callback fields have different keys, or they would have one setter
  have hpools : ((as.filter (·.access == .callback)).flatMap fun a => poolDefined struct a.key).Nodup := by
    rw [List.nodup_flatMap]
    refine ⟨fun a _ => poolDefined_nodup struct a.key, ?_⟩
    refine ((List.nodup_flatMap.mp h).2.sublist List.filter_sublist).imp_of_mem ?_
    intro a a' ha ha' hdisjoint x hx hx'
    have hsetter {a : Accessor} (ha : a ∈ as.filter (·.access == .callback)) :
        .setter struct a.key ∈ a.defined struct := by
      have hcallback : a.access = .callback := by simpa using (List.mem_filter.mp ha).2
      refine mem_accessorDefined.mpr (.inr ⟨?_, rfl⟩)
      rw [Accessor.writable, hcallback]
    have hkey := poolDefined_field hx hx'
    have hmem' := hsetter ha'
    rw [← hkey] at hmem'
    exact hdisjoint (hsetter ha) hmem'
  have hwhole : (wholeDefined struct (as.any (·.isOwnedBuffer))).Nodup := by
    unfold wholeDefined
    cases as.any (·.isOwnedBuffer) <;> simp
  have hfieldsWhole : (as.flatMap (Accessor.defined struct)).Disjoint
      (wholeDefined struct (as.any (·.isOwnedBuffer))) := by
    intro x hx hx'
    obtain ⟨a, -, hx⟩ := List.mem_flatMap.mp hx
    rcases mem_accessorDefined.mp hx with ⟨-, rfl⟩ | ⟨-, rfl⟩ <;>
      exact absurd (mem_wholeDefined.mp hx') (by simp)
  rw [structDefined, List.nodup_append', List.nodup_append']
  refine ⟨hpools, ⟨h, hwhole, hfieldsWhole⟩, fun x hx hx' => ?_⟩
  -- what is in a pool is neither an accessor nor for the struct as a whole
  obtain ⟨a, -, hx⟩ := List.mem_flatMap.mp hx
  rcases List.mem_append.mp hx' with hx' | hx'
  · obtain ⟨a', -, hx'⟩ := List.mem_flatMap.mp hx'
    rcases mem_accessorDefined.mp hx' with ⟨-, rfl⟩ | ⟨-, rfl⟩ <;>
      exact absurd (mem_poolDefined.mp hx) (by simp)
  · rcases mem_wholeDefined.mp hx' with rfl | rfl | rfl | rfl | ⟨-, rfl⟩ <;>
      exact absurd (mem_poolDefined.mp hx) (by simp)

section

variable {i : Interface} {manifest : Manifest} {ctx : Context} {slots : List CallbackSlot}
  {b : Bindings} {m : Memo} {plan : OverloadPlan} {seen : List String} {laid : List Laid}

/-- Two pieces define the same only if both are wrappers, of one name. -/
theorem LaidOut.pieces_disjoint (h : LaidOut i manifest ctx slots b m plan seen laid) {l l' : Laid}
    (hl : l ∈ laid) (hl' : l' ∈ laid) (hbefore : l.Before l')
    (hnames : ∀ f, l.piece = .function f → ∀ f', l'.piece = .function f' →
      f.names.cName ≠ f'.names.cName) : l.piece.defined.Disjoint l'.piece.defined := by
  intro x hx hx'
  rcases Laid.defined_cases (h.lays.origin l hl) hx with ⟨f, hf, rfl⟩ | ⟨tag, htag, hxtag⟩ | rfl
  · rcases Laid.defined_cases (h.lays.origin l' hl') hx' with ⟨f', hf', heq⟩ | ⟨tag, -, hxtag⟩ | heq
    · exact hnames f hf f' hf' (Symbol.wrapper.inj heq)
    · cases hxtag
    · cases heq
  · rcases Laid.defined_cases (h.lays.origin l' hl') hx' with ⟨f', -, rfl⟩ | ⟨tag', htag', hxtag'⟩ | rfl
    · cases hxtag
    · rw [hxtag, Option.some.injEq] at hxtag'
      subst hxtag'
      exact hbefore.tag tag htag htag'
    · cases hxtag
  · rcases Laid.defined_cases (h.lays.origin l' hl') hx' with ⟨f', -, heq⟩ | ⟨tag, -, hxtag⟩ | heq
    · cases heq
    · cases hxtag
    · have hposition := hbefore.position
      rw [Symbol.constRegistrar.inj heq] at hposition
      exact Nat.lt_irrefl _ hposition

theorem accessors_sublist {l : Laid} (hl : l ∈ laid) {s : StructBinding} {fields : List Accessor}
    (hpiece : l.piece = .struct s fields) :
    (fields.flatMap (Accessor.defined s.native)).Sublist
      ((definitions slots laid).filter Symbol.isAccessor) := by
  have hown : ∀ x ∈ fields.flatMap (Accessor.defined s.native), x.isAccessor = true := by
    intro x hx
    obtain ⟨a, -, hx⟩ := List.mem_flatMap.mp hx
    rcases mem_accessorDefined.mp hx with ⟨-, rfl⟩ | ⟨-, rfl⟩ <;> rfl
  have hstruct : (fields.flatMap (Accessor.defined s.native)).Sublist l.piece.defined := by
    rw [hpiece, Piece.defined, structDefined]
    exact (List.sublist_append_left _ _).trans (List.sublist_append_right _ _)
  have hpiece : l.piece.defined.Sublist (laid.flatMap fun l => l.piece.defined) := by
    rw [List.flatMap_def]
    exact List.sublist_flatten_of_mem (List.mem_map.mpr ⟨l, hl, rfl⟩)
  rw [← List.filter_eq_self.mpr hown]
  exact ((hstruct.trans hpiece).trans (List.sublist_append_right _ _)).filter _

/-- **Nothing is defined twice**, if no slot is, no getter or setter is, and wrappers have names of
their own. -/
theorem LaidOut.definitions_nodup (h : LaidOut i manifest ctx slots b m plan seen laid)
    (hslots : slots.Nodup) (hwrappers : b.functions.Pairwise fun f g => f.names.cName ≠ g.names.cName)
    (haccessors : ((definitions slots laid).filter Symbol.isAccessor).Nodup) :
    (definitions slots laid).Nodup := by
  have hsymbols : (slots.map CallbackSlot.symbol).Nodup := by
    refine hslots.map fun s s' heq => ?_
    rcases s with ⟨owner, field⟩
    cases heq
    rfl
  have hpieces : (laid.flatMap fun l => l.piece.defined).Nodup := by
    rw [List.nodup_flatMap]
    constructor
    · intro l hl
      cases hp : l.piece with
      | struct s fields => exact structDefined_nodup (haccessors.sublist (accessors_sublist hl hp))
      | function _ | enum _ | consts _ => exact List.nodup_singleton _
      | comment => exact List.nodup_nil
    · rw [h.functions_eq, List.pairwise_filterMap] at hwrappers
      refine (h.lays.apart.and hwrappers).imp_of_mem fun hl hl' ⟨hbefore, hnames⟩ => ?_
      refine h.pieces_disjoint hl hl' hbefore fun f hf f' hf' => ?_
      exact hnames f (Piece.function?_eq.mpr hf) f' (Piece.function?_eq.mpr hf')
  rw [definitions, List.nodup_append']
  refine ⟨hsymbols, hpieces, fun x hx hx' => ?_⟩
  -- slots are numbered before the pieces, and no piece defines one
  obtain ⟨s, -, rfl⟩ := List.mem_map.mp hx
  obtain ⟨l, hl, hx'⟩ := List.mem_flatMap.mp hx'
  obtain ⟨t, fields, hpiece⟩ := h.struct_piece hl hx' (.inr rfl)
  rw [hpiece] at hx'
  rcases mem_structDefined.mp hx' with ⟨a, -, -, h'⟩ | ⟨a, -, h'⟩ | h'
  · exact absurd (mem_poolDefined.mp h') (by simp [CallbackSlot.symbol])
  · exact absurd (mem_accessorDefined.mp h') (by simp [CallbackSlot.symbol])
  · exact absurd (mem_wholeDefined.mp h') (by simp [CallbackSlot.symbol])

/-! ## Names of wrappers -/

theorem mem_candidates_iff {decls : List Declaration} {c : Candidate} :
    c ∈ candidates manifest decls ↔
      decls[c.position]? = some (.function c.function) ∧ isWrapped manifest c.function = true := by
  unfold candidates
  rw [List.mem_filterMap]
  constructor
  · rintro ⟨⟨d, position⟩, hd, hc⟩
    have hget : decls[position]? = some d := List.mk_mem_zipIdx_iff_getElem?.mp hd
    cases d with
    | function f =>
      dsimp only at hc
      split at hc
      · rename_i hwrapped
        cases hc
        exact ⟨hget, hwrapped⟩
      · cases hc
    | struct _ | enum _ | consts _ => cases hc
  · rintro ⟨hget, hwrapped⟩
    exact ⟨_, List.mk_mem_zipIdx_iff_getElem?.mpr hget, by simp [hwrapped]⟩

/-- A wrapper has its name from the plan, under which its function is the candidate at its position. -/
theorem LaidOut.function_named (h : LaidOut i manifest ctx slots b m plan seen laid) {m' : Memo}
    (hplan : (OverloadPlan.build ctx (candidates manifest i.decls)).run m = (plan, m')) {l : Laid}
    (hl : l ∈ laid) {f : FunctionBinding} (hpiece : l.piece = .function f) :
    ∃ c ∈ candidates manifest i.decls, c.position = l.position ∧ c.function.name = f.native ∧
      Named ctx m' (c.group ctx (candidates manifest i.decls)) c f.names := by
  have horigin := h.lays.origin l hl
  have hplace := (h.lays.place l hl).2
  rcases l with ⟨position, decl, code, piece⟩
  dsimp only at hpiece hplace horigin
  rw [hpiece] at horigin
  cases horigin with
  | function hnames hnative heq =>
    subst heq
    obtain ⟨c, hc, rfl, hnamed⟩ := OverloadPlan.build_named hplan hnames
    have hfunction := (mem_candidates_iff.mp hc).1
    rw [hplace, Option.some.injEq, Declaration.function.injEq] at hfunction
    refine ⟨c, hc, rfl, ?_, hnamed⟩
    rw [hnative, hfunction]

/-- **Overloads of a native function have names of their own.** -/
theorem LaidOut.overloads_apart (h : LaidOut i manifest ctx slots b m plan seen laid) :
    b.functions.Pairwise fun f g => f.native = g.native → f.names.cName ≠ g.names.cName := by
  obtain ⟨m', hplan⟩ := h.plan
  rw [h.functions_eq, List.pairwise_filterMap]
  refine h.lays.apart.imp_of_mem fun hl hl' hbefore f hf g hg hnative => ?_
  obtain ⟨c, hc, hposition, hname, hnamed⟩ := h.function_named hplan hl (Piece.function?_eq.mp hf)
  obtain ⟨c', hc', hposition', hname', hnamed'⟩ :=
    h.function_named hplan hl' (Piece.function?_eq.mp hg)
  have hsame : c.function.name = c'.function.name := by rw [hname, hname', hnative]
  have hgroup : c'.group ctx (candidates manifest i.decls) =
      c.group ctx (candidates manifest i.decls) := by
    unfold Candidate.group
    rw [hsame]
  -- both are named within the one group that their script name has
  rw [hgroup] at hnamed'
  refine named_apart hnamed hnamed' (mem_group hc rfl) (mem_group hc' hsame.symm) ?_ hsame
  rw [hposition, hposition']
  exact Nat.ne_of_lt hbefore.position

theorem LaidOut.wrapper_begins (h : LaidOut i manifest ctx slots b m plan seen laid) {name : String}
    (hx : .wrapper name ∈ definitions slots laid) : ∃ rest, name = "l_" ++ rest := by
  obtain ⟨m', hplan⟩ := h.plan
  obtain ⟨f, hf, rfl⟩ := h.mem_wrapper.mp hx
  obtain ⟨l, hl, hpiece⟩ := h.mem_functions.mp hf
  obtain ⟨c, -, -, -, hnamed⟩ := h.function_named hplan hl hpiece
  exact hnamed.prefix

end

end LuaGlue
