import LuaGlue.Context
import LuaGlue.Proofs.CType.Alphabet
import LuaGlue.Proofs.Draft.Alphabet
import LuaGlue.Proofs.Interface.Loaded

/-!
# The strings of a module

All strings of an interface and of a manifest, as lists, and what follows when they are in an alphabet: what
generation takes from the two (`Context.Over`) is in it as well.
-/

set_option autoImplicit false

namespace LuaGlue

/-! ## All strings -/

def Field.texts (f : Field) : List String := [f.name, f.type]

def Param.texts (p : Param) : List String := [p.name, p.type]

def OwnedBuffer.texts (b : OwnedBuffer) : List String := [b.pointerField, b.countField]

def StructDecl.texts (s : StructDecl) : List String :=
  s.name :: (s.fields.flatMap Field.texts ++ s.ownedBuffers.flatMap OwnedBuffer.texts)

def FunctionDecl.texts (f : FunctionDecl) : List String :=
  [f.name, f.type, f.returnType] ++ f.params.flatMap Param.texts

def EnumDecl.texts (e : EnumDecl) : List String := e.name :: e.items.map (·.name)

def ConstGroup.texts (g : ConstGroup) : List String := g.items.map (·.name)

def Declaration.texts : Declaration → List String
  | .function f => f.texts
  | .struct s => s.texts
  | .enum e => e.texts
  | .consts g => g.texts

def DependencyType.name : DependencyType → String
  | .struct name | .enum name => name

/-- All strings of an interface. -/
def Interface.texts (i : Interface) : List String :=
  i.module.toList ++ i.stem.toList ++ i.decls.flatMap Declaration.texts ++
    i.dependencies.map (·.name)

def Naming.texts (n : Naming) : List String :=
  [n.module, n.stem, n.metatableSpace, n.callQualifier] ++ n.entryPoint.toList ++ n.typeStems ++
    n.constStem.toList

def Filter.texts (f : Filter) : List String := f.skip ++ f.manual ++ f.skipStructs

def ByteRange.texts (r : ByteRange) : List String := [r.pointer, r.size]

def TypeRules.tupleTexts (t : TypeRules) : List String :=
  t.tuples.flatMap fun tuple => tuple.1 :: tuple.2

def TypeRules.rangeTexts (t : TypeRules) : List String :=
  t.byteRanges.flatMap fun range => range.1 :: range.2.texts

def TypeRules.texts (t : TypeRules) : List String :=
  t.basicStructs ++ t.basicEnums ++ t.aliases.flatMap (fun a => [a.1, a.2]) ++
    t.integerStems ++ t.countNames ++ t.arrayParams.map (·.1) ++
    t.tupleTexts ++ t.rangeTexts ++ t.flattened

def OwnedBufferRule.texts (r : OwnedBufferRule) : List String := [r.struct, r.pointer, r.count]

def DummyBackend.texts (d : DummyBackend) : List String :=
  d.guard :: d.stems ++ d.returns.flatMap (fun (function, value) => [function, value])

def Output.texts (o : Output) : List String :=
  o.includes ++ [o.exportMacro] ++ o.callbackErrorSink.toList ++
    o.extraRegistrations.flatMap (fun e => [e.name, e.function])

/-- All strings of a manifest. -/
def Manifest.texts (m : Manifest) : List String :=
  m.naming.texts ++ m.filter.texts ++ m.types.texts ++ m.ownedBuffers.flatMap (·.texts) ++
    m.dummyBackend.toList.flatMap (·.texts) ++ m.output.texts

/-! ## What generation knows -/

/-- What generation knows is over `P`. -/
structure Context.Over (P : Char → Prop) (ctx : Context) : Prop where
  interface : ∀ t ∈ ctx.interface.texts, Text.Over P t
  manifest : ∀ t ∈ ctx.manifest.texts, Text.Over P t
  naming : ∀ t ∈ ctx.naming.texts, Text.Over P t
  index : ∀ t ∈ ctx.index.names, Text.Over P t

open Text

variable {P : Char → Prop}

/-- The strings of a declaration are the interface's. -/
theorem Interface.texts_of_decl {i : Interface} {d : Declaration} (hd : d ∈ i.decls) :
    ∀ t ∈ d.texts, t ∈ i.texts := by
  intro t ht
  have := List.mem_flatMap.mpr ⟨d, hd, ht⟩
  simp only [Interface.texts, List.mem_append]
  exact .inl (.inr this)

theorem StructDecl.field_texts {s : StructDecl} {f : Field} (hf : f ∈ s.fields) :
    ∀ t ∈ f.texts, t ∈ s.texts := fun _ ht =>
  List.mem_cons_of_mem _ (List.mem_append_left _ (List.mem_flatMap.mpr ⟨f, hf, ht⟩))

namespace StructDecl

variable {s : StructDecl} (h : ∀ t ∈ s.texts, Text.Over P t)

include h

theorem over_name : Text.Over P s.name := h s.name List.mem_cons_self

theorem over_field {f : Field} (hf : f ∈ s.fields) : Text.Over P f.name ∧ Text.Over P f.type := by
  have hmem := StructDecl.field_texts hf
  exact ⟨h _ (hmem _ (by simp [Field.texts])), h _ (hmem _ (by simp [Field.texts]))⟩

theorem over_buffer {b : OwnedBuffer} (hb : b ∈ s.ownedBuffers) :
    Text.Over P b.pointerField ∧ Text.Over P b.countField := by
  have hmem : ∀ t ∈ b.texts, t ∈ s.texts := fun t ht =>
    List.mem_cons_of_mem _ (List.mem_append_right _ (List.mem_flatMap.mpr ⟨b, hb, ht⟩))
  exact ⟨h _ (hmem _ (by simp [OwnedBuffer.texts])), h _ (hmem _ (by simp [OwnedBuffer.texts]))⟩

end StructDecl

theorem Manifest.texts_of_rule {m : Manifest} {t : String} (ht : t ∈ m.types.texts) : t ∈ m.texts := by
  simp only [Manifest.texts, List.mem_append]
  tauto

theorem TypeRules.mem_tupleTexts {t : TypeRules} {tuple : String × List String} (h : tuple ∈ t.tuples)
    {s : String} (hs : s ∈ tuple.1 :: tuple.2) : s ∈ t.tupleTexts :=
  List.mem_flatMap.mpr ⟨tuple, h, hs⟩

theorem TypeRules.mem_rangeTexts {t : TypeRules} {range : String × ByteRange}
    (h : range ∈ t.byteRanges) {s : String} (hs : s ∈ range.1 :: range.2.texts) : s ∈ t.rangeTexts :=
  List.mem_flatMap.mpr ⟨range, h, hs⟩

section

variable {ctx : Context}

theorem Naming.metatableHome_mem (n : Naming) : n.metatableHome ∈ n.texts := by
  unfold metatableHome
  split <;> simp [texts]

theorem Context.byteRange?_texts {name : String} {range : ByteRange}
    (hr : ctx.byteRange? name = some range) : ∀ t ∈ range.texts, t ∈ ctx.manifest.texts := by
  obtain ⟨before, after, heq, -⟩ := List.lookup_eq_some_iff.mp hr
  have hmem : (name, range) ∈ ctx.manifest.types.byteRanges := by rw [heq]; simp
  intro t ht
  have := TypeRules.mem_rangeTexts hmem (List.mem_cons_of_mem name ht)
  exact Manifest.texts_of_rule (by simp only [TypeRules.texts, List.mem_append]; tauto)

theorem Context.aliasTarget_mem {name target : String}
    (ht : ctx.manifest.types.aliases.lookup name = some target) : target ∈ ctx.manifest.texts := by
  obtain ⟨before, after, heq, -⟩ := List.lookup_eq_some_iff.mp ht
  have hmem : (name, target) ∈ ctx.manifest.types.aliases := by rw [heq]; simp
  have : target ∈ ctx.manifest.types.aliases.flatMap fun a => [a.1, a.2] :=
    List.mem_flatMap.mpr ⟨(name, target), hmem, List.mem_cons_of_mem name List.mem_cons_self⟩
  exact Manifest.texts_of_rule (by simp only [TypeRules.texts, List.mem_append]; tauto)

theorem Context.tupleEntries_mem {name entry : String} {entries : List String}
    (ht : ctx.manifest.types.tuples.lookup name = some entries) (hentry : entry ∈ entries) :
    entry ∈ ctx.manifest.texts := by
  obtain ⟨before, after, heq, -⟩ := List.lookup_eq_some_iff.mp ht
  have hmem : (name, entries) ∈ ctx.manifest.types.tuples := by rw [heq]; simp
  have := TypeRules.mem_tupleTexts hmem (List.mem_cons_of_mem name hentry)
  exact Manifest.texts_of_rule (by simp only [TypeRules.texts, List.mem_append]; tauto)

theorem Context.struct?_texts {name : String} {s : StructDecl}
    (hs : ctx.interface.struct? name = some s) : ∀ t ∈ s.texts, t ∈ ctx.interface.texts :=
  Interface.texts_of_decl (declared_of_mem_structs (List.mem_of_find?_eq_some hs))

/-- Where a tuple's member has its name and its type from. -/
structure TupleMember.From (ctx : Context) (entry : String) (m : TupleMember) : Prop where
  field : m.field.toList <:+: entry.toList
  type : m.type.toList <:+: entry.toList ∨ m.type ∈ ctx.interface.texts ∨ m.type = defaultMemberType

theorem Context.tupleMember_from (ctx : Context) (name entry : String) :
    ctx.tupleMember name entry = .error (.tuple name (.emptyMember entry)) ∨
      ∃ m, ctx.tupleMember name entry = .ok m ∧ m.From ctx entry := by
  have pair (field type : String) (h : (⟨field, type⟩ : TupleMember).From ctx entry) :
      let answer : Except Fault TupleMember :=
        if field.isEmpty then .error (.tuple name (.emptyMember entry)) else .ok ⟨field, type⟩
      answer = .error (.tuple name (.emptyMember entry)) ∨ ∃ m, answer = .ok m ∧ m.From ctx entry := by
    dsimp only
    split
    · exact .inl rfl
    · exact .inr ⟨_, rfl, h⟩
  unfold Context.tupleMember
  cases hcut : cutAtChar? ':' entry.toList with
  | some parts =>
    obtain ⟨before, after⟩ := parts
    have hentry := eq_of_cutAtChar? hcut
    refine pair (String.ofList (trim before)) (String.ofList (trim after)) ⟨?_, .inl ?_⟩
    · rw [String.toList_ofList, hentry]
      exact (infix_trim before).trans (List.prefix_append _ _).isInfix
    · rw [String.toList_ofList, hentry]
      exact (infix_trim after).trans ((List.suffix_cons ':' after).trans (List.suffix_append _ _)).isInfix
  | none =>
    refine pair (trimmed entry) _ ⟨?_, .inr ?_⟩
    · rw [trimmed, String.toList_ofList]
      exact infix_trim entry.toList
    · cases hfield : (ctx.interface.struct? name).bind fun s => s.field? (trimmed entry) with
      | none => exact .inr rfl
      | some field =>
        obtain ⟨s, hs, hf⟩ := Option.bind_eq_some_iff.mp hfield
        refine .inl (Context.struct?_texts hs _ ?_)
        exact StructDecl.field_texts (List.mem_of_find?_eq_some hf) _ (by simp [Field.texts])

end

theorem FunctionDecl.over_param {f : FunctionDecl} (h : ∀ t ∈ f.texts, Text.Over P t) {p : Param}
    (hp : p ∈ f.params) : Text.Over P p.name ∧ Text.Over P p.type := by
  have hmem : ∀ t ∈ p.texts, t ∈ f.texts := fun t ht =>
    List.mem_append_right _ (List.mem_flatMap.mpr ⟨p, hp, ht⟩)
  exact ⟨h _ (hmem _ (by simp [Param.texts])), h _ (hmem _ (by simp [Param.texts]))⟩

/-- The names of the index are those of structs, enums and rules. -/
theorem TypeIndex.build_over {i : Interface} {m : Manifest} (hi : ∀ t ∈ i.texts, Text.Over P t)
    (hm : ∀ t ∈ m.texts, Text.Over P t) : ∀ t ∈ (TypeIndex.build i m).names, Text.Over P t := by
  have hdependency : ∀ d ∈ i.dependencies, Text.Over P d.name := fun d hd =>
    hi _ (by simp only [Interface.texts, List.mem_append]; exact .inr (List.mem_map_of_mem hd))
  have hrule : ∀ t ∈ m.types.texts, Text.Over P t := fun t ht =>
    hm t (by simp only [Manifest.texts, List.mem_append]; tauto)
  intro t ht
  simp only [TypeIndex.names, TypeIndex.build, List.mem_append, List.mem_map,
    List.mem_filterMap] at ht
  rcases ht with ((((⟨s, hs, rfl⟩ | ⟨d, hd, heq⟩) | h) | ((⟨e, he, rfl⟩ | ⟨d, hd, heq⟩) | h)) |
    ⟨tuple, h, rfl⟩) | ⟨range, h, rfl⟩
  · exact StructDecl.over_name fun t ht =>
      hi t (Interface.texts_of_decl (declared_of_mem_structs hs) t ht)
  · cases d <;> simp only [Option.some.injEq, reduceCtorEq] at heq
    exact heq ▸ hdependency _ hd
  · exact hrule t (by simp only [TypeRules.texts, List.mem_append]; tauto)
  · exact hi _ (Interface.texts_of_decl (declared_of_mem_enums he) _ List.mem_cons_self)
  · cases d <;> simp only [Option.some.injEq, reduceCtorEq] at heq
    exact heq ▸ hdependency _ hd
  · exact hrule t (by simp only [TypeRules.texts, List.mem_append]; tauto)
  · refine hrule _ ?_
    have := TypeRules.mem_tupleTexts h List.mem_cons_self
    simp only [TypeRules.texts, List.mem_append]
    tauto
  · refine hrule _ ?_
    have := TypeRules.mem_rangeTexts h List.mem_cons_self
    simp only [TypeRules.texts, List.mem_append]
    tauto

namespace Context.Over

variable [Alphabet P] {ctx : Context} (h : ctx.Over P)

include h

omit [Alphabet P] in
theorem categoryOf {spelling : String} :
    (ctx.classify spelling).Stays P (Category.Over P) :=
  classify_stays h.index spelling

omit [Alphabet P] in
theorem metatableHome : Text.Over P ctx.naming.metatableHome :=
  h.naming _ (Naming.metatableHome_mem _)

theorem metatable {native : String} (hn : Text.Over P native) :
    Text.Over P (ctx.metatable native) := by
  unfold Context.metatable Naming.metatable
  exact over_append.mpr ⟨over_append.mpr ⟨h.metatableHome, over_literal (by decide)⟩,
    typeName_over hn⟩

omit [Alphabet P] in
theorem callName {function : String} (hf : Text.Over P function) :
    Text.Over P (ctx.callName function) := by
  refine over_append.mpr ⟨h.naming _ ?_, hf⟩
  simp [Naming.texts]

omit [Alphabet P] in
theorem byteRange? {name : String} {range : ByteRange} (hr : ctx.byteRange? name = some range) :
    Text.Over P range.pointer ∧ Text.Over P range.size := by
  have htext : ∀ t ∈ range.texts, Text.Over P t := fun t ht => h.manifest t (Context.byteRange?_texts hr t ht)
  exact ⟨htext _ (by simp [ByteRange.texts]), htext _ (by simp [ByteRange.texts])⟩

omit [Alphabet P] in
theorem struct {s : StructDecl} (hs : s ∈ ctx.interface.structs) :
    ∀ t ∈ s.texts, Text.Over P t := fun t ht =>
  h.interface t (Interface.texts_of_decl (declared_of_mem_structs hs) t ht)

omit [Alphabet P] in
theorem struct? {name : String} {s : StructDecl} (hs : ctx.interface.struct? name = some s) :
    ∀ t ∈ s.texts, Text.Over P t :=
  fun t ht => h.interface t (Context.struct?_texts hs t ht)

omit h in
theorem null : Text.Over P ctx.null := by
  unfold Context.null
  split <;> exact over_literal (by decide)

omit h [Alphabet P] in
theorem emptyBraces : isInitializer ctx.emptyBraces := by
  unfold Context.emptyBraces
  split
  · exact .inl rfl
  · exact .inr rfl

omit h in
theorem zeroInit (c : Category) : (Expr.text (ctx.zeroInit c)).Over P := by
  unfold Context.zeroInit
  split
  · exact .inl (over_literal (by decide))
  · exact .inl (over_literal (by decide))
  · exact .inl (over_literal (by decide))
  · split
    · exact .inr emptyBraces
    · exact .inl (over_literal (by decide))
  · exact .inl null
  · exact .inl null
  · exact .inl null
  · exact .inl null
  · exact .inl null
  · exact .inr emptyBraces

omit h in
theorem zeroLiteral? {valueType zero : String} {c : Category} (ht : Text.Over P valueType)
    (hz : ctx.zeroLiteral? valueType c = some zero) : Text.Over P zero := by
  unfold Context.zeroLiteral? at hz
  split at hz
  · exact Option.some.inj hz ▸ over_literal (by decide)
  · exact Option.some.inj hz ▸ over_literal (by decide)
  · exact Option.some.inj hz ▸ over_literal (by decide)
  · obtain rfl := Option.some.inj hz
    exact over_append.mpr ⟨over_append.mpr ⟨over_literal (by decide), ht⟩, over_literal (by decide)⟩
  · exact Option.some.inj hz ▸ null
  · exact Option.some.inj hz ▸ null
  · exact Option.some.inj hz ▸ null
  · exact Option.some.inj hz ▸ null
  · cases hz

/-! ## Tuples and callbacks -/

/-- A tuple's member has its names from the manifest or from the struct. -/
theorem tupleMember {name entry : String} (hname : Text.Over P name) (hentry : Text.Over P entry) :
    StaysOrFails P (fun m => Text.Over P m.field ∧ Text.Over P m.type)
      (ctx.tupleMember name entry) := by
  rcases Context.tupleMember_from ctx name entry with hm | ⟨m, hm, hfield, htype⟩ <;> rw [hm]
  · exact ⟨hname, hentry⟩
  · refine ⟨fun c hc => hentry c (hfield.subset hc), ?_⟩
    rcases htype with htype | htype | htype
    · exact fun c hc => hentry c (htype.subset hc)
    · exact h.interface _ htype
    · rw [htype]
      exact over_literal (by decide)

theorem tupleMembers {name : String} (hname : Text.Over P name) :
    StaysOrFails P (fun ms => ∀ m ∈ ms, Text.Over P m.field ∧ Text.Over P m.type)
      (ctx.tupleMembers name) := by
  unfold Context.tupleMembers
  split
  · exact hname
  · exact hname
  · exact StaysOrFails.mapM fun entry hentry =>
      h.tupleMember hname (h.manifest _ (Context.tupleEntries_mem ‹_› hentry))

omit [Alphabet P] in
theorem aliasTarget {name target : String} (ht : ctx.manifest.types.aliases.lookup name = some target) :
    Text.Over P target :=
  h.manifest _ (Context.aliasTarget_mem ht)

omit [Alphabet P] in
theorem dummyBackend {d : DummyBackend} (hd : ctx.manifest.dummyBackend = some d) :
    ∀ t ∈ d.texts, Text.Over P t := by
  intro t ht
  refine h.manifest t ?_
  simp only [Manifest.texts, hd, Option.toList_some, List.flatMap_singleton, List.mem_append]
  tauto

omit [Alphabet P] in
theorem output : ∀ t ∈ ctx.manifest.output.texts, Text.Over P t := by
  intro t ht
  refine h.manifest t ?_
  simp only [Manifest.texts, List.mem_append]
  tauto

omit [Alphabet P] in
/-- Unbinding structs leaves all names in place. -/
theorem unbind (names : List String) : (ctx.unbind names).Over P :=
  ⟨h.interface, h.manifest, h.naming, h.index⟩

end Context.Over

/-! ## From the strings of a module -/

theorem Naming.fillFrom_over {n : Naming} {i : Interface} (hn : ∀ t ∈ n.texts, Text.Over P t)
    (hi : ∀ t ∈ i.texts, Text.Over P t) : ∀ t ∈ (n.fillFrom i).texts, Text.Over P t := by
  have given : ∀ (own : String) (other : Option String), Text.Over P own →
      (∀ t ∈ other, Text.Over P t) → Text.Over P (if own.isEmpty then other.getD "" else own) := by
    intro own other hown hother
    split
    · cases other with
      | none => exact over_empty
      | some t => exact hother t rfl
    · exact hown
  simp only [Interface.texts, List.mem_append, Option.mem_toList] at hi
  simp only [Naming.texts, List.mem_append, List.mem_cons, List.not_mem_nil, or_false] at hn ⊢
  rintro t ((((rfl | rfl | rfl | rfl) | ht) | ht) | ht)
  · exact given _ _ (hn _ (by tauto)) fun t ht => hi t (by tauto)
  · exact given _ _ (hn _ (by tauto)) fun t ht => hi t (by tauto)
  · exact hn _ (.inl (.inl (.inl (.inr (.inr (.inl rfl))))))
  · exact hn _ (.inl (.inl (.inl (.inr (.inr (.inr rfl))))))
  · exact hn t (.inl (.inl (.inr ht)))
  · exact hn t (.inl (.inr ht))
  · exact hn t (.inr ht)

theorem Context.findBound_stays {index : TypeIndex} (hindex : ∀ name ∈ index.names, Text.Over P name)
    (m : Manifest) (structs : List StructDecl) :
    (Context.findBound index m structs).Stays P fun _ => True := by
  induction structs with
  | nil => exact .pure trivial
  | cons s rest ih =>
    rw [Context.findBound]
    split
    · exact ih
    · refine (classify_stays hindex s.name).bind fun c _ => ?_
      split
      · exact ih.bind fun _ _ => .pure trivial
      · exact ih.bind fun _ _ => .pure trivial
      · exact ih

theorem Context.build_stays {i : Interface} {m : Manifest} (hi : ∀ t ∈ i.texts, Text.Over P t)
    (hm : ∀ t ∈ m.texts, Text.Over P t) : (Context.build i m).Stays P (Context.Over P) := by
  have hindex := TypeIndex.build_over hi hm
  have hnaming : ∀ t ∈ m.naming.texts, Text.Over P t := fun t ht =>
    hm t (by simp only [Manifest.texts, List.mem_append]; tauto)
  exact (findBound_stays hindex m i.structs).bind fun _ _ =>
    .pure ⟨hi, hm, Naming.fillFrom_over hnaming hi, hindex⟩

end LuaGlue
