import LuaGlue.Proofs.Callback.DispatcherCode
import LuaGlue.Proofs.Function.Alphabet
import LuaGlue.Userdata.Binding

/-!
# Bound structs in an alphabet

The code of a struct is written with the names and spellings of its fields, with those of the members its
flattened fields have, and with its tuples, byte ranges and signatures. It stays in the alphabet of the
module whether or not it comes to an end.
-/

set_option autoImplicit false

namespace LuaGlue

open Draft Text

variable {P : Char → Prop}

/-! ## Accessors -/

def Access.Over (P : Char → Prop) : Access → Prop
  | .value | .callback => True
  | .ownedCount pointer => Text.Over P pointer
  | .ownedBuffer _ countField countType elem =>
    Text.Over P countField ∧ Text.Over P countType ∧ Text.Over P elem

structure Accessor.Over (P : Char → Prop) (a : Accessor) : Prop where
  key : Text.Over P a.key
  type : Text.Over P a.type
  path : Text.Over P a.path
  access : a.access.Over P

def Field.Over (P : Char → Prop) (f : Field) : Prop := Text.Over P f.name ∧ Text.Over P f.type

theorem Field.Over.accessor {f : Field} {access : Access} (hf : f.Over P) (ha : access.Over P) :
    (f.accessor access).Over P :=
  ⟨hf.1, hf.2, hf.1, ha⟩

section

variable {s : StructDecl} (hs : ∀ t ∈ s.texts, Text.Over P t)

include hs

theorem StructDecl.over_fields : ∀ f ∈ s.fields, f.Over P := fun _ hf => StructDecl.over_field hs hf

theorem StructDecl.over_bufferAt? {field : String} {bit : Nat} {buffer : OwnedBuffer}
    (hb : s.bufferAt? field = some (bit, buffer)) :
    Text.Over P buffer.pointerField ∧ Text.Over P buffer.countField := by
  unfold bufferAt? at hb
  split at hb
  · rename_i found hfound
    obtain ⟨rfl, rfl⟩ := Prod.mk.inj (Option.some.inj hb)
    exact StructDecl.over_buffer hs (List.mem_of_find?_eq_some hfound)
  · cases hb

theorem StructDecl.over_ownedCount? {field : String} {buffer : OwnedBuffer}
    (hb : s.ownedCount? field = some buffer) : Text.Over P buffer.pointerField :=
  (StructDecl.over_buffer hs (List.mem_of_find?_eq_some hb)).1

end

variable [Alphabet P] {ctx : Context}

theorem ownedAccess_over {s : StructDecl} {f : Field} {bit : Nat} {buffer : OwnedBuffer}
    (hs : ∀ t ∈ s.texts, Text.Over P t) (hf : f.Over P) (hb : Text.Over P buffer.countField) :
    StaysOrFails P (Access.Over P) (ownedAccess s f bit buffer) := by
  unfold ownedAccess
  split
  · rename_i elem count helem hcount
    exact ⟨hb, (StructDecl.over_fields hs _ (List.mem_of_find?_eq_some hcount)).2,
      pointeeType?_over hf.2 helem⟩
  · exact ⟨StructDecl.over_name hs, hf.1, hf.2⟩

variable (h : ctx.Over P)

include h

omit [Alphabet P] in
theorem nestedStruct?_stays (f : Field) :
    (nestedStruct? ctx f).Stays P fun nested => ∀ s ∈ nested, ∀ t ∈ s.texts, Text.Over P t := by
  refine h.categoryOf.bind fun c _ => ?_
  split
  · exact .pure fun s hs => h.struct? hs
  · exact .pure (by simp)

theorem flattenedMembers_stays {outer : String} (ho : Text.Over P outer) (nested : StructDecl) :
    ∀ (fields : List Field) (taken : List String), (∀ f ∈ fields, f.Over P) →
      (flattenedMembers ctx outer nested taken fields).Stays P fun r => ∀ a ∈ r.1, a.Over P := by
  intro fields
  induction fields with
  | nil => exact fun _ _ => .pure (by simp)
  | cons f rest ih =>
    intro taken hfields
    obtain ⟨hf, hrest⟩ := List.forall_mem_cons.mp hfields
    have hpath : Text.Over P (outer ++ "." ++ f.name) :=
      over_append.mpr ⟨over_append.mpr ⟨ho, over_literal (by decide)⟩, hf.1⟩
    rw [flattenedMembers]
    refine h.categoryOf.bind fun c _ => ?_
    split
    · exact ih taken hrest
    · exact (ih _ hrest).bind fun r hr =>
        .pure (List.forall_mem_cons.mpr ⟨⟨hf.1, hf.2, hpath, trivial⟩, hr⟩)

theorem fieldAccessors_stays {s : StructDecl} {f : Field} (hs : ∀ t ∈ s.texts, Text.Over P t)
    (hf : f.Over P) (taken : List String) :
    (fieldAccessors ctx s taken f).Stays P
      (StaysOrFails P fun r => ∀ a ∈ r.1, a.Over P) := by
  have single (access : Access) (ha : access.Over P) : ∀ a ∈ [f.accessor access], a.Over P :=
    List.forall_mem_singleton.mpr (hf.accessor ha)
  unfold fieldAccessors
  refine h.categoryOf.bind fun c _ => ?_
  split
  · refine .pure ?_
    unfold StaysOrFails
    dsimp only
    split
    · exact single _ trivial
    · simp
  · split
    · rename_i bit buffer hbuffer
      have hbuffer := StructDecl.over_bufferAt? hs hbuffer
      exact .pure ((ownedAccess_over hs hf hbuffer.2).map single)
    · split
      · rename_i buffer hbuffer
        have hpointer : Text.Over P buffer.pointerField := StructDecl.over_ownedCount? hs hbuffer
        exact .pure (single (.ownedCount buffer.pointerField) hpointer)
      · split
        · refine (nestedStruct?_stays h f).bind fun nested hnested => ?_
          cases nested with
          | none => exact .pure (single .value trivial)
          | some nested =>
            refine (flattenedMembers_stays h hf.1 nested nested.fields taken
              (StructDecl.over_fields (hnested nested rfl))).bind fun r hr => .pure ?_
            exact List.forall_mem_cons.mpr ⟨hf.accessor trivial, hr⟩
        · exact .pure (single .value trivial)

theorem accessorsFrom_stays {s : StructDecl} (hs : ∀ t ∈ s.texts, Text.Over P t) :
    ∀ (fields : List Field) (taken : List String), (∀ f ∈ fields, f.Over P) →
      (accessorsFrom ctx s taken fields).Stays P (StaysOrFails P fun as => ∀ a ∈ as, a.Over P) := by
  intro fields
  induction fields with
  | nil => exact fun _ _ => .pure fun a ha => absurd ha List.not_mem_nil
  | cons f rest ih =>
    intro taken hfields
    obtain ⟨hf, hrest⟩ := List.forall_mem_cons.mp hfields
    rw [accessorsFrom]
    refine (fieldAccessors_stays h hs hf taken).bind fun answer hanswer => ?_
    cases answer with
    | error fault => exact .pure hanswer
    | ok r =>
      exact (ih r.2 hrest).bind fun as has =>
        .pure (has.map fun _ hothers => List.forall_mem_append.mpr ⟨hanswer, hothers⟩)

/-- **The accessors of a struct are about names and spellings of the module.** -/
theorem accessors_stays {s : StructDecl} (hs : ∀ t ∈ s.texts, Text.Over P t) :
    (accessors ctx s).Stays P (StaysOrFails P fun as => ∀ a ∈ as, a.Over P) :=
  accessorsFrom_stays h hs s.fields _ (StructDecl.over_fields hs)

/-! ## Getters and setters -/

omit h in
theorem Accessor.Over.place {a : Accessor} (ha : a.Over P) : a.place.Over P :=
  ⟨over_literal (by decide), ha.path⟩

omit h in
theorem anchor_over {key : String} {value : StackIndex} (hk : Text.Over P key) (hv : value.Over P) :
    (anchor key value).Over P := by
  simp (disch := decide) [anchor, udValue, over_literal, hk, hv]

omit h in
theorem anchorKeep_over {key : String} (hk : Text.Over P key) : ∀ l ∈ anchorKeep key, l.Over P := by
  have hkeep : (StackIndex.held keepLocal).Over P := (over_literal (by decide) : Text.Over P keepLocal)
  have hanchor := anchor_over hk hkeep
  simp (disch := decide) [anchorKeep, valueIndex, over_literal, popOne, hanchor]

theorem bufferGetter_writes {a : Accessor} {countField elem : String} (ha : a.Over P)
    (hc : Text.Over P countField) (he : Text.Over P elem) :
    (bufferGetter ctx a countField elem).Writes P := by
  have hnull : Text.Over P ctx.null := Context.Over.null
  have hplace := ha.place
  have hi : Text.Over P "i" := over_literal (by decide)
  have helement : (a.place.element "i").Over P := ⟨hplace, hi⟩
  refine .andThen (.lines ?_) fun _ => .block (by simp (disch := decide) [over_literal]) ?_
  · simp (disch := decide) [over_literal, hnull, hplace, hc]
  · exact .andThen (push_writes h he helement) fun _ => .line (by simp [hi])

theorem getter_writes {struct : String} {a : Accessor} (hs : Text.Over P struct) (ha : a.Over P) :
    (getter ctx struct a).Writes P := by
  have haccess := ha.access
  have hparams : Text.Over P ("lua_State* L, " ++ struct ++ "* self") := by
    simp (disch := decide) [over_literal, hs]
  refine .andThen (.block ⟨over_literal (by decide), ⟨hs, ha.key⟩, hparams⟩ ?_) fun _ => .line trivial
  split
  · rename_i heq
    rw [heq] at haccess
    exact bufferGetter_writes h ha haccess.1 haccess.2.2
  · exact push_writes h ha.type ha.place

omit h in
/-- The end of a setter anchors something, or nothing. -/
theorem anchoring_writes {key : String} (hk : Text.Over P key) (keep anchored : Bool) :
    (if keep then lines (anchorKeep key)
      else if anchored then line (anchor key valueIndex) else line (.unused "ud") :
      Draft Unit).Writes P := by
  have hvalue : valueIndex.Over P := (over_literal (by decide) : Text.Over P "value")
  split
  · exact .lines (anchorKeep_over hk)
  · split
    · exact .line (anchor_over hk hvalue)
    · exact .line (over_literal (by decide) : Text.Over P "ud")

theorem valueSetter_writes {a : Accessor} (ha : a.Over P) : (valueSetter ctx a).Writes P := by
  have hvalue : valueIndex.Over P := (over_literal (by decide) : Text.Over P "value")
  unfold valueSetter
  refine (h.asked a.type).bind fun c _ => Stays.bind (.asking (needsKeep_stays h a.type)) fun keep _ => ?_
  refine .whenThen (.lines keepTable_over) ?_
  refine .andThen (read_writes h ha.type ha.place hvalue) fun _ => ?_
  refine .whenThen (.lines ?_) (anchoring_writes ha.key keep c.needsAnchor)
  simp (disch := decide) [over_literal]

theorem bufferSetter_writes {a : Accessor} {bit : Nat} {countField countType elem : String}
    (ha : a.Over P) (hc : Text.Over P countField) (ht : Text.Over P countType)
    (he : Text.Over P elem) : (bufferSetter ctx a bit countField countType elem).Writes P := by
  have hnull : Text.Over P ctx.null := Context.Over.null
  have hplace := ha.place
  have hkey := ha.key
  have htype := valueType_over he
  have hcount := valueType_over ht
  have helement : Place.Over P (.element (.name "buf") "i") :=
    ⟨over_literal (by decide), over_literal (by decide)⟩
  have hread : (read ctx .lenient elem (.element (.name "buf") "i") .top).Writes P :=
    read_writes h he helement trivial
  unfold bufferSetter
  refine Stays.bind (.asking (needsKeep_stays h elem)) fun keep _ => .andThen (.line ?_) fun _ => ?_
  · simp (disch := decide) [valueIndex, over_literal]
  refine .whenThen (.lines keepTable_over) (.andThen (.lines ?_) fun _ => ?_)
  · simp (disch := decide) [valueIndex, udValue, freeIfOwned, over_literal, hnull, hplace, hc]
  refine .andThen (.branch (over_literal (by decide)) trivial (.andThen (.lines ?_) fun _ => ?_)) fun _ =>
    anchoring_writes hkey keep true
  · simp (disch := decide) [udValue, over_literal, hnull, hplace, hc, htype, hcount, hkey]
  · refine .block (by simp (disch := decide) [over_literal]) (.andThen (.line ?_) fun _ => ?_)
    · simp (disch := decide) [valueIndex, over_literal]
    · exact .andThen hread fun _ => .line (by simp [popOne])

omit h in
theorem callbackSetter_over {owner field : String} (ho : Text.Over P owner) (hf : Text.Over P field) :
    ∀ l ∈ callbackSetter ctx owner field, l.Over P := by
  have hnull : Text.Over P ctx.null := Context.Over.null
  simp (disch := decide) [callbackSetter, Symbol.Over, over_literal, hnull, ho, hf]

theorem setter_writes {struct : String} {a : Accessor} (hs : Text.Over P struct) (ha : a.Over P) :
    (setter ctx struct a).Writes P := by
  have haccess := ha.access
  have hparams : Text.Over P ("lua_State* L, " ++ struct ++ "* self, int ud, int value") := by
    simp (disch := decide) [over_literal, hs]
  refine .andThen (.block ⟨over_literal (by decide), ⟨hs, ha.key⟩, hparams⟩ ?_) fun _ => .line trivial
  split
  · exact valueSetter_writes h ha
  · exact .lines (callbackSetter_over hs ha.key)
  · rename_i heq
    rw [heq] at haccess
    exact bufferSetter_writes h ha haccess.1 haccess.2.1 haccess.2.2
  · exact .fail ha.type

theorem fieldCode_writes {struct : String} (hs : Text.Over P struct) {as : List Accessor}
    (has : ∀ a ∈ as, a.Over P) : (fieldCode ctx struct as).Writes P := by
  induction as with
  | nil => exact .pure trivial
  | cons a rest ih =>
    obtain ⟨ha, hrest⟩ := List.forall_mem_cons.mp has
    rw [fieldCode]
    exact .whenThen (getter_writes h hs ha) (.whenThen (setter_writes h hs ha) (ih hrest))

/-! ## Callbacks -/

theorem signatureWithin_over (steps : Nat) : ∀ {spelling : String} {f : FunctionPointer},
    Text.Over P spelling → signatureWithin ctx.manifest.types.aliases steps spelling = some f →
    (CType.function f).Over P := by
  induction steps with
  | zero => exact fun _ hf => by cases hf
  | succ steps ih =>
    intro spelling f hs hf
    have hparse := CType.parse_over hs
    rw [signatureWithin] at hf
    split at hf
    · rename_i f' heq
      rw [heq] at hparse
      split at hf
      · cases hf
      · exact Option.some.inj hf ▸ hparse
    · split at hf
      · obtain ⟨target, htarget, hf⟩ := Option.bind_eq_some_iff.mp hf
        exact ih (h.aliasTarget htarget) hf
      · cases hf
    · cases hf

theorem signature_over {owner : String} {field : Field} (ho : Text.Over P owner) (hf : field.Over P) :
    StaysOrFails P (fun f => (CType.function f).Over P) (signature ctx owner field) := by
  unfold signature
  split
  · exact signatureWithin_over h maxSignatureSteps hf.2 ‹_›
  · exact ⟨ho, hf.1, hf.2⟩

omit h in
theorem callbackParam_over (i : Nat) : Text.Over P (callbackParam i) :=
  over_append.mpr ⟨over_literal (by decide), over_toString i⟩

theorem pushArguments_writes {params : List String} (hparams : ∀ p ∈ params, Text.Over P p) :
    ∀ i : Nat, (pushArguments ctx i params).Writes P := by
  induction params with
  | nil => exact fun _ => .pure trivial
  | cons spelling rest ih =>
    intro i
    obtain ⟨hspelling, hrest⟩ := List.forall_mem_cons.mp hparams
    have hplace : (Place.name (callbackParam i)).Over P := callbackParam_over i
    exact .andThen (push_writes h hspelling hplace) fun _ => ih hrest (i + 1)

omit h [Alphabet P] in
theorem reportFailure_over {site : String} {message : Arg} (hs : Text.Over P site)
    (hm : message.Over P) : (reportFailure site message).Over P :=
  ⟨trivial, List.forall_mem_cons.mpr ⟨hs, List.forall_mem_singleton.mpr hm⟩⟩

theorem answerResult_writes {result : String} {category : Category} (hr : Text.Over P result) :
    (answerResult ctx result category).Writes P := by
  have hret : Text.Over P "ret" := over_literal (by decide)
  unfold answerResult
  split
  · refine .andThen (.line (.declare (declareLocal_over hr hret) (Context.Over.zeroInit category)))
      fun _ => .andThen (read_writes h hr hret trivial) fun _ => .lines ?_
    simp [popOne, hret]
  · split
    · exact returnZero_writes h hr
    · exact .pure trivial

theorem callClosure_writes {site result : String} {category : Category} {nargs : Nat}
    (hs : Text.Over P site) (hr : Text.Over P result) :
    (callClosure ctx site result category nargs).Writes P := by
  have hnull : Text.Over P ctx.null := Context.Over.null
  have hmessage : Text.Over P
      ("msg != " ++ ctx.null ++ " ? msg : \"error object is not a string\"") := by
    simp (disch := decide) [over_literal, hnull]
  have hreport : (reportFailure site (.text _)).Over P := reportFailure_over hs hmessage
  refine .andThen (.branch trivial trivial (.andThen (.lines ?_) fun _ => returnZero_writes h hr))
    fun _ => answerResult_writes h hr
  simp (disch := decide) [failureLines, over_literal, popOne, hreport]

theorem dispatcherBody_writes {site result : String} {category : Category} {params : List String}
    (hs : Text.Over P site) (hr : Text.Over P result) (hparams : ∀ p ∈ params, Text.Over P p) :
    (dispatcherBody ctx site result category params).Writes P := by
  have hnull : Text.Over P ctx.null := Context.Over.null
  have zero := returnZero_writes h hr
  unfold dispatcherBody
  dsimp only
  refine .andThen (.branch ?_ trivial zero) fun _ => .andThen (.line ?_) fun _ => ?_
  · simp (disch := decide) [over_literal, hnull]
  · simp (disch := decide) [over_literal]
  refine .andThen (.branch (by simp) trivial
    (.andThen (.line (reportFailure_over hs (over_literal (by decide) : Text.Over P _))) fun _ =>
      zero)) fun _ => ?_
  refine .andThen (.line ?_) fun _ => .andThen (pushArguments_writes h hparams 0) fun _ => ?_
  · simp (disch := decide) [over_literal]
  refine .whenThen (.line ?_) (callClosure_writes h hs hr)
  simp (disch := decide) [over_literal, hr]

omit h in
theorem trampolineCode_over {owner field result : String} {category : Category} {params : String}
    (ho : Text.Over P owner) (hf : Text.Over P field) (hr : Text.Over P result)
    (hp : Text.Over P params) (nargs entry : Nat) :
    (trampolineCode owner field result category params nargs entry).Over P := by
  unfold trampolineCode
  refine Code.over_blockOf.mpr ⟨⟨over_append.mpr ⟨over_literal (by decide), hr⟩, ⟨ho, hf⟩, hp⟩, ?_,
    trivial⟩
  split <;> simp [Symbol.Over, ho, hf, callbackParam_over]

theorem trampolines_writes {owner : String} {field : Field} (ho : Text.Over P owner)
    (hf : field.Over P) : (trampolines ctx owner field).Writes P := by
  refine Stays.bind (.ofExcept (signature_over h ho hf)) fun signature hsignature => ?_
  have hr : Text.Over P (trimmed signature.result) := hsignature.1.trimmed
  have hdeclared : ∀ t ∈ signature.params.mapIdx fun i spelling => declare spelling (callbackParam i),
      Text.Over P t := by
    intro t ht
    obtain ⟨i, hi, rfl⟩ := List.mem_mapIdx.mp ht
    exact declare_over (hsignature.2 _ (List.getElem_mem hi)) (callbackParam_over i)
  generalize signature.params.mapIdx (fun i spelling => declare spelling (callbackParam i)) = declared
    at hdeclared ⊢
  have hcomma : Text.Over P ", " := over_literal (by decide)
  have hparams : Text.Over P (if declared.isEmpty then "void" else ", ".intercalate declared) := by
    split
    · exact over_literal (by decide)
    · exact over_intercalate hcomma hdeclared
  have hfirst : Text.Over P (", ".intercalate ("tether_slot* s" :: declared)) :=
    over_intercalate hcomma (List.forall_mem_cons.mpr ⟨over_literal (by decide), hdeclared⟩)
  have hresult : Text.Over P ("static " ++ trimmed signature.result) :=
    over_append.mpr ⟨over_literal (by decide), hr⟩
  have hsite : Text.Over P (owner ++ "." ++ field.name) :=
    over_append.mpr ⟨over_append.mpr ⟨ho, over_literal (by decide)⟩, hf.1⟩
  have htable : Text.Over P ("static const " ++ (Symbol.callbackType owner field.name).spelling) :=
    over_append.mpr ⟨over_literal (by decide), Symbol.spelling_over ⟨ho, hf.1⟩⟩
  refine .andThen (h.asked (trimmed signature.result)).writes fun category => ?_
  refine .andThen (.block ⟨hresult, ⟨ho, hf.1⟩, hfirst⟩ ?_) fun _ => .write ?_
  · exact dispatcherBody_writes h hsite hr hsignature.2
  · generalize (if declared.isEmpty then "void" else ", ".intercalate declared) = params
      at hparams ⊢
    have hsize : Text.Over P "TETHER_SLOT_POOL" := over_literal (by decide)
    have htrampoline (nargs entry : Nat) : (trampolineCode owner field.name
        (trimmed signature.result) category params nargs entry).Over P :=
      trampolineCode_over ho hf.1 hr hparams nargs entry
    simp [Symbol.Over, htrampoline, hr, hparams, htable, ho, hf.1, hsize]

theorem callbackCode_writes {s : StructDecl} (hs : ∀ t ∈ s.texts, Text.Over P t) {as : List Accessor}
    (has : ∀ a ∈ as, a.Over P) : (callbackCode ctx s as).Writes P := by
  induction as with
  | nil => exact .pure trivial
  | cons a rest ih =>
    obtain ⟨ha, hrest⟩ := List.forall_mem_cons.mp has
    rw [callbackCode]
    split
    · split
      · rename_i field hfield
        have hfield := StructDecl.over_fields hs field (List.mem_of_find?_eq_some hfield)
        exact .andThen (trampolines_writes h (StructDecl.over_name hs) hfield) fun _ => ih hrest
      · exact .andThen (.fail ha.type) fun _ => ih hrest
    · exact ih hrest

/-! ## The functions for the struct as a whole -/

section

omit h

theorem scriptFunction_over {f : Symbol} {body : Code} (hf : f.Over P) (hb : body.Over P) :
    (scriptFunction f body).Over P := by
  simp (disch := decide) [scriptFunction, over_literal, hf, hb]

theorem initField_over {struct : String} {a : Accessor} (hs : Text.Over P struct)
    (hk : Text.Over P a.key) : ∀ l ∈ initField struct a, l.Over P := by
  simp (disch := decide) [initField, selfValue, udValue, popOne, Symbol.Over, over_literal, hs, hk]

theorem takeBytes_over {range : ByteRange} {base : String} {index : StackIndex}
    (hr : Text.Over P range.pointer ∧ Text.Over P range.size) (hb : Text.Over P base)
    (hi : index.Over P) : ∀ l ∈ takeBytes range base index, l.Over P := by
  simp (disch := decide) [takeBytes, over_literal, hr.1, hr.2, hb, hi]

theorem declareLen_over : declareLen.Over P := by
  simp (disch := decide) [declareLen, over_literal]

end

section

variable {struct : String} {as : List Accessor} {range : Option ByteRange}
  (hs : Text.Over P struct) (has : ∀ a ∈ as, a.Over P)
  (hrange : ∀ r ∈ range, Text.Over P r.pointer ∧ Text.Over P r.size)

include hs

include has hrange in
theorem constructorCode_over : (constructorCode ctx struct as range).Over P := by
  have hself : Text.Over P "self" := over_literal (by decide)
  have hmeta := h.metatable hs
  have hinit : ∀ l ∈ (as.filter (·.writable)).flatMap (initField struct), l.Over P := by
    intro l hl
    obtain ⟨a, ha, hl⟩ := List.mem_flatMap.mp hl
    exact initField_over hs (has a (List.mem_filter.mp ha).1).key l hl
  unfold constructorCode
  refine scriptFunction_over hs (Code.over_seq.mpr (List.forall_mem_cons.mpr ⟨?_,
    List.forall_mem_cons.mpr ⟨?_, ?_⟩⟩))
  · simp (disch := decide) [selfValue, over_literal, hs, hmeta]
  · refine Code.over_branchOf.mpr ⟨by simp, Code.over_ofLines.mpr hinit, ?_⟩
    cases range with
    | none => trivial
    | some r =>
      have hr := hrange r rfl
      refine Code.over_branchOf.mpr ⟨trivial, Code.over_ofLines.mpr ?_, trivial⟩
      exact List.forall_mem_cons.mpr ⟨declareLen_over, List.forall_mem_append.mpr
        ⟨takeBytes_over hr hself trivial, List.forall_mem_singleton.mpr (anchor_over hr.1 trivial)⟩⟩
  · simp (disch := decide) [over_literal]

include hrange in
theorem converterCode_over : (converterCode ctx struct range).Over P := by
  have hidx : Text.Over P "idx" := over_literal (by decide)
  have hout : Text.Over P "out" := over_literal (by decide)
  have hnull : Text.Over P ctx.null := Context.Over.null
  have hmeta := h.metatable hs
  have hkeep : ∀ l ∈ keepAndSucceed, l.Over P := by
    simp (disch := decide) [keepAndSucceed, keepLocal, over_literal]
  have hparams : Text.Over P (converterParams struct) := by
    unfold converterParams
    simp (disch := decide) [over_literal, hs]
  have hbool : Text.Over P "static bool" := over_literal (by decide)
  have hpush : (Line.call (Api.pushvalue.on [.at (.held "idx")])).Over P := by simp [hidx]
  unfold converterCode
  refine Code.over_seq.mpr (List.forall_mem_cons.mpr ⟨Code.over_blockOf.mpr
    ⟨⟨hbool, hs, hparams⟩, Code.over_seq.mpr ?_, trivial⟩, by simp⟩)
  refine List.forall_mem_cons.mpr ⟨?_, List.forall_mem_cons.mpr ⟨?_, List.forall_mem_cons.mpr ⟨?_,
    List.forall_mem_singleton.mpr ?_⟩⟩⟩
  · simp [hidx, hnull]
  · refine Code.over_branchOf.mpr ⟨by simp [hidx], Code.over_ofLines.mpr ?_, trivial⟩
    refine List.forall_mem_append.mpr ⟨?_, hkeep⟩
    simp (disch := decide) [Symbol.Over, over_literal, hs]
  · cases range with
    | none => trivial
    | some r =>
      refine Code.over_branchOf.mpr ⟨hidx, Code.over_ofLines.mpr ?_, trivial⟩
      refine List.forall_mem_append.mpr ⟨List.forall_mem_append.mpr ⟨List.forall_mem_append.mpr
        ⟨?_, takeBytes_over (hrange r rfl) hout hidx⟩, List.forall_mem_singleton.mpr hpush⟩, hkeep⟩
      simp (disch := decide) [declareLen_over, over_literal, hs]
  · refine Code.over_ofLines.mpr (List.forall_mem_append.mpr ⟨?_, hkeep⟩)
    simp (disch := decide) [over_literal, hs, hmeta, hnull]

theorem checkSelf_over : (checkSelf ctx struct).Over P := by
  have hmeta := h.metatable hs
  simp (disch := decide) [checkSelf, over_literal, hs, hmeta]

omit h hs in
theorem checkKey_over : checkKey.Over P := by simp (disch := decide) [checkKey, over_literal]

omit h hs in
theorem keyError_over {format scriptName : String} {more : List Arg}
    (hf : Text.Over P format) (hn : Text.Over P scriptName) (hm : ∀ a ∈ more, a.Over P) :
    (keyError format scriptName more).Over P := by
  have hm : ∀ a ∈ [.literal format, .literal scriptName, .value (.name "key")] ++ more, a.Over P :=
    List.forall_mem_append.mpr ⟨by simp (disch := decide) [over_literal, hf, hn], hm⟩
  exact ⟨trivial, List.forall_mem_cons.mpr ⟨trivial, hm⟩⟩

include has in
theorem indexCode_over : (indexCode ctx struct as).Over P := by
  unfold indexCode
  refine scriptFunction_over hs (Code.over_seq.mpr ?_)
  refine List.forall_mem_cons.mpr ⟨?_, List.forall_mem_cons.mpr ⟨Code.over_seq.mpr ?_, ?_⟩⟩
  · simp [checkSelf_over h hs, checkKey_over]
  · intro c hc
    obtain ⟨a, ha, rfl⟩ := List.mem_map.mp hc
    have hkey := (has a (List.mem_filter.mp ha).1).key
    simp (disch := decide) [selfValue, Symbol.Over, over_literal, hs, hkey]
  · simp (disch := decide) [over_literal]

omit h in
theorem assignKey_over {scriptName : String} {a : Accessor} (hn : Text.Over P scriptName)
    (ha : a.Over P) : ∀ l ∈ assignKey struct scriptName a, l.Over P := by
  have haccess := ha.access
  have hkey := ha.key
  unfold assignKey
  split
  · rename_i heq
    rw [heq] at haccess
    exact List.forall_mem_singleton.mpr
      (keyError_over (over_literal (by decide)) hn (List.forall_mem_singleton.mpr haccess))
  · simp (disch := decide) [selfValue, Symbol.Over, over_literal, hs, hkey]

include has in
theorem newIndexCode_over {scriptName : String} (hn : Text.Over P scriptName) :
    (newIndexCode ctx struct scriptName as).Over P := by
  unfold newIndexCode
  refine scriptFunction_over hs (Code.over_seq.mpr ?_)
  refine List.forall_mem_cons.mpr ⟨?_, List.forall_mem_cons.mpr ⟨Code.over_seq.mpr ?_, ?_⟩⟩
  · simp [checkSelf_over h hs, checkKey_over]
  · intro c hc
    obtain ⟨a, ha, rfl⟩ := List.mem_map.mp hc
    exact Code.over_branchOf.mpr ⟨(has a ha).key, Code.over_ofLines.mpr (assignKey_over hs hn (has a ha)),
      trivial⟩
  · have herror : (keyError "%s has no field '%s'" scriptName []).Over P :=
      keyError_over (over_literal (by decide)) hn (by simp)
    simp [herror]

omit h hs in
theorem collectBuffer_over {a : Accessor} (ha : a.Over P) : (collectBuffer ctx a).Over P := by
  have haccess := ha.access
  have hplace := ha.place
  have hnull : Text.Over P ctx.null := Context.Over.null
  unfold collectBuffer
  split
  · rename_i heq
    rw [heq] at haccess
    have hcount := haccess.1
    simp (disch := decide) [over_literal, hplace, hnull, hcount]
  · trivial

include has in
theorem collectorCode_over : (collectorCode ctx struct as).Over P := by
  unfold collectorCode
  refine scriptFunction_over hs (Code.over_seq.mpr ?_)
  refine List.forall_mem_cons.mpr ⟨?_, List.forall_mem_cons.mpr ⟨Code.over_seq.mpr ?_, ?_⟩⟩
  · simp (disch := decide) [checkSelf_over h hs, over_literal]
  · intro c hc
    obtain ⟨a, ha, rfl⟩ := List.mem_map.mp hc
    exact collectBuffer_over (has a ha)
  · simp (disch := decide) [over_literal]

end

/-! ## A whole struct -/

omit [Alphabet P] in
theorem byteRangeOf?_stays (struct : String) : (byteRangeOf? ctx struct).Stays P fun range =>
    ∀ r ∈ range, Text.Over P r.pointer ∧ Text.Over P r.size := by
  refine h.categoryOf.bind fun c _ => ?_
  split
  · exact .pure fun r hr => h.byteRange? hr
  · exact .pure (by simp)

omit [Alphabet P] in
theorem Accessor.binding_stays (a : Accessor) : (a.binding ctx).Stays P fun _ => True := by
  unfold Accessor.binding
  split <;> exact h.categoryOf.bind fun _ _ => .pure trivial

def StructBinding.Over (P : Char → Prop) (b : StructBinding) : Prop :=
  Text.Over P b.native ∧ Text.Over P b.scriptName ∧ Text.Over P b.metatable

/-- **The glue of a struct stays in the alphabet.** -/
theorem bindStruct_stays {s : StructDecl} (hs : ∀ t ∈ s.texts, Text.Over P t) :
    (bindStruct ctx s).Stays P (StructBinding.Over P) := by
  have hname : Text.Over P s.name := StructDecl.over_name hs
  have hscript : Text.Over P (ctx.naming.typeName s.name) := typeName_over hname
  refine Stays.bind (.asking (accessors_stays h hs)) fun answer hanswer =>
    Stays.bind (.ofExcept hanswer) fun as has => ?_
  refine .andThen (callbackCode_writes h hs has) fun _ => .andThen (fieldCode_writes h hname has) fun _ => ?_
  refine Stays.bind (.asking (byteRangeOf?_stays h s.name)) fun range hrange =>
    .andThen (.write (Code.over_seq.mpr ?_)) fun _ => ?_
  · refine List.forall_mem_cons.mpr ⟨constructorCode_over h hname has hrange, List.forall_mem_cons.mpr
      ⟨converterCode_over h hname hrange, List.forall_mem_cons.mpr ⟨indexCode_over h hname has,
      List.forall_mem_cons.mpr ⟨newIndexCode_over h hname has hscript, List.forall_mem_singleton.mpr ?_⟩⟩⟩⟩
    split
    · exact collectorCode_over h hname has
    · trivial
  · exact Stays.bind (.asking (.mapM fun a _ => Accessor.binding_stays h a)) fun fields _ =>
      .pure ⟨hname, hscript, h.metatable hname⟩

end LuaGlue
