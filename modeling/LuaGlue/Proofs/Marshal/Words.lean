import LuaGlue.Marshal.Push
import LuaGlue.Marshal.Read
import LuaGlue.Proofs.Draft.Words

/-!
# Marshaling that raises nothing

Pushing a value calls no function that raises an error of its own, and neither does a lenient read: the mode is
handed down through tables and tuples, whose parts are read leniently in any case, and each function that a
checked read would call has a lenient counterpart.

The names and spellings these are written with have nothing of the auxiliary library in them, so no such call
comes about in their text either.
-/

set_option autoImplicit false

namespace LuaGlue

open Draft Text

variable {ctx : Context} (h : ctx.Foreign)

include h in
theorem Context.Foreign.asked (spelling : String) :
    (ctx.categoryOf spelling).Quiet (Category.About Text.Foreign) :=
  .asking (classify_keeps h.index spelling)

/-! ## Pushing -/

theorem pushNil_quiet : Text.Quiet pushNil.render := by
  simp (disch := decide) [pushNil, Callee.quiet_api]

theorem pushLight_quiet {pointer : String} (hp : Text.Quiet pointer) :
    Text.Quiet (pushLight pointer).render := by
  simp (disch := decide) [pushLight, quiet_literal, hp]

include h

theorem pushCopy_quiet {name : String} {source : Place} (hn : Text.Foreign name)
    (hs : Text.Quiet source.render) : (pushCopy ctx name source).RaisesNothing := by
  refine Quiet.temp.bind fun copy hcopy => .block Head.quiet_bare (.lines ?_)
  have hmeta := h.metatable name
  simp (disch := decide) [Callee.quiet_api, quiet_open, quiet_literal, hn.quiet, hs, hcopy, hmeta]

omit h in
theorem pushUnlessNull_quiet {pointer : Local} {source : Expr} {some : Draft Unit}
    (hd : Text.Quiet pointer.declaration) (hn : Text.Quiet pointer.name)
    (hs : Text.Quiet source.render) (hsome : some.RaisesNothing) :
    (pushUnlessNull ctx pointer source some).RaisesNothing := by
  refine .block Head.quiet_bare (.andThen (.line (Line.quiet_declare.mpr ⟨hd, hs⟩)) fun _ => ?_)
  exact .branch (Cond.quiet_notNull.mpr ⟨hn, ctx.null_quiet⟩)
    (Code.quiet_line.mpr ⟨pushNil_quiet, Code.quiet_done⟩) hsome

theorem pushWith_quiet {tuple : String → Place → Draft Unit}
    (ht : ∀ name place, Text.Foreign name → Text.Quiet place.render → (tuple name place).RaisesNothing) :
    ∀ (rank : Nat) (spelling : String) (source : Place), Text.Foreign spelling →
      Text.Quiet source.render → (pushWith ctx tuple rank spelling source).RaisesNothing := by
  intro rank
  induction rank using Nat.strongRecOn with
  | _ rank ih =>
    intro spelling source hspelling hs
    have hlocal {pointer : String} (hp : Text.Quiet pointer) :
        Text.Quiet (declareLocal spelling pointer) := declareLocal_quiet hspelling hp
    unfold pushWith
    refine (h.asked spelling).bind fun c hc => ?_
    cases c with
    | void => exact .fail _
    | bool | cstring => exact .line (by simp (disch := decide) [Callee.quiet_api, hs])
    | integer _ | enum _ | float _ =>
      exact .line (by simp (disch := decide) [quiet_literal, hs])
    | structValue name shape =>
      have hname : Text.Foreign name := hc name (by simp [Category.names])
      cases shape with
      | tuple => exact ht name source hname hs
      | userdata | byteRange => exact pushCopy_quiet h hname hs
    | structPointer name shape isConst =>
      have hname : Text.Foreign name := hc name (by simp [Category.names])
      refine Quiet.temp.bind fun pointer hp => pushUnlessNull_quiet (hlocal hp) hp hs ?_
      split
      · exact ht _ _ hname (Place.quiet_target.mpr hp)
      · split
        · exact pushCopy_quiet h hname (Place.quiet_target.mpr hp)
        · exact .line (pushLight_quiet hp)
    | handle _ | pointer _ _ =>
      have hvoid : Text.Quiet "const void*" := quiet_literal (by decide)
      refine Quiet.temp.bind fun pointer hp => ?_
      exact pushUnlessNull_quiet (Local.quiet_plain.mpr ⟨hvoid, hp⟩) hp
        (Expr.quiet_cast.mpr ⟨hvoid, hs⟩) (.line (pushLight_quiet hp))
    | fixedArray elem size =>
      cases rank with
      | zero => exact .fail _
      | succ rank =>
        cases he : elementType? spelling with
        | none => exact .fail _
        | some elem =>
          have helem := elementType?_foreign hspelling he
          refine Quiet.temp.bind fun k hk =>
            (Quiet.line (by simp (disch := decide) [Callee.quiet_api])).andThen fun _ => .block ?_ ?_
          · simp (disch := decide) [quiet_literal, hk]
          · have hplace : Text.Quiet (source.element k).render := Place.quiet_element.mpr ⟨hs, hk⟩
            exact (ih rank (Nat.lt_succ_self rank) elem _ helem hplace).andThen fun _ =>
              .line (by simp (disch := decide) [Callee.quiet_api, hk])
    | callback _ _ _ | unknown =>
      exact .lines (by
        simp (disch := decide) [quiet_open, quiet_end, quiet_literal, hspelling.quiet])

omit h in
theorem pushMembers_quiet {push : String → Place → Draft Unit}
    (hpush : ∀ spelling place, Text.Foreign spelling → Text.Quiet place.render →
      (push spelling place).RaisesNothing) {value : String} (hvalue : Text.Quiet value) :
    ∀ (members : List TupleMember) (position : Nat),
      (∀ m ∈ members, Text.Foreign m.field ∧ Text.Foreign m.type) →
      (pushMembers push value position members).RaisesNothing := by
  intro members
  induction members with
  | nil => exact fun _ _ => .pure trivial
  | cons m rest ih =>
    intro position hmembers
    obtain ⟨⟨hfield, htype⟩, hrest⟩ := List.forall_mem_cons.mp hmembers
    refine .andThen (hpush _ _ htype (Place.quiet_member.mpr ⟨hvalue, hfield.quiet⟩)) fun _ => ?_
    exact (Quiet.line (by simp (disch := decide) [storeAt, Callee.quiet_api])).andThen fun _ => ih _ hrest

theorem pushTuple_quiet : ∀ (levels : Nat) (name : String) (source : Place), Text.Foreign name →
    Text.Quiet source.render → (pushTuple ctx levels name source).RaisesNothing := by
  intro levels
  induction levels with
  | zero => exact fun name source _ _ => .fail _
  | succ levels ih =>
    intro name source hname hs
    refine (Quiet.ofExcept fun members => h.tupleMembers).bind fun members hmembers => ?_
    refine Quiet.temp.bind fun value hvalue => .block Head.quiet_bare ?_
    refine (Quiet.lines ?_).andThen fun _ => ?_
    · simp (disch := decide) [Callee.quiet_api, hname.quiet, hvalue, hs]
    · exact pushMembers_quiet (fun spelling place hspelling hplace =>
        pushWith_quiet h ih _ spelling place hspelling hplace) hvalue members 0 hmembers

theorem push_quiet {spelling : String} {source : Place} (hspelling : Text.Foreign spelling)
    (hs : Text.Quiet source.render) : (push ctx spelling source).RaisesNothing :=
  pushWith_quiet h (pushTuple_quiet h maxNesting) _ spelling source hspelling hs

/-! ## Reading leniently -/

omit h in
theorem readTable_quiet {table : String} {index : StackIndex} {inside : Draft Unit}
    (htable : Text.Quiet table) (hi : Text.Quiet index.render) (hinside : inside.RaisesNothing) :
    (readTable .lenient table index inside).RaisesNothing := by
  refine .block Head.quiet_bare ((Quiet.line ?_).andThen fun _ => .branch ?_ Code.quiet_done hinside)
  · simp (disch := decide) [quiet_literal, htable, hi]
  · simp (disch := decide) [Callee.quiet_api, htable]

omit h in
theorem readBound_quiet {name : String} {place : Place} {index : StackIndex}
    (hn : Text.Foreign name) (hp : Text.Quiet place.render) (hi : Text.Quiet index.render) :
    Text.Quiet (readBound ctx name place index .lenient).render := by
  have hconverter : Text.Quiet (Symbol.converter name).spelling :=
    (foreign_behind (by decide) (foreign_literal (by decide)) hn).quiet
  have hkeep : Text.Quiet keepLocal := quiet_literal (by decide)
  simp [readBound, hconverter, hp, hi, hkeep]

theorem copyUserdata_quiet {name pointer : String} {place : Place} {index : StackIndex}
    (hn : Text.Foreign name) (hp : Text.Quiet place.render) (hi : Text.Quiet index.render)
    (hpointer : Text.Quiet pointer) :
    ∀ l ∈ copyUserdata ctx name place index .lenient pointer, Text.Quiet l.render := by
  have hmeta := h.metatable name
  have hnull := ctx.null_quiet
  simp (disch := decide) [copyUserdata, Callee.quiet_api, quiet_open, quiet_literal, hn.quiet, hp, hi,
    hpointer, hmeta, hnull]

theorem readForeign_quiet {name : String} {shape : Shape} {place : Place} {index : StackIndex}
    (hn : Text.Foreign name) (hp : Text.Quiet place.render) (hi : Text.Quiet index.render) :
    (readForeign ctx name shape place index .lenient).RaisesNothing := by
  have hcopy {pointer : String} (hpointer : Text.Quiet pointer) :
      ∀ l ∈ copyUserdata ctx name place index .lenient pointer, Text.Quiet l.render :=
    copyUserdata_quiet h hn hp hi hpointer
  unfold readForeign
  refine Quiet.temp.bind fun pointer hpointer => ?_
  split
  · exact .block Head.quiet_bare (.lines (hcopy hpointer))
  · rename_i range hrange
    have hrange : Text.Quiet range.pointer ∧ Text.Quiet range.size := by
      split at hrange
      · exact h.byteRange? hrange
      · cases hrange
    refine Quiet.temp.bind fun length hlength =>
      .block Head.quiet_bare (.branch (Cond.quiet_isString.mpr hi) ?_ (.lines ?_))
    · exact Code.quiet_ofLines.mpr (hcopy hpointer)
    · simp (disch := decide) [quiet_literal, hlength, hp, hi, hrange.1, hrange.2]

theorem readStruct_quiet {name : String} {shape : Shape} {place : Place} {index : StackIndex}
    (hn : Text.Foreign name) (hp : Text.Quiet place.render) (hi : Text.Quiet index.render) :
    (readStruct ctx name shape place index .lenient).RaisesNothing := by
  unfold readStruct
  split
  · exact .line (readBound_quiet hn hp hi)
  · exact readForeign_quiet h hn hp hi

omit h in
theorem assignCast_quiet {f : Api} {type : String} {place : Place} {index : StackIndex}
    (hf : f.raises = false) (ht : Text.Quiet type) (hp : Text.Quiet place.render)
    (hi : Text.Quiet index.render) : Text.Quiet (assignCast f type place index).render := by
  simp [assignCast, Callee.quiet_api hf, ht, hp, hi]

omit h in
theorem readPointer_quiet {isConst : Bool} {type : String} {place : Place} {index : StackIndex}
    (ht : Text.Quiet type) (hp : Text.Quiet place.render) (hi : Text.Quiet index.render) :
    Text.Quiet (readPointer isConst type place index).render := by
  cases isConst <;> simp (disch := decide) [readPointer, Callee.quiet_api, ht, hp, hi]

/-- The tuples a read comes to are read leniently if it is lenient itself, at every depth. -/
theorem readWith_quiet {tuple : ReadMode → String → Place → StackIndex → Draft Unit}
    (htuple : ∀ name place index, Text.Foreign name → Text.Quiet place.render →
      Text.Quiet index.render → (tuple .lenient name place index).RaisesNothing) :
    ∀ (rank : Nat) (spelling : String) (place : Place) (index : StackIndex), Text.Foreign spelling →
      Text.Quiet place.render → Text.Quiet index.render →
      (readWith ctx tuple rank .lenient spelling place index).RaisesNothing := by
  intro rank
  induction rank using Nat.strongRecOn with
  | _ rank ih =>
    intro spelling place index hspelling hp hi
    have htype : Text.Quiet (valueType spelling) := (valueType_foreign hspelling).quiet
    unfold readWith
    refine (h.asked spelling).bind fun c hc => ?_
    cases c with
    | void => exact .fail _
    | bool => exact .line (by simp (disch := decide) [Callee.quiet_api, hp, hi])
    | integer _ | enum _ | float _ | cstring => exact .line (assignCast_quiet rfl htype hp hi)
    | structValue name shape =>
      have hname : Text.Foreign name := hc name (by simp [Category.names])
      cases shape with
      | tuple => exact htuple name place index hname hp hi
      | userdata | byteRange => exact readStruct_quiet h hname hp hi
    | structPointer name shape isConst => exact .line (assignCast_quiet rfl htype hp hi)
    | handle isConst | pointer _ isConst => exact .line (readPointer_quiet htype hp hi)
    | fixedArray elem size =>
      cases rank with
      | zero => exact .fail _
      | succ rank =>
        cases he : elementType? spelling with
        | none => exact .fail _
        | some elem =>
          have helem := elementType?_foreign hspelling he
          refine Quiet.temp.bind fun table htable => Quiet.temp.bind fun k hk =>
            readTable_quiet htable hi (.block ?_ ?_)
          · simp (disch := decide) [quiet_literal, hk]
          · refine (Quiet.line (by simp (disch := decide) [Callee.quiet_api, htable, hk])).andThen
              fun _ => ?_
            have hread := ih rank (Nat.lt_succ_self rank) elem (.element place k) .top helem
              (Place.quiet_element.mpr ⟨hp, hk⟩) StackIndex.quiet_top
            refine .andThen (.branch ?_ Code.quiet_done hread) fun _ => .line ?_
            · simp (disch := decide) [Callee.quiet_api]
            · simp (disch := decide) [popOne, Callee.quiet_api]
    | callback _ _ _ | unknown =>
      exact .line (by
        simp (disch := decide) [quiet_open, quiet_end, quiet_literal, hspelling.quiet])

omit h in
theorem readMembers_quiet {read : String → Place → Draft Unit}
    (hread : ∀ spelling place, Text.Foreign spelling → Text.Quiet place.render →
      (read spelling place).RaisesNothing) {table : String} {place : Place}
    (htable : Text.Quiet table) (hp : Text.Quiet place.render) :
    ∀ (members : List TupleMember) (position : Nat),
      (∀ m ∈ members, Text.Foreign m.field ∧ Text.Foreign m.type) →
      (readMembers read table place position members).RaisesNothing := by
  intro members
  induction members with
  | nil => exact fun _ _ => .pure trivial
  | cons m rest ih =>
    intro position hmembers
    obtain ⟨⟨hfield, htype⟩, hrest⟩ := List.forall_mem_cons.mp hmembers
    refine (Quiet.line (by simp (disch := decide) [Callee.quiet_api, htable])).andThen fun _ => ?_
    refine .andThen (hread _ _ htype (Place.quiet_memberOf.mpr ⟨hp, hfield.quiet⟩)) fun _ => ?_
    exact (Quiet.line (by simp (disch := decide) [popOne, Callee.quiet_api])).andThen fun _ => ih _ hrest

theorem readTuple_quiet : ∀ (levels : Nat) (name : String) (place : Place) (index : StackIndex),
    Text.Foreign name → Text.Quiet place.render → Text.Quiet index.render →
    (readTuple ctx levels .lenient name place index).RaisesNothing := by
  intro levels
  induction levels with
  | zero => exact fun name place index _ _ _ => .fail _
  | succ levels ih =>
    intro name place index hname hp hi
    refine (Quiet.ofExcept fun members => h.tupleMembers).bind fun members hmembers => ?_
    refine Quiet.temp.bind fun table htable => readTable_quiet htable hi ?_
    exact readMembers_quiet (fun spelling member hspelling hmember =>
      readWith_quiet h ih _ spelling member .top hspelling hmember StackIndex.quiet_top) htable hp
      members 0 hmembers

theorem read_quiet {spelling : String} {place : Place} {index : StackIndex}
    (hspelling : Text.Foreign spelling) (hp : Text.Quiet place.render) (hi : Text.Quiet index.render) :
    (read ctx .lenient spelling place index).RaisesNothing :=
  readWith_quiet h (readTuple_quiet h maxNesting) _ spelling place index hspelling hp hi

/-! ## Zero values -/

theorem returnZero_quiet {spelling : String} (hs : Text.Foreign spelling) :
    (returnZero ctx spelling).RaisesNothing := by
  have htype : Text.Foreign (valueType spelling) := valueType_foreign hs
  unfold returnZero
  refine (h.asked spelling).bind fun c _ => ?_
  split
  · exact .line Line.quiet_retVoid
  · dsimp only
    split
    · rename_i zero hzero
      exact .line (Line.quiet_ret.mpr (ctx.zeroLiteral?_quiet htype.quiet hzero))
    · refine Quiet.temp.bind fun zero hzero => .lines ?_
      have hdecl := declare_quiet htype hzero
      have hinit := ctx.zeroInit_quiet c
      simp [hdecl, hinit, hzero]

end LuaGlue
