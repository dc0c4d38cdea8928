import LuaGlue.Marshal.Push
import LuaGlue.Marshal.Read
import LuaGlue.Proofs.Context.Alphabet

/-!
# Marshaling in an alphabet

Pushing and reading write fixed text, names of temporaries, the place and the spelling they are given, and
names and spellings that the manifest or a declaration supplies. So they stay in an alphabet if the place,
the spelling and the strings of the module are in it.
-/

set_option autoImplicit false

namespace LuaGlue

open Draft Text

variable {P : Char → Prop} [Alphabet P] {ctx : Context} (h : ctx.Over P)

omit [Alphabet P] in
include h in
theorem Context.Over.asked (spelling : String) :
    (ctx.categoryOf spelling).Stays P (Category.Over P) :=
  .asking h.categoryOf

/-! ## Pushing -/

omit [Alphabet P] in
theorem pushNil_over : pushNil.Over P := by simp [pushNil]

theorem pushLight_over {pointer : String} (hp : Text.Over P pointer) : (pushLight pointer).Over P := by
  simp (disch := decide) [pushLight, over_literal, hp]

include h

theorem pushCopy_writes {name : String} {source : Place} (hn : Text.Over P name)
    (hs : source.Over P) : (pushCopy ctx name source).Writes P := by
  refine Stays.temp.bind fun copy hcopy => .block trivial (.lines ?_)
  have hmeta := h.metatable hn
  simp (disch := decide) [over_literal, hn, hs, hcopy, hmeta]

omit h in
theorem pushUnlessNull_writes {pointer : Local} {source : Expr} {some : Draft Unit}
    (hd : Text.Over P pointer.declaration) (hn : Text.Over P pointer.name) (hs : source.Over P)
    (hsome : some.Writes P) : (pushUnlessNull ctx pointer source some).Writes P := by
  refine .block trivial (.andThen (.line ⟨hd, hs⟩) fun _ => ?_)
  exact .branch ⟨hn, Context.Over.null⟩ ⟨pushNil_over, trivial⟩ hsome

theorem pushWith_writes {tuple : String → Place → Draft Unit}
    (ht : ∀ name place, Text.Over P name → place.Over P → (tuple name place).Writes P) :
    ∀ (rank : Nat) (spelling : String) (source : Place), Text.Over P spelling → source.Over P →
      (pushWith ctx tuple rank spelling source).Writes P := by
  intro rank
  induction rank using Nat.strongRecOn with
  | _ rank ih =>
    intro spelling source hspelling hs
    have hlocal {pointer : String} (hp : Text.Over P pointer) :
        Text.Over P (declareLocal spelling pointer) := declareLocal_over hspelling hp
    unfold pushWith
    refine (h.asked spelling).bind fun c hc => ?_
    cases c with
    | void => exact .fail hspelling
    | bool | cstring => exact .line (by simp [hs])
    | integer _ | enum _ | float _ => exact .line (by simp (disch := decide) [over_literal, hs])
    | structValue name shape =>
      cases shape with
      | tuple => exact ht name source hc hs
      | userdata | byteRange => exact pushCopy_writes h hc hs
    | structPointer name shape isConst =>
      refine Stays.temp.bind fun pointer hp => pushUnlessNull_writes (hlocal hp) hp hs ?_
      split
      · exact ht _ _ hc hp
      · split
        · exact pushCopy_writes h hc hp
        · exact .line (pushLight_over hp)
    | handle _ | pointer _ _ =>
      refine Stays.temp.bind fun pointer hp => ?_
      exact pushUnlessNull_writes (by simp (disch := decide) [over_literal, hp]) hp
        ⟨over_literal (by decide), hs⟩ (.line (pushLight_over hp))
    | fixedArray elem size =>
      cases rank with
      | zero => exact .fail hspelling
      | succ rank =>
        cases he : elementType? spelling with
        | none => exact .fail hspelling
        | some elem =>
          have helem := elementType?_over hspelling he
          refine Stays.temp.bind fun k hk => (Stays.line (by simp)).andThen fun _ => .block ?_ ?_
          · exact ⟨over_literal (by decide), hk, over_toString size⟩
          · have hplace : (source.element k).Over P := ⟨hs, hk⟩
            exact (ih rank (Nat.lt_succ_self rank) elem _ helem hplace).andThen fun _ =>
              .line (by simp [hk])
    | callback _ _ _ | unknown =>
      exact .lines (by simp (disch := decide) [over_literal, hspelling, pushNil_over])

omit [Alphabet P] h in
theorem pushMembers_writes {push : String → Place → Draft Unit}
    (hpush : ∀ spelling place, Text.Over P spelling → place.Over P → (push spelling place).Writes P)
    {value : String} (hvalue : Text.Over P value) :
    ∀ (members : List TupleMember) (position : Nat),
      (∀ m ∈ members, Text.Over P m.field ∧ Text.Over P m.type) →
      (pushMembers push value position members).Writes P := by
  intro members
  induction members with
  | nil => exact fun _ _ => .pure trivial
  | cons m rest ih =>
    intro position hmembers
    obtain ⟨⟨hfield, htype⟩, hrest⟩ := List.forall_mem_cons.mp hmembers
    refine .andThen (hpush _ _ htype ⟨hvalue, hfield⟩) fun _ => ?_
    exact (Stays.line (by simp [storeAt])).andThen fun _ => ih _ hrest

theorem pushTuple_writes : ∀ (levels : Nat) (name : String) (source : Place), Text.Over P name →
    source.Over P → (pushTuple ctx levels name source).Writes P := by
  intro levels
  induction levels with
  | zero => exact fun name source hname _ => .fail hname
  | succ levels ih =>
    intro name source hname hs
    refine (Stays.ofExcept (h.tupleMembers hname)).bind fun members hmembers => ?_
    refine Stays.temp.bind fun value hvalue => .block trivial ?_
    refine (Stays.lines (by simp [hname, hvalue, hs])).andThen fun _ => ?_
    exact pushMembers_writes (fun spelling place hspelling hplace =>
      pushWith_writes h ih _ spelling place hspelling hplace) hvalue members 0 hmembers

theorem push_writes {spelling : String} {source : Place} (hspelling : Text.Over P spelling)
    (hs : source.Over P) : (push ctx spelling source).Writes P :=
  pushWith_writes h (pushTuple_writes h maxNesting) _ spelling source hspelling hs

/-! ## Reading -/

omit h in
theorem readTable_writes {mode : ReadMode} {table : String} {index : StackIndex} {inside : Draft Unit}
    (htable : Text.Over P table) (hi : index.Over P) (hinside : inside.Writes P) :
    (readTable mode table index inside).Writes P := by
  refine .block trivial ((Stays.line ?_).andThen fun _ => ?_)
  · simp (disch := decide) [over_literal, htable, hi]
  · cases mode with
    | checked =>
      refine (Stays.line ?_).andThen fun _ => hinside
      simp (disch := decide) [over_literal, htable]
    | lenient => exact .branch (by simp [htable]) trivial hinside

theorem readBound_over {name : String} {place : Place} {index : StackIndex} {mode : ReadMode}
    (hn : Text.Over P name) (hp : place.Over P) (hi : index.Over P) :
    (readBound ctx name place index mode).Over P := by
  have hmeta := h.metatable hn
  have hkeep : Text.Over P keepLocal := over_literal (by decide)
  cases mode <;> simp [readBound, Symbol.Over, hn, hp, hi, hmeta, hkeep]

theorem copyUserdata_over {name pointer : String} {place : Place} {index : StackIndex}
    {mode : ReadMode} (hn : Text.Over P name) (hp : place.Over P) (hi : index.Over P)
    (hpointer : Text.Over P pointer) :
    ∀ l ∈ copyUserdata ctx name place index mode pointer, l.Over P := by
  have hmeta := h.metatable hn
  have hnull : Text.Over P ctx.null := Context.Over.null
  simp (disch := decide) [copyUserdata, over_literal, hn, hp, hi, hpointer, hmeta, hnull]

theorem readForeign_writes {name : String} {shape : Shape} {place : Place} {index : StackIndex}
    {mode : ReadMode} (hn : Text.Over P name) (hp : place.Over P) (hi : index.Over P) :
    (readForeign ctx name shape place index mode).Writes P := by
  have hcopy {pointer : String} (hpointer : Text.Over P pointer) :
      ∀ l ∈ copyUserdata ctx name place index mode pointer, l.Over P :=
    copyUserdata_over h hn hp hi hpointer
  unfold readForeign
  refine Stays.temp.bind fun pointer hpointer => ?_
  split
  · exact .block trivial (.lines (hcopy hpointer))
  · rename_i range hrange
    have hrange : Text.Over P range.pointer ∧ Text.Over P range.size := by
      split at hrange
      · exact h.byteRange? hrange
      · cases hrange
    refine Stays.temp.bind fun length hlength => .block trivial (.branch hi ?_ (.lines ?_))
    · exact Code.over_ofLines.mpr (hcopy hpointer)
    · simp (disch := decide) [over_literal, hlength, hp, hi, hrange.1, hrange.2]

theorem readStruct_writes {name : String} {shape : Shape} {place : Place} {index : StackIndex}
    {mode : ReadMode} (hn : Text.Over P name) (hp : place.Over P) (hi : index.Over P) :
    (readStruct ctx name shape place index mode).Writes P := by
  unfold readStruct
  split
  · exact .line (readBound_over h hn hp hi)
  · exact readForeign_writes h hn hp hi

omit [Alphabet P] h in
theorem assignCast_over {f : Api} {type : String} {place : Place} {index : StackIndex}
    (ht : Text.Over P type) (hp : place.Over P) (hi : index.Over P) :
    (assignCast f type place index).Over P := by
  simp [assignCast, ht, hp, hi]

omit [Alphabet P] h in
theorem readPointer_over {isConst : Bool} {type : String} {place : Place} {index : StackIndex}
    (ht : Text.Over P type) (hp : place.Over P) (hi : index.Over P) :
    (readPointer isConst type place index).Over P := by
  cases isConst <;> simp [readPointer, ht, hp, hi]

theorem readWith_writes {tuple : ReadMode → String → Place → StackIndex → Draft Unit}
    (htuple : ∀ mode name place index, Text.Over P name → place.Over P → index.Over P →
      (tuple mode name place index).Writes P) :
    ∀ (rank : Nat) (mode : ReadMode) (spelling : String) (place : Place) (index : StackIndex),
      Text.Over P spelling → place.Over P → index.Over P →
      (readWith ctx tuple rank mode spelling place index).Writes P := by
  intro rank
  induction rank using Nat.strongRecOn with
  | _ rank ih =>
    intro mode spelling place index hspelling hp hi
    have htype : Text.Over P (valueType spelling) := valueType_over hspelling
    unfold readWith
    refine (h.asked spelling).bind fun c hc => ?_
    cases c with
    | void => exact .fail hspelling
    | bool => exact .line (by simp [hp, hi])
    | integer _ | enum _ | float _ | cstring => exact .line (assignCast_over htype hp hi)
    | structValue name shape =>
      cases shape with
      | tuple => exact htuple mode name place index hc hp hi
      | userdata | byteRange => exact readStruct_writes h hc hp hi
    | structPointer name shape isConst =>
      apply Stays.line
      split
      · have hmeta := h.metatable hc
        simp [htype, hp, hi, hmeta]
      · exact assignCast_over htype hp hi
    | handle isConst | pointer _ isConst => exact .line (readPointer_over htype hp hi)
    | fixedArray elem size =>
      cases rank with
      | zero => exact .fail hspelling
      | succ rank =>
        cases he : elementType? spelling with
        | none => exact .fail hspelling
        | some elem =>
          have helem := elementType?_over hspelling he
          refine Stays.temp.bind fun table htable => Stays.temp.bind fun k hk =>
            readTable_writes htable hi (.block ?_ ?_)
          · exact ⟨over_literal (by decide), hk, over_toString size⟩
          · refine (Stays.line (by simp [htable, hk])).andThen fun _ => ?_
            have hread := ih rank (Nat.lt_succ_self rank) .lenient elem (.element place k) .top helem
              ⟨hp, hk⟩ trivial
            exact .andThen (.branch (by simp) trivial hread) fun _ => .line (by simp [popOne])
    | callback _ _ _ | unknown =>
      exact .line (by simp (disch := decide) [over_literal, hspelling])

omit [Alphabet P] h in
theorem readMembers_writes {read : String → Place → Draft Unit}
    (hread : ∀ spelling place, Text.Over P spelling → place.Over P → (read spelling place).Writes P)
    {table : String} {place : Place} (htable : Text.Over P table) (hp : place.Over P) :
    ∀ (members : List TupleMember) (position : Nat),
      (∀ m ∈ members, Text.Over P m.field ∧ Text.Over P m.type) →
      (readMembers read table place position members).Writes P := by
  intro members
  induction members with
  | nil => exact fun _ _ => .pure trivial
  | cons m rest ih =>
    intro position hmembers
    obtain ⟨⟨hfield, htype⟩, hrest⟩ := List.forall_mem_cons.mp hmembers
    refine (Stays.line (by simp [htable])).andThen fun _ => ?_
    refine .andThen (hread _ _ htype ⟨hp, hfield⟩) fun _ => ?_
    exact (Stays.line (by simp [popOne])).andThen fun _ => ih _ hrest

theorem readTuple_writes : ∀ (levels : Nat) (mode : ReadMode) (name : String) (place : Place)
    (index : StackIndex), Text.Over P name → place.Over P → index.Over P →
    (readTuple ctx levels mode name place index).Writes P := by
  intro levels
  induction levels with
  | zero => exact fun mode name place index hname _ _ => .fail hname
  | succ levels ih =>
    intro mode name place index hname hp hi
    refine (Stays.ofExcept (h.tupleMembers hname)).bind fun members hmembers => ?_
    refine Stays.temp.bind fun table htable => readTable_writes htable hi ?_
    exact readMembers_writes (fun spelling member hspelling hmember =>
      readWith_writes h ih _ _ spelling member .top hspelling hmember trivial) htable hp members 0
      hmembers

theorem read_writes {mode : ReadMode} {spelling : String} {place : Place} {index : StackIndex}
    (hspelling : Text.Over P spelling) (hp : place.Over P) (hi : index.Over P) :
    (read ctx mode spelling place index).Writes P :=
  readWith_writes h (readTuple_writes h maxNesting) _ mode spelling place index hspelling hp hi

/-! ## Keep tables and zero values -/

omit h in
theorem keepTable_over : ∀ l ∈ keepTable, l.Over P := by
  simp (disch := decide) [keepTable, over_literal]

omit [Alphabet P] in
theorem keepsWithin_stays (levels : Nat) :
    ∀ spelling, (keepsWithin ctx levels spelling).Stays P fun _ => True := by
  induction levels with
  | zero => exact fun _ => .pure trivial
  | succ levels ih =>
    intro spelling
    rw [keepsWithin]
    refine h.categoryOf.bind fun c _ => ?_
    split
    · split
      · exact .anyM fun m _ => ih m.type
      · exact .pure trivial
    · exact .pure trivial
    · split
      · exact ih _
      · exact .pure trivial
    · exact .pure trivial

omit [Alphabet P] in
theorem needsKeep_stays (spelling : String) : (needsKeep ctx spelling).Stays P fun _ => True :=
  keepsWithin_stays h maxNesting spelling

omit [Alphabet P] in
theorem needsKeep?_stays (spelling : Option String) :
    (needsKeep? ctx spelling).Stays P fun _ => True := by
  cases spelling with
  | none => exact .pure trivial
  | some spelling => exact needsKeep_stays h spelling

theorem returnZero_writes {spelling : String} (hs : Text.Over P spelling) :
    (returnZero ctx spelling).Writes P := by
  unfold returnZero
  refine (h.asked spelling).bind fun c _ => ?_
  split
  · exact .line trivial
  · dsimp only
    split
    · rename_i zero hzero
      exact .line (.inl (Context.Over.zeroLiteral? (valueType_over hs) hzero))
    · refine Stays.temp.bind fun zero hzero => .lines ?_
      have hinit : (Expr.text (ctx.zeroInit c)).Over P := Context.Over.zeroInit c
      have hdecl := declare_over (valueType_over hs) hzero
      exact List.forall_mem_cons.mpr ⟨.declare hdecl hinit, List.forall_mem_singleton.mpr hzero⟩

end LuaGlue
