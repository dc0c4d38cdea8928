import LuaGlue.Callback
import LuaGlue.Proofs.Callback.DispatcherCode
import LuaGlue.Proofs.Draft.Mirrors
import LuaGlue.Proofs.Marshal.PushCode
import LuaGlue.Proofs.Marshal.ReadCode

/-!
# Marshaling with other structs bound

Which structs are bound decides how a struct is read, and nothing else about marshaling: pushing and reading
come to the same with any other structs bound (`push_mirrors`, `read_mirrors`), and so do the trampolines of a
callback.

It also decides what `needsKeep` asks, which looks no further once it has found a bound struct. But it only
asks about parts of a type, and once a value has been pushed, all of them are known
(`needsKeep_known`).
-/

set_option autoImplicit false

namespace LuaGlue

open Draft

/-- The same with other structs bound. -/
def Context.rebound (ctx : Context) (bound : List String) : Context := { ctx with bound := bound }

variable {ctx : Context} {bound : List String} {s : Scratch}

/-! ## Pushing -/

theorem pushCopy_plain (ctx : Context) (name : String) (source : Place) :
    (pushCopy ctx name source).Plain :=
  Plain.temp.bind fun _ => (Plain.lines _).block .bare

theorem pushUnlessNull_mirrors {pointer pointer' : Local} {source source' : Expr}
    {some some' : Draft Unit} (h : ∀ s₁, s.memo.Grows s₁.memo → some.Mirrors some' s₁) :
    (pushUnlessNull ctx pointer source some).Mirrors
      (pushUnlessNull (ctx.rebound bound) pointer' source' some') s := by
  refine MirrorsBy.block _ _ ?_
  exact (MirrorsBy.plain (.line _) (.line _)).andThen fun _ _ s₁ hs₁ => .branch _ _ _ _ (h s₁ hs₁)

theorem pushWith_mirrors {tuple tuple' : String → Place → Draft Unit}
    (ht : ∀ name source source' s, (tuple name source).Mirrors (tuple' name source') s) :
    ∀ (rank : Nat) (spelling : String) (source source' : Place) (s : Scratch),
      (pushWith ctx tuple rank spelling source).Mirrors
        (pushWith (ctx.rebound bound) tuple' rank spelling source') s := by
  intro rank
  induction rank using Nat.strongRecOn with
  | _ rank ih =>
    intro spelling source source' s
    unfold pushWith
    refine .categoryOf rfl fun c s₁ _ _ => ?_
    cases c with
    | void => exact .fail _
    | structValue name shape =>
      cases shape with
      | tuple => exact ht _ _ _ _
      | userdata | byteRange => exact .plain (pushCopy_plain _ _ _) (pushCopy_plain _ _ _)
    | structPointer name shape isConst =>
      refine (MirrorsBy.plain .temp .temp).andThen fun _ _ _ _ => pushUnlessNull_mirrors fun _ _ => ?_
      split
      · exact ht _ _ _ _
      · split
        · exact .plain (pushCopy_plain _ _ _) (pushCopy_plain _ _ _)
        · exact .plain (.line _) (.line _)
    | handle isConst | pointer pointee isConst =>
      exact (MirrorsBy.plain .temp .temp).andThen fun _ _ _ _ => pushUnlessNull_mirrors fun _ _ =>
        .plain (.line _) (.line _)
    | fixedArray elem size =>
      cases rank with
      | zero => exact .fail _
      | succ rank =>
        cases elementType? spelling with
        | none => exact .fail _
        | some elem =>
          refine (MirrorsBy.plain .temp .temp).andThen fun _ _ _ _ =>
            (MirrorsBy.plain (.line _) (.line _)).andThen fun _ _ _ _ => .block _ _ ?_
          exact (ih rank (Nat.lt_succ_self rank) _ _ _ _).andThen fun _ _ _ _ =>
            .plain (.line _) (.line _)
    | callback _ _ _ | unknown => exact .plain (.lines _) (.lines _)
    | _ => exact .plain (.line _) (.line _)

theorem pushMembers_mirrors {push push' : String → Place → Draft Unit}
    (hp : ∀ spelling source source' s, (push spelling source).Mirrors (push' spelling source') s)
    (value value' : String) : ∀ (members : List TupleMember) (position : Nat) (s : Scratch),
      (pushMembers push value position members).Mirrors (pushMembers push' value' position members) s := by
  intro members
  induction members with
  | nil => intro _ _; exact .pure trivial
  | cons member rest ih =>
    intro position s
    exact (hp _ _ _ _).andThen fun _ _ _ _ => (MirrorsBy.plain (.line _) (.line _)).andThen
      fun _ _ _ _ => ih _ _

theorem pushTuple_mirrors : ∀ (levels : Nat) (name : String) (source source' : Place) (s : Scratch),
    (pushTuple ctx levels name source).Mirrors (pushTuple (ctx.rebound bound) levels name source') s := by
  intro levels
  induction levels with
  | zero => intro _ _ _ _; exact .fail _
  | succ levels ih =>
    intro name source source' s
    refine (MirrorsBy.ofExcept (ctx.tupleMembers name)).bind fun members members' _ _ _ heq => ?_
    cases heq
    refine (MirrorsBy.plain .temp .temp).andThen fun value value' _ _ => .block _ _
      ((MirrorsBy.plain (.lines _) (.lines _)).andThen fun _ _ _ _ => ?_)
    refine pushMembers_mirrors (fun spelling place place' s => ?_) value value' members 0 _
    exact pushWith_mirrors ih (arrayRank spelling) spelling place place' s

theorem push_mirrors (spelling : String) (source source' : Place) :
    (push ctx spelling source).Mirrors (push (ctx.rebound bound) spelling source') s :=
  pushWith_mirrors (pushTuple_mirrors maxNesting) _ spelling source source' s

/-! ## Reading -/

theorem readTable_mirrors {mode : ReadMode} {table table' : String} {index index' : StackIndex}
    {inside inside' : Draft Unit} (h : ∀ s₁, s.memo.Grows s₁.memo → inside.Mirrors inside' s₁) :
    (readTable mode table index inside).Mirrors (readTable mode table' index' inside') s := by
  unfold readTable
  refine .block _ _ ((MirrorsBy.plain (.line _) (.line _)).andThen fun _ _ s₁ hs₁ => ?_)
  cases mode with
  | checked =>
    exact (MirrorsBy.plain (.line _) (.line _)).andThen fun _ _ s₂ hs₂ => h s₂ (hs₁.trans hs₂)
  | lenient => exact .branch _ _ _ _ (h s₁ hs₁)

/-- However a struct is read, nothing is asked. -/
theorem readStruct_plain (ctx : Context) (name : String) (shape : Shape) (place : Place)
    (index : StackIndex) (mode : ReadMode) : (readStruct ctx name shape place index mode).Plain := by
  unfold readStruct readForeign
  split
  · exact .line _
  · refine Plain.temp.bind fun pointer => ?_
    split
    · exact (Plain.lines _).block .bare
    · exact Plain.temp.bind fun length => ((Plain.lines _).branch _ _).block .bare

theorem readWith_mirrors {tuple tuple' : ReadMode → String → Place → StackIndex → Draft Unit}
    (ht : ∀ mode name place place' index index' s,
      (tuple mode name place index).Mirrors (tuple' mode name place' index') s) :
    ∀ (rank : Nat) (mode : ReadMode) (spelling : String) (place place' : Place)
      (index index' : StackIndex) (s : Scratch),
      (readWith ctx tuple rank mode spelling place index).Mirrors
        (readWith (ctx.rebound bound) tuple' rank mode spelling place' index') s := by
  intro rank
  induction rank using Nat.strongRecOn with
  | _ rank ih =>
    intro mode spelling place place' index index' s
    unfold readWith
    refine .categoryOf rfl fun c s₁ _ _ => ?_
    cases c with
    | void => exact .fail _
    | structValue name shape =>
      cases shape with
      | tuple => exact ht _ _ _ _ _ _ _
      | userdata | byteRange =>
        exact .plain (readStruct_plain _ _ _ _ _ _) (readStruct_plain _ _ _ _ _ _)
    | fixedArray elem size =>
      cases rank with
      | zero => exact .fail _
      | succ rank =>
        cases elementType? spelling with
        | none => exact .fail _
        | some elem =>
          refine (MirrorsBy.plain .temp .temp).andThen fun _ _ _ _ =>
            (MirrorsBy.plain .temp .temp).andThen fun _ _ _ _ => readTable_mirrors fun _ _ => ?_
          refine .block _ _ ((MirrorsBy.plain (.line _) (.line _)).andThen fun _ _ _ _ => ?_)
          exact (MirrorsBy.branch _ _ _ _ (ih rank (Nat.lt_succ_self rank) _ _ _ _ _ _ _)).andThen
            fun _ _ _ _ => .plain (.line _) (.line _)
    | _ => exact .plain (.line _) (.line _)

theorem readMembers_mirrors {read read' : String → Place → Draft Unit}
    (hr : ∀ spelling place place' s, (read spelling place).Mirrors (read' spelling place') s)
    (table table' : String) (place place' : Place) :
    ∀ (members : List TupleMember) (position : Nat) (s : Scratch),
      (readMembers read table place position members).Mirrors
        (readMembers read' table' place' position members) s := by
  intro members
  induction members with
  | nil => intro _ _; exact .pure trivial
  | cons member rest ih =>
    intro position s
    exact (MirrorsBy.plain (.line _) (.line _)).andThen fun _ _ _ _ => (hr _ _ _ _).andThen
      fun _ _ _ _ => (MirrorsBy.plain (.line _) (.line _)).andThen fun _ _ _ _ => ih _ _

theorem readTuple_mirrors : ∀ (levels : Nat) (mode : ReadMode) (name : String) (place place' : Place)
    (index index' : StackIndex) (s : Scratch), (readTuple ctx levels mode name place index).Mirrors
      (readTuple (ctx.rebound bound) levels mode name place' index') s := by
  intro levels
  induction levels with
  | zero => intro _ _ _ _ _ _ _; exact .fail _
  | succ levels ih =>
    intro mode name place place' index index' s
    refine (MirrorsBy.ofExcept (ctx.tupleMembers name)).bind fun members members' _ _ _ heq => ?_
    cases heq
    refine (MirrorsBy.plain .temp .temp).andThen fun table table' _ _ => readTable_mirrors fun _ _ => ?_
    refine readMembers_mirrors (fun spelling member member' s => ?_) table table' place place' members 0 _
    exact readWith_mirrors ih (arrayRank spelling) .lenient spelling member member' .top .top s

theorem read_mirrors (mode : ReadMode) (spelling : String) (place place' : Place)
    (index index' : StackIndex) : (read ctx mode spelling place index).Mirrors
      (read (ctx.rebound bound) mode spelling place' index') s :=
  readWith_mirrors (readTuple_mirrors maxNesting) _ mode spelling place place' index index' s

/-! ## What is known of a value that was pushed -/

/-- Nothing is found out by asking any more whether reading a value keeps anything, whatever is bound and
however deep one looks. -/
def KeepKnown (ctx : Context) (m : Memo) (spelling : String) : Prop :=
  ∀ bound levels m', m.Grows m' → ((keepsWithin (ctx.rebound bound) levels spelling).run m').2 = m'

theorem anyM_known {α : Type} {q : α → Classifying Bool} {as : List α} {m : Memo}
    (h : ∀ a ∈ as, ((q a).run m).2 = m) : ((as.anyM q).run m).2 = m := by
  induction as with
  | nil => rfl
  | cons a rest ih =>
    obtain ⟨ha, hrest⟩ := List.forall_mem_cons.mp h
    change (((q a >>= fun found => match found with
      | true => pure true
      | false => rest.anyM q) : Classifying Bool).run m).2 = m
    rw [Classifying.run_bind, ha]
    cases ((q a).run m).1 with
    | true => rfl
    | false => exact ih hrest

/-- What `keepsWithin` does for a category. -/
def keepsBelow (ctx : Context) (levels : Nat) (spelling : String) : Category → Classifying Bool
  | .structValue name .tuple =>
    match ctx.tupleMembers name with
    | .ok members => members.anyM fun m => keepsWithin ctx levels m.type
    | .error _ => pure false
  | .structValue name _ => pure (ctx.isBound name)
  | .fixedArray .. =>
    match elementType? spelling with
    | some elem => keepsWithin ctx levels elem
    | none => pure false
  | _ => pure false

theorem keepsWithin_succ (ctx : Context) (levels : Nat) (spelling : String) :
    keepsWithin ctx (levels + 1) spelling = ctx.classify spelling >>= keepsBelow ctx levels spelling := by
  rw [keepsWithin]
  refine bind_congr fun c => ?_
  cases c with
  | structValue name shape => cases shape <;> rfl
  | _ => rfl

theorem keepKnown_of_find {m : Memo} {spelling : String} {c : Category} (hc : m.find? spelling = some c)
    (h : ∀ bound levels m', m.Grows m' →
      ((keepsBelow (ctx.rebound bound) levels spelling c).run m').2 = m') : KeepKnown ctx m spelling := by
  intro bound levels m' hm
  cases levels with
  | zero => rfl
  | succ levels =>
    have hknown : ((ctx.rebound bound).classify spelling).run m' = (c, m') := classify_known (hm _ _ hc)
    rw [keepsWithin_succ, Classifying.run_bind, hknown]
    exact h bound levels m' hm

/-- A value that can be pushed has parts that are known. The induction is on the rules; for the rest of a
tuple's members it says the same of each. -/
theorem Pushes.keepKnown {m : Memo} {job : PushJob} {n n' : Nat} {code : Code}
    (h : Pushes ctx m job n code n') :
    match job with
    | .value spelling _ => KeepKnown ctx m spelling
    | .tuple name _ => ∃ members, ctx.tupleMembers name = .ok members ∧
        ∀ member ∈ members, KeepKnown ctx m member.type
    | .members _ _ rest => ∀ member ∈ rest, KeepKnown ctx m member.type := by
  induction h with
  | direct hc hl =>
    refine keepKnown_of_find hc fun bound levels m' hm => ?_
    rename_i c _ _
    cases c <;> first | rfl | cases hl
  | copy hc hs =>
    refine keepKnown_of_find hc fun bound levels m' hm => ?_
    rename_i shape _
    cases shape with
    | tuple => exact absurd rfl hs
    | userdata | byteRange => rfl
  | pointerTuple hc | pointerCopy hc | pointerLight hc =>
    exact keepKnown_of_find hc fun bound levels m' hm => rfl
  | rawPointer hc hp =>
    refine keepKnown_of_find hc fun bound levels m' hm => ?_
    rename_i c _
    cases c <;> first | rfl | cases hp
  | array hc he _ ih =>
    refine keepKnown_of_find hc fun bound levels m' hm => ?_
    rw [keepsBelow, he]
    exact ih bound levels m' hm
  | tupleValue hc _ ih =>
    obtain ⟨members, hmembers, hknown⟩ := ih
    refine keepKnown_of_find hc fun bound levels m' hm => ?_
    rw [keepsBelow, show (ctx.rebound bound).tupleMembers _ = _ from hmembers]
    exact anyM_known fun member hmem => hknown member hmem bound levels m' hm
  | tuple hmembers _ ih => exact ⟨_, hmembers, ih⟩
  | nil => exact fun _ hmem => absurd hmem List.not_mem_nil
  | cons _ _ ih ih' => exact List.forall_mem_cons.mpr ⟨ih, ih'⟩

/-- After a value has been pushed, nothing is found out any more by asking whether it needs to be kept when
it is read. -/
theorem needsKeep_known {spelling : String} {source : Place} {s' : Scratch} {u : Unit} {code : Code}
    (h : push ctx spelling source s = (.written u code, s')) : KeepKnown ctx s'.memo spelling :=
  (push_pushes h).keepKnown

end LuaGlue
