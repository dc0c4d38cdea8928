import LuaGlue.Function.Wrapper
import LuaGlue.Proofs.Code.Symbols
import LuaGlue.Proofs.Draft.Written

/-!
# What marshaling refers to

A step of generation that *only converts* mentions nothing but the converters of bound structs. The
rules of `Draft.OnlyConverts` follow the primitives that steps are made of, as those of `Draft.Grows`
do; reading and pushing only convert, and so does all that is made of them without defining a
function.
-/

set_option autoImplicit false

namespace LuaGlue

/-- Whenever the step succeeds, its code mentions nothing but converters that `known` has. -/
def Draft.OnlyConverts {α : Type} (known : String → Prop) (m : Draft α) : Prop :=
  ∀ (s : Scratch) (a : α) (code : Code) (s' : Scratch),
    m s = (.written a code, s') → code.OnlyConverts known

namespace Draft.OnlyConverts

variable {α β : Type} {known : String → Prop}

theorem pure (a : α) : OnlyConverts known (Pure.pure a : Draft α) := by
  intro s b code s' h
  obtain ⟨-, rfl, -⟩ := pure_written.mp h
  exact .of_nil rfl

theorem bind {m : Draft α} {f : α → Draft β} (hm : OnlyConverts known m)
    (hf : ∀ a, OnlyConverts known (f a)) : OnlyConverts known (m >>= f) := by
  intro s b code s' h
  obtain ⟨a, c₁, s₁, c₂, h₁, h₂, rfl⟩ := bind_written.mp h
  exact (hm s a c₁ s₁ h₁).append (hf a s₁ b c₂ s' h₂)

theorem fail (fault : Fault) : OnlyConverts known (Draft.fail fault : Draft α) :=
  fun _ _ _ _ h => absurd h fail_written

theorem ofExcept (e : Except Fault α) : OnlyConverts known (Draft.ofExcept e) := by
  cases e with
  | ok a => exact pure a
  | error fault => exact fail fault

theorem asking (q : Classifying α) : OnlyConverts known (Draft.asking q) := by
  intro s a code s' h
  obtain ⟨-, rfl, -⟩ := asking_written.mp h
  exact .of_nil rfl

theorem temp : OnlyConverts known Draft.temp := by
  intro s a code s' h
  obtain ⟨-, rfl, -⟩ := temp_written.mp h
  exact .of_nil rfl

theorem write {code : Code} (hc : code.OnlyConverts known) :
    OnlyConverts known (Draft.write code) := by
  intro s a code' s' h
  obtain ⟨rfl, -⟩ := write_written.mp h
  exact hc

theorem lines {ls : List Line} (hls : ls.flatMap Line.mentions = []) :
    OnlyConverts known (Draft.lines ls) :=
  write (.of_nil (by rw [Code.mentions_ofLines, hls]))

theorem line {l : Line} (hl : l.mentions = []) : OnlyConverts known (Draft.line l) :=
  write (.of_nil (by simp [Code.mentions, hl]))

theorem block {m : Draft α} {head : Head} (hh : head.mentions = []) (hm : OnlyConverts known m) :
    OnlyConverts known (Draft.block head m) := by
  intro s a code s' h
  obtain ⟨body, hbody, rfl⟩ := block_written.mp h
  intro x hx
  rw [Code.mentions_block, hh, Code.mentions_done, List.append_nil] at hx
  exact hm s a body s' hbody x hx

theorem branch {m : Draft α} {c : Cond} {otherwise : Code} (hc : c.symbols = [])
    (ho : otherwise.mentions = []) (hm : OnlyConverts known m) :
    OnlyConverts known (Draft.branch c m otherwise) := by
  intro s a code s' h
  obtain ⟨yes, hyes, rfl⟩ := branch_written.mp h
  intro x hx
  simp only [Code.mentions, hc, ho, List.map_nil, List.nil_append, List.append_nil] at hx
  exact hm s a yes s' hyes x hx

theorem orElseIf {m : Draft α} {c c' : Cond} {yes : Code} (hc : c.symbols = [])
    (hy : yes.mentions = []) (hc' : c'.symbols = []) (hm : OnlyConverts known m) :
    OnlyConverts known (Draft.orElseIf c yes c' m) := by
  intro s a code s' h
  obtain ⟨inner, hinner, rfl⟩ := orElseIf_written.mp h
  intro x hx
  simp only [Code.mentions, hc, hy, hc', List.map_nil, List.nil_append, List.append_nil] at hx
  exact hm s a inner s' hinner x hx

theorem branchWhen {m : Draft α} {wanted : Bool} {c : Cond} (hc : c.symbols = [])
    (hm : OnlyConverts known m) : OnlyConverts known (Draft.branchWhen wanted c m) := by
  cases wanted with
  | true => exact hm.branch hc rfl
  | false => exact hm

/-- A function whose body only converts. -/
theorem define {m : Draft α} (hm : OnlyConverts known m) {result params : String} {f : Symbol}
    {a : α} {s s' : Scratch} {code : Code}
    (h : Draft.block (.define result f params) m s = (.written a code, s')) :
    code.Outlined known [.defines f] := by
  obtain ⟨body, hbody, rfl⟩ := block_written.mp h
  exact (hm s a body s' hbody).outlined.block (.of_mentions rfl (by simp))

end Draft.OnlyConverts

open Draft

variable (ctx : Context)

/-- The structs whose converters may be called. -/
def Context.Bound (struct : String) : Prop := ctx.isBound struct = true

/-- A step whose code calls the converters of bound structs and mentions nothing else. -/
abbrev Context.Converting {α : Type} (m : Draft α) : Prop := m.OnlyConverts ctx.Bound

theorem Context.categoryOf_converting (spelling : String) : ctx.Converting (ctx.categoryOf spelling) :=
  .asking _

/-! ## Pushing -/

theorem pushCopy_converting (name : String) (source : Place) :
    ctx.Converting (pushCopy ctx name source) :=
  OnlyConverts.temp.bind fun _ => .block rfl (.lines rfl)

theorem pushUnlessNull_converting {pointer : Local} {source : Expr} {some : Draft Unit}
    (hs : source.symbols = []) (h : ctx.Converting some) :
    ctx.Converting (pushUnlessNull ctx pointer source some) :=
  .block rfl ((OnlyConverts.line (by simp [Line.mentions, hs])).bind fun _ => .branch rfl rfl h)

theorem pushWith_converting {tuple : String → Place → Draft Unit}
    (ht : ∀ name place, ctx.Converting (tuple name place)) :
    ∀ (rank : Nat) (spelling : String) (source : Place),
      ctx.Converting (pushWith ctx tuple rank spelling source) := by
  intro rank
  induction rank using Nat.strongRecOn with
  | _ rank ih =>
    intro spelling source
    unfold pushWith
    refine (ctx.categoryOf_converting spelling).bind fun c => ?_
    cases c with
    | void => exact .fail _
    | structValue name shape =>
      cases shape with
      | tuple => exact ht name source
      | userdata | byteRange => exact pushCopy_converting ctx name source
    | structPointer name shape isConst =>
      refine OnlyConverts.temp.bind fun pointer => pushUnlessNull_converting ctx rfl ?_
      split
      · exact ht _ _
      · split
        · exact pushCopy_converting ctx _ _
        · exact .line rfl
    | handle _ | pointer _ _ =>
      exact OnlyConverts.temp.bind fun pointer => pushUnlessNull_converting ctx rfl (.line rfl)
    | fixedArray elem size =>
      cases rank with
      | zero => exact .fail _
      | succ rank =>
        cases elementType? spelling with
        | none => exact .fail _
        | some elem =>
          refine OnlyConverts.temp.bind fun k => (OnlyConverts.line rfl).bind fun _ => .block rfl ?_
          exact (ih rank (Nat.lt_succ_self rank) _ _).bind fun _ => .line rfl
    | callback _ _ _ | unknown => exact .lines rfl
    | _ => exact .line rfl

theorem pushMembers_converting {push : String → Place → Draft Unit}
    (hp : ∀ spelling place, ctx.Converting (push spelling place)) (value : String) :
    ∀ (members : List TupleMember) (position : Nat),
      ctx.Converting (pushMembers push value position members) := by
  intro members
  induction members with
  | nil => intro _; exact .pure ()
  | cons member rest ih =>
    intro position
    exact (hp _ _).bind fun _ => (OnlyConverts.line rfl).bind fun _ => ih _

theorem pushTuple_converting : ∀ (levels : Nat) (name : String) (source : Place),
    ctx.Converting (pushTuple ctx levels name source) := by
  intro levels
  induction levels with
  | zero => intro _ _; exact .fail _
  | succ levels ih =>
    intro name source
    refine (OnlyConverts.ofExcept _).bind fun members => OnlyConverts.temp.bind fun value =>
      .block rfl ((OnlyConverts.lines rfl).bind fun _ => ?_)
    exact pushMembers_converting ctx (fun _ _ => pushWith_converting ctx ih _ _ _) value members 0

theorem push_converting (spelling : String) (source : Place) :
    ctx.Converting (push ctx spelling source) :=
  pushWith_converting ctx (pushTuple_converting ctx maxNesting) _ spelling source

/-! ## Reading -/

theorem readTable_converting {mode : ReadMode} {table : String} {index : StackIndex}
    {inside : Draft Unit} (h : ctx.Converting inside) :
    ctx.Converting (readTable mode table index inside) := by
  unfold readTable
  refine .block rfl ((OnlyConverts.line rfl).bind fun _ => ?_)
  cases mode with
  | checked => exact (OnlyConverts.line rfl).bind fun _ => h
  | lenient => exact .branch rfl rfl h

/-- The one place where a converter is called: its struct is bound. -/
theorem readBound_converts {name : String} (hb : ctx.isBound name = true) (place : Place)
    (index : StackIndex) (mode : ReadMode) :
    (Code.line (readBound ctx name place index mode) .done).OnlyConverts ctx.Bound := by
  have hmentions : (Code.line (readBound ctx name place index mode) .done).mentions =
      [.refers (.converter name)] := by
    cases mode <;> rfl
  intro m hm
  rw [hmentions] at hm
  exact ⟨name, List.mem_singleton.mp hm, hb⟩

theorem copyUserdata_mentions (name : String) (place : Place) (index : StackIndex) (mode : ReadMode)
    (pointer : String) : (copyUserdata ctx name place index mode pointer).flatMap Line.mentions = [] :=
  rfl

theorem readStruct_converting (name : String) (shape : Shape) (place : Place) (index : StackIndex)
    (mode : ReadMode) : ctx.Converting (readStruct ctx name shape place index mode) := by
  unfold readStruct
  by_cases hb : ctx.isBound name = true
  · rw [if_pos hb]
    exact .write (readBound_converts ctx hb place index mode)
  · rw [if_neg hb]
    unfold readForeign
    refine OnlyConverts.temp.bind fun pointer => ?_
    split
    · exact .block rfl (.lines (copyUserdata_mentions ctx name place index mode pointer))
    · refine OnlyConverts.temp.bind fun length => .block rfl (.branch rfl ?_ (.lines rfl))
      rw [Code.mentions_ofLines]
      exact copyUserdata_mentions ctx name place index mode pointer

theorem readPointer_mentions (isConst : Bool) (type : String) (place : Place) (index : StackIndex) :
    (readPointer isConst type place index).mentions = [] := by
  cases isConst <;> rfl

theorem readWith_converting {tuple : ReadMode → String → Place → StackIndex → Draft Unit}
    (ht : ∀ mode name place index, ctx.Converting (tuple mode name place index)) :
    ∀ (rank : Nat) (mode : ReadMode) (spelling : String) (place : Place) (index : StackIndex),
      ctx.Converting (readWith ctx tuple rank mode spelling place index) := by
  intro rank
  induction rank using Nat.strongRecOn with
  | _ rank ih =>
    intro mode spelling place index
    unfold readWith
    refine (ctx.categoryOf_converting spelling).bind fun c => ?_
    cases c with
    | void => exact .fail _
    | structValue name shape =>
      cases shape with
      | tuple => exact ht mode name place index
      | userdata | byteRange => exact readStruct_converting ctx name _ place index mode
    | structPointer name shape isConst =>
      apply OnlyConverts.line
      split <;> rfl
    | handle isConst | pointer _ isConst =>
      exact .line (readPointer_mentions isConst _ place index)
    | fixedArray elem size =>
      cases rank with
      | zero => exact .fail _
      | succ rank =>
        cases elementType? spelling with
        | none => exact .fail _
        | some elem =>
          refine OnlyConverts.temp.bind fun table => OnlyConverts.temp.bind fun k =>
            readTable_converting ctx (.block rfl ((OnlyConverts.line rfl).bind fun _ => ?_))
          exact (OnlyConverts.branch rfl rfl (ih rank (Nat.lt_succ_self rank) _ _ _ _)).bind
            fun _ => .line rfl
    | _ => exact .line rfl

theorem readMembers_converting {read : String → Place → Draft Unit}
    (hr : ∀ spelling place, ctx.Converting (read spelling place)) (table : String) (place : Place) :
    ∀ (members : List TupleMember) (position : Nat),
      ctx.Converting (readMembers read table place position members) := by
  intro members
  induction members with
  | nil => intro _; exact .pure ()
  | cons member rest ih =>
    intro position
    exact (OnlyConverts.line rfl).bind fun _ => (hr _ _).bind fun _ =>
      (OnlyConverts.line rfl).bind fun _ => ih _

theorem readTuple_converting : ∀ (levels : Nat) (mode : ReadMode) (name : String) (place : Place)
    (index : StackIndex), ctx.Converting (readTuple ctx levels mode name place index) := by
  intro levels
  induction levels with
  | zero => intro _ _ _ _; exact .fail _
  | succ levels ih =>
    intro mode name place index
    refine (OnlyConverts.ofExcept _).bind fun members => OnlyConverts.temp.bind fun table =>
      readTable_converting ctx ?_
    exact readMembers_converting ctx (fun _ _ => readWith_converting ctx ih _ _ _ _ _) table place
      members 0

theorem read_converting (mode : ReadMode) (spelling : String) (place : Place) (index : StackIndex) :
    ctx.Converting (read ctx mode spelling place index) :=
  readWith_converting ctx (readTuple_converting ctx maxNesting) _ mode spelling place index

theorem returnZero_converting (spelling : String) : ctx.Converting (returnZero ctx spelling) := by
  unfold returnZero
  refine (ctx.categoryOf_converting spelling).bind fun category => ?_
  split
  · exact .line rfl
  · dsimp only
    split
    · exact .line rfl
    · exact OnlyConverts.temp.bind fun zero => .lines rfl

end LuaGlue
