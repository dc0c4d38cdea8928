import LuaGlue.Callback
import LuaGlue.Proofs.Marshal.PushCode
import LuaGlue.Proofs.Marshal.ReadCode

/-!
# What a dispatcher consists of

A dispatcher that is written asks whether its slot is in use, asks for room on the stack, fetches the
closure, pushes the arguments in order, makes the protected call and converts the result. Each of the
ways out before the last answers with zero. `trampolines_written` takes the code of a callback field apart
into these pieces; the trampolines that come after the dispatcher do nothing but call it.
-/

set_option autoImplicit false

namespace LuaGlue

open Draft

/-! ## The pieces -/

/-- Code that answers with zero, or with nothing. -/
inductive ReturnsZero : Code → Prop where
  | void : ReturnsZero (.line .retVoid .done)
  | literal {zero} : ReturnsZero (.line (.ret (.text zero)) .done)
  | stored {x zero} : ReturnsZero (.ofLines [.declare x (.text zero), .ret (.value (.name x.name))])

/-- `ArgumentsPushed ctx m i params n code n'`: over the memo `m`, the arguments from position `i` on are
pushed one after another. -/
inductive ArgumentsPushed (ctx : Context) (m : Memo) : Nat → List String → Nat → Code → Nat → Prop where
  | nil {i n} : ArgumentsPushed ctx m i [] n .done n
  | cons {i spelling rest n code n' code' n''}
      (head : Pushes ctx m (.value spelling (.name (callbackParam i))) n code n')
      (tail : ArgumentsPushed ctx m (i + 1) rest n' code' n'') :
      ArgumentsPushed ctx m i (spelling :: rest) n (code ++ code') n''

/-- The end of a dispatcher: the result is converted, or zero stands in for it. -/
inductive ResultAnswered (ctx : Context) (m : Memo) (result : String) (category : Category) :
    Code → Prop where
  | converted {n code n'} (hc : category.isCallbackResult = true)
      (inside : Reads ctx m (.value .lenient result (.name "ret") .top) n code n') :
      ResultAnswered ctx m result category
        (.line (.declare ⟨declareLocal result "ret", "ret"⟩ (.text (ctx.zeroInit category)))
          (code ++ .ofLines [popOne, .ret (.value (.name "ret"))]))
  | zero {code} (hc : category.isCallbackResult = false) (hv : category.isVoid = false)
      (hz : ReturnsZero code) : ResultAnswered ctx m result category code
  | void (hv : category.isVoid = true) : ResultAnswered ctx m result category .done

/-- The pieces of a dispatcher. -/
structure DispatcherPieces where
  /-- The answer of a slot that is not in use. -/
  unused : Code
  /-- The answer when there is no room on the stack. -/
  overflow : Code
  arguments : Code
  /-- The answer when the closure fails. -/
  failed : Code
  answer : Code

/-- The gap for a result that is not converted. -/
def resultGap (result : String) (category : Category) : Code :=
  if !category.isVoid && !category.isCallbackResult then
    .line (.placeholder ("convert callback result '" ++ result ++ "'")) .done
  else .done

/-- The lines that report a failing closure. -/
def failureLines (ctx : Context) (site : String) : List Line :=
  [.declare (.plain "const char*" "msg") (.call (Api.tostring.on [.at .top])),
   reportFailure site (.text ("msg != " ++ ctx.null ++ " ? msg : \"error object is not a string\"")),
   popOne]

namespace DispatcherPieces

/-- What comes after the arguments: the protected call and the answer. -/
def calling (p : DispatcherPieces) (ctx : Context) (site result : String) (category : Category)
    (nargs : Nat) : Code :=
  resultGap result category ++
    .branch (.callFails nargs (if category.isCallbackResult then 1 else 0))
      (.ofLines (failureLines ctx site) ++ p.failed) .done p.answer

/-- The body of the dispatcher. -/
def body (p : DispatcherPieces) (ctx : Context) (site result : String) (category : Category)
    (nargs : Nat) : Code :=
  .branch (.isNull (.through "s" "L") ctx.null) p.unused .done
    (.line (.declare (.plain "lua_State*" "L") (.value (.through "s" "L")))
      (.branch (.fails (Api.checkstack.on [.number (dispatcherRoom nargs)]))
        (.line (reportFailure site (.literal "stack overflow")) p.overflow) .done
        (.line (.call (Api.rawgeti.on [.text "LUA_REGISTRYINDEX", .value (.through "s" "ref")]))
          (p.arguments ++ p.calling ctx site result category nargs))))

end DispatcherPieces

/-- What comes after a dispatcher: its trampolines, their type and their table. -/
def poolCode (owner field result : String) (category : Category) (params : String) (nargs : Nat) :
    Code :=
  let pool := List.range poolSize
  let type : Symbol := .callbackType owner field
  .seq
    [.ofLines [.blank],
     .seq (pool.map (trampolineCode owner field result category params nargs)),
     .ofLines [.blank, .functionType result type params],
     .blockOf (.table ("static const " ++ type.spelling) (.trampolineTable owner field) "TETHER_SLOT_POOL")
      (.ofLines (pool.map fun entry => .item (.trampoline owner field entry))) .semicolon,
     .ofLines [.blank]]

/-- The pieces come from where they should. -/
structure Dispatches (ctx : Context) (m : Memo) (result : String) (category : Category)
    (params : List String) (p : DispatcherPieces) : Prop where
  unused : ReturnsZero p.unused
  overflow : ReturnsZero p.overflow
  arguments : ∃ n n', ArgumentsPushed ctx m 0 params n p.arguments n'
  failed : ReturnsZero p.failed
  answer : ResultAnswered ctx m result category p.answer

/-! ## The steps -/

/-- What a dispatcher does after the protected call has succeeded. -/
def answerResult (ctx : Context) (result : String) (category : Category) : Draft Unit := do
  if category.isCallbackResult then
    line (.declare ⟨declareLocal result "ret", "ret"⟩ (.text (ctx.zeroInit category)))
    read ctx .lenient result (.name "ret") .top
    lines [popOne, .ret (.value (.name "ret"))]
  else if !category.isVoid then returnZero ctx result

/-- What a dispatcher does from the protected call on. -/
def callClosure (ctx : Context) (site result : String) (category : Category) (nargs : Nat) :
    Draft Unit := do
  branch (.callFails nargs (if category.isCallbackResult then 1 else 0)) do
    lines (failureLines ctx site)
    returnZero ctx result
  answerResult ctx result category

/-! ## Writing a dispatcher takes nothing back -/

theorem returnZero_grows (ctx : Context) (spelling : String) : (returnZero ctx spelling).Grows := by
  unfold returnZero
  refine (ctx.categoryOf_grows spelling).bind fun category => ?_
  split
  · exact .line _
  · dsimp only
    split
    · exact .line _
    · exact Draft.Grows.temp.bind fun _ => .lines _

theorem pushArguments_grows (ctx : Context) :
    ∀ (params : List String) (i : Nat), (pushArguments ctx i params).Grows := by
  intro params
  induction params with
  | nil => intro _; exact .pure ()
  | cons spelling rest ih =>
    intro i
    exact (push_grows ctx _ _).bind fun _ => ih _

theorem answerResult_grows (ctx : Context) (result : String) (category : Category) :
    (answerResult ctx result category).Grows := by
  unfold answerResult
  split
  · exact (Draft.Grows.line _).bind fun _ => (read_grows ctx _ _ _ _).bind fun _ => .lines _
  · split
    · exact returnZero_grows ctx result
    · exact .pure ()

theorem callClosure_grows (ctx : Context) (site result : String) (category : Category) (nargs : Nat) :
    (callClosure ctx site result category nargs).Grows :=
  (((Draft.Grows.lines _).bind fun _ => returnZero_grows ctx result).branch _ _).bind fun _ =>
    answerResult_grows ctx result category

theorem dispatcherBody_grows (ctx : Context) (site result : String) (category : Category)
    (params : List String) : (dispatcherBody ctx site result category params).Grows := by
  have zero := returnZero_grows ctx result
  have calling := callClosure_grows ctx site result category params.length
  unfold dispatcherBody
  dsimp only
  refine (zero.branch _ _).bind fun _ => (Grows.line _).bind fun _ =>
    (((Grows.line _).bind fun _ => zero).branch _ _).bind fun _ => (Grows.line _).bind fun _ =>
      (pushArguments_grows ctx params 0).bind fun _ => ?_
  cases !category.isVoid && !category.isCallbackResult with
  | true => exact (Grows.line _).bind fun _ => calling
  | false => exact calling

theorem trampolines_grows (ctx : Context) (owner : String) (field : Field) :
    (trampolines ctx owner field).Grows :=
  (Grows.ofExcept _).bind fun _ => (ctx.categoryOf_grows _).bind fun _ =>
    ((dispatcherBody_grows ctx _ _ _ _).block _).bind fun _ => .write _

/-! ## The pieces are written -/

section

variable {ctx : Context} {s s' : Scratch} {u : Unit} {code : Code}

theorem returnZero_written {spelling : String} (h : returnZero ctx spelling s = (.written u code, s')) :
    ReturnsZero code := by
  obtain ⟨category, _, _, _, hask, h₁, rfl⟩ := Draft.bind_written.mp h
  obtain ⟨rfl, -, -⟩ := Context.categoryOf_written hask
  cases hv : category.isVoid with
  | true =>
    rw [if_pos hv] at h₁
    obtain ⟨rfl, -⟩ := Draft.line_written.mp h₁
    exact .void
  | false =>
    rw [if_neg (by simp [hv])] at h₁
    cases hz : ctx.zeroLiteral? (valueType spelling) category with
    | some zero =>
      rw [hz] at h₁
      obtain ⟨rfl, -⟩ := Draft.line_written.mp h₁
      exact .literal
    | none =>
      rw [hz] at h₁
      obtain ⟨rfl, -⟩ := Draft.lines_written.mp (Draft.temp_bind_written.mp h₁)
      exact .stored

theorem ArgumentsPushed.mono {m m' : Memo} {i : Nat} {params : List String} {n n' : Nat}
    (h : ArgumentsPushed ctx m i params n code n') (hm : m.Grows m') :
    ArgumentsPushed ctx m' i params n code n' := by
  induction h with
  | nil => exact .nil
  | cons head _ ih => exact .cons (head.mono hm) ih

theorem ResultAnswered.mono {m m' : Memo} {result : String} {category : Category}
    (h : ResultAnswered ctx m result category code) (hm : m.Grows m') :
    ResultAnswered ctx m' result category code := by
  cases h with
  | converted hc inside => exact .converted hc (inside.mono hm)
  | zero hc hv hz => exact .zero hc hv hz
  | void hv => exact .void hv

theorem pushArguments_written :
    ∀ {params : List String} {i : Nat} {s s' : Scratch} {u : Unit} {code : Code},
      pushArguments ctx i params s = (.written u code, s') →
      ArgumentsPushed ctx s'.memo i params s.temporaries code s'.temporaries := by
  intro params
  induction params with
  | nil =>
    intro i s s' u code h
    obtain ⟨-, rfl, rfl⟩ := Draft.pure_written.mp h
    exact .nil
  | cons spelling rest ih =>
    intro i s s' u code h
    obtain ⟨_, _, _, _, hpush, hrest, rfl⟩ := Draft.bind_written.mp h
    exact .cons ((push_pushes hpush).mono ((pushArguments_grows ctx rest _).of_written hrest)) (ih hrest)

theorem answerResult_written {result : String} {category : Category}
    (h : answerResult ctx result category s = (.written u code, s')) :
    ResultAnswered ctx s'.memo result category code := by
  unfold answerResult at h
  cases hc : category.isCallbackResult with
  | true =>
    rw [if_pos hc] at h
    obtain ⟨_, h₁, rfl⟩ := Draft.line_bind_written.mp h
    obtain ⟨_, _, _, _, hread, hlines, rfl⟩ := Draft.bind_written.mp h₁
    obtain ⟨rfl, rfl⟩ := Draft.lines_written.mp hlines
    exact .converted hc (read_reads hread)
  | false =>
    rw [if_neg (by simp [hc])] at h
    cases hv : category.isVoid with
    | true =>
      rw [if_neg (by simp [hv])] at h
      obtain ⟨-, rfl, -⟩ := Draft.pure_written.mp h
      exact .void hv
    | false =>
      rw [if_pos (by simp [hv])] at h
      exact .zero hc hv (returnZero_written h)

theorem callClosure_written {site result : String} {category : Category} {nargs : Nat}
    (h : callClosure ctx site result category nargs s = (.written u code, s')) :
    ∃ failed answer, ReturnsZero failed ∧ ResultAnswered ctx s'.memo result category answer ∧
      code = .branch (.callFails nargs (if category.isCallbackResult then 1 else 0))
        (.ofLines (failureLines ctx site) ++ failed) .done answer := by
  obtain ⟨_, _, _, answer, hcall, hanswer, rfl⟩ := Draft.bind_written.mp h
  obtain ⟨_, hbody, rfl⟩ := Draft.branch_written.mp hcall
  obtain ⟨failed, hfailed, rfl⟩ := Draft.lines_bind_written.mp hbody
  exact ⟨failed, answer, returnZero_written hfailed, answerResult_written hanswer, rfl⟩

theorem dispatcherBody_written {site result : String} {category : Category} {params : List String}
    (h : dispatcherBody ctx site result category params s = (.written u code, s')) :
    ∃ p, Dispatches ctx s'.memo result category params p ∧
      code = p.body ctx site result category params.length := by
  unfold dispatcherBody at h
  dsimp only at h
  obtain ⟨_, _, _, _, hslot, h₁, rfl⟩ := Draft.bind_written.mp h
  obtain ⟨unused, hunused, rfl⟩ := Draft.branch_written.mp hslot
  obtain ⟨_, h₂, rfl⟩ := Draft.line_bind_written.mp h₁
  obtain ⟨_, _, _, _, hroom, h₃, rfl⟩ := Draft.bind_written.mp h₂
  obtain ⟨_, hreport, rfl⟩ := Draft.branch_written.mp hroom
  obtain ⟨overflow, hoverflow, rfl⟩ := Draft.line_bind_written.mp hreport
  obtain ⟨_, h₄, rfl⟩ := Draft.line_bind_written.mp h₃
  obtain ⟨_, arguments, s₁, rest, hpush, h₅, rfl⟩ := Draft.bind_written.mp h₄
  -- with or without a gap for the result, the same call comes next
  have split : ∃ calling, callClosure ctx site result category params.length s₁ =
      (.written u calling, s') ∧ rest = resultGap result category ++ calling := by
    unfold resultGap
    cases hgap : !category.isVoid && !category.isCallbackResult with
    | true =>
      rw [hgap] at h₅
      obtain ⟨calling, hcalling, rfl⟩ := Draft.line_bind_written.mp h₅
      exact ⟨calling, hcalling, rfl⟩
    | false =>
      rw [hgap] at h₅
      exact ⟨rest, h₅, rfl⟩
  obtain ⟨calling, hcalling, rfl⟩ := split
  obtain ⟨failed, answer, hfailed, hanswer, rfl⟩ := callClosure_written hcalling
  have hgrows := (callClosure_grows ctx _ _ _ _).of_written hcalling
  exact ⟨⟨unused, overflow, arguments, failed, answer⟩,
    ⟨returnZero_written hunused, returnZero_written hoverflow,
      ⟨_, _, (pushArguments_written hpush).mono hgrows⟩, hfailed, hanswer⟩, rfl⟩

/-- **The code of a callback field is its dispatcher, of the pieces above, and its trampolines.** -/
theorem trampolines_written {owner : String} {field : Field}
    (h : trampolines ctx owner field s = (.written u code, s')) :
    ∃ f category declared params p, signature ctx owner field = .ok f ∧
      s'.memo.find? (Text.trimmed f.result) = some category ∧
      Dispatches ctx s'.memo (Text.trimmed f.result) category f.params p ∧
      code =
        .block
          (.define ("static " ++ Text.trimmed f.result) (.dispatcher owner field.name) declared)
          (p.body ctx (owner ++ "." ++ field.name) (Text.trimmed f.result) category f.params.length)
          .brace
          (poolCode owner field.name (Text.trimmed f.result) category params f.params.length) := by
  obtain ⟨f, _, _, _, hsignature, h₁, rfl⟩ := Draft.bind_written.mp h
  obtain ⟨hf, rfl, rfl⟩ := Draft.ofExcept_written.mp hsignature
  obtain ⟨category, _, s₁, _, hask, h₂, rfl⟩ := Draft.bind_written.mp h₁
  obtain ⟨rfl, -, hc⟩ := Context.categoryOf_written hask
  obtain ⟨_, _, s₂, _, hblock, hpool, rfl⟩ := Draft.bind_written.mp h₂
  obtain ⟨rfl, rfl⟩ := Draft.write_written.mp hpool
  obtain ⟨body, hbody, rfl⟩ := Draft.block_written.mp hblock
  obtain ⟨p, hp, rfl⟩ := dispatcherBody_written hbody
  have hgrows := (dispatcherBody_grows ctx _ _ _ _).of_written hbody
  exact ⟨f, category, _, _, p, hf, hgrows _ _ hc, hp, rfl⟩

end

end LuaGlue
