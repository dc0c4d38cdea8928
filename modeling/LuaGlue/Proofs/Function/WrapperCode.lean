import LuaGlue.Proofs.Function.UnitCode
import LuaGlue.Proofs.Marshal.PushCode

/-!
# What a wrapper consists of

A wrapper that is written consists of a prologue, the code of each unit in order, the native call,
the code that pushes the return value, the code that pushes each output in order, and a `return`.
`wrapFunction_written` takes a wrapper apart into these pieces, with what is known about each.
-/

set_option autoImplicit false

namespace LuaGlue

/-! ## The arguments -/

/-- `UnitsRead ctx slot units s codes given s'`: the units are read one after another, the first of
them from the slot after `slot`; one piece of code and one contribution belong to each. -/
inductive UnitsRead (ctx : Context) :
    Nat → List ParamUnit → Scratch → List Code → List UnitCode → Scratch → Prop where
  | nil {slot s} : UnitsRead ctx slot [] s [] [] s
  | cons {slot u rest s code r s₁ codes given s'}
      (head : readUnit ctx (slot + 1) u s = (.written r code, s₁))
      (tail : UnitsRead ctx (slot + 1) rest s₁ codes given s') :
      UnitsRead ctx slot (u :: rest) s (code :: codes) (r :: given) s'

theorem readUnits_written {ctx : Context} :
    ∀ {units : List ParamUnit} {slot : Nat} {s s' : Scratch} {given : List UnitCode} {code : Code},
      readUnits ctx slot units s = (.written given code, s') →
      ∃ codes, UnitsRead ctx slot units s codes given s' ∧ code = .seq codes := by
  intro units
  induction units with
  | nil =>
    intro slot s s' given code h
    obtain ⟨rfl, rfl, rfl⟩ := Draft.pure_written.mp h
    exact ⟨[], .nil, rfl⟩
  | cons u rest ih =>
    intro slot s s' given code h
    obtain ⟨r, c, _, _, hread, hrest, rfl⟩ := Draft.bind_written.mp h
    obtain ⟨given', _, _, _, htail, hreturn, rfl⟩ := Draft.bind_written.mp hrest
    obtain ⟨rfl, rfl, rfl⟩ := Draft.pure_written.mp hreturn
    obtain ⟨codes, hunits, rfl⟩ := ih htail
    exact ⟨c :: codes, .cons hread hunits, by rw [Code.append_done]; rfl⟩

theorem UnitsRead.grows {ctx : Context} {slot : Nat} {units : List ParamUnit} {s s' : Scratch}
    {codes : List Code} {given : List UnitCode} (h : UnitsRead ctx slot units s codes given s') :
    s.memo.Grows s'.memo := by
  induction h with
  | nil => exact Memo.Grows.refl _
  | cons head _ ih => exact ((readUnit_grows ctx _ _).of_written head).trans ih

/-- The piece of code that belongs to a unit. -/
theorem UnitsRead.get {ctx : Context} {slot : Nat} {units : List ParamUnit} {s s' : Scratch}
    {codes : List Code} {given : List UnitCode} (h : UnitsRead ctx slot units s codes given s')
    {i : Nat} {u : ParamUnit} {code : Code} (hu : units[i]? = some u) (hc : codes[i]? = some code) :
    ∃ t t' r, readUnit ctx (slot + i + 1) u t = (.written r code, t') := by
  induction h generalizing i with
  | nil => simp at hu
  | @cons slot _ _ s _ r s₁ _ _ _ head _ ih =>
    cases i with
    | zero =>
      simp only [List.getElem?_cons_zero, Option.some.injEq] at hu hc
      subst hu hc
      exact ⟨s, s₁, r, head⟩
    | succ i =>
      rw [List.getElem?_cons_succ] at hu hc
      obtain ⟨t, t', r', h'⟩ := ih hu hc
      exact ⟨t, t', r', by rwa [show slot + (i + 1) + 1 = slot + 1 + i + 1 by omega]⟩

theorem UnitsRead.length_eq {ctx : Context} {slot : Nat} {units : List ParamUnit} {s s' : Scratch}
    {codes : List Code} {given : List UnitCode} (h : UnitsRead ctx slot units s codes given s') :
    codes.length = units.length := by
  induction h with
  | nil => rfl
  | cons _ _ ih => simp [ih]

/-! ## The results -/

/-- The code that pushes an output, with `inside` pushing the value. -/
def pushOutputCode (ctx : Context) (o : OutputValue) (inside : Code) : Code :=
  match o.guard with
  | some pointer => .branchOf (.notNull (.name pointer) ctx.null) inside (.line pushNil .done)
  | none => inside

/-- `OutputsPushed ctx m outputs n code n' results`: over the memo `m`, the outputs are pushed one
after another and become these results. -/
inductive OutputsPushed (ctx : Context) (m : Memo) :
    List OutputValue → Nat → Code → Nat → List ScriptResult → Prop where
  | nil {n} : OutputsPushed ctx m [] n .done n []
  | cons {o rest n code n' category code' n'' results}
      (head : Pushes ctx m (.value o.type o.place) n code n')
      (hc : m.find? o.type = some category)
      (tail : OutputsPushed ctx m rest n' code' n'' results) :
      OutputsPushed ctx m (o :: rest) n (pushOutputCode ctx o code ++ code') n''
        (⟨some o.param, luaType ctx category⟩ :: results)

/-- The return value's code: nothing for `void`. -/
inductive ResultPushed (ctx : Context) (m : Memo) (spelling : String) (category : Category) :
    Nat → Code → Nat → List ScriptResult → Prop where
  | void {n} (hv : category.isVoid = true) : ResultPushed ctx m spelling category n .done n []
  | value {n code n'} (hv : category.isVoid = false)
      (inside : Pushes ctx m (.value spelling (.name resultLocal)) n code n') :
      ResultPushed ctx m spelling category n code n' [⟨none, luaType ctx category⟩]

section

variable {ctx : Context} {s s' : Scratch} {code : Code}

theorem pushResult_written {spelling : String} {category : Category} {results : List ScriptResult}
    (h : pushResult ctx spelling category s = (.written results code, s')) :
    ResultPushed ctx s'.memo spelling category s.temporaries code s'.temporaries results := by
  unfold pushResult at h
  cases hv : category.isVoid with
  | true =>
    rw [if_pos hv] at h
    obtain ⟨rfl, rfl, rfl⟩ := Draft.pure_written.mp h
    exact .void hv
  | false =>
    rw [if_neg (by simp [hv])] at h
    obtain ⟨_, _, _, _, hpush, hreturn, rfl⟩ := Draft.bind_written.mp h
    obtain ⟨rfl, rfl, rfl⟩ := Draft.pure_written.mp hreturn
    rw [Code.append_done]
    exact .value hv (push_pushes hpush)

theorem pushResult_grows (ctx : Context) (spelling : String) (category : Category) :
    (pushResult ctx spelling category).Grows := by
  unfold pushResult
  split
  · exact Draft.Grows.pure _
  · exact (push_grows _ _ _).bind fun _ => Draft.Grows.pure _

theorem ResultPushed.mono {m m' : Memo} {spelling : String} {category : Category} {n n' : Nat}
    {results : List ScriptResult} (h : ResultPushed ctx m spelling category n code n' results)
    (hm : m.Grows m') : ResultPushed ctx m' spelling category n code n' results := by
  cases h with
  | void hv => exact .void hv
  | value hv inside => exact .value hv (inside.mono hm)

theorem pushOutput_written {o : OutputValue} {result : ScriptResult}
    (h : pushOutput ctx o s = (.written result code, s')) :
    ∃ inside category, Pushes ctx s'.memo (.value o.type o.place) s.temporaries inside
        s'.temporaries ∧ s'.memo.find? o.type = some category ∧
      code = pushOutputCode ctx o inside ∧ result = ⟨some o.param, luaType ctx category⟩ := by
  unfold pushOutput at h
  have asked {c : Category} {t t' : Scratch} {inside code' : Code}
      (hpush : Pushes ctx t.memo (.value o.type o.place) s.temporaries inside t.temporaries)
      (hask : ctx.categoryOf o.type t = (.written c code', t')) :
      Pushes ctx t'.memo (.value o.type o.place) s.temporaries inside t'.temporaries := by
    obtain ⟨-, htemp, hgrows, -⟩ := askedLast hask
    rw [htemp]
    exact hpush.mono hgrows
  cases hguard : o.guard with
  | none =>
    rw [hguard] at h
    obtain ⟨_, inside, _, _, hpush, hrest, rfl⟩ := Draft.bind_written.mp h
    obtain ⟨c, _, _, _, hask, hreturn, rfl⟩ := Draft.bind_written.mp hrest
    have hpushes := asked (push_pushes hpush) hask
    obtain ⟨rfl, -, -, hc⟩ := askedLast hask
    obtain ⟨rfl, rfl, rfl⟩ := Draft.pure_written.mp hreturn
    exact ⟨inside, c, hpushes, hc, by simp [pushOutputCode, hguard], rfl⟩
  | some pointer =>
    rw [hguard] at h
    obtain ⟨_, _, _, _, hbranch, hrest, rfl⟩ := Draft.bind_written.mp h
    obtain ⟨inside, hpush, rfl⟩ := Draft.branch_written.mp hbranch
    obtain ⟨c, _, _, _, hask, hreturn, rfl⟩ := Draft.bind_written.mp hrest
    have hpushes := asked (push_pushes hpush) hask
    obtain ⟨rfl, -, -, hc⟩ := askedLast hask
    obtain ⟨rfl, rfl, rfl⟩ := Draft.pure_written.mp hreturn
    exact ⟨inside, c, hpushes, hc, by simp [pushOutputCode, hguard, Code.branchOf], rfl⟩

theorem pushOutput_grows (ctx : Context) (o : OutputValue) : (pushOutput ctx o).Grows := by
  unfold pushOutput
  split
  · exact ((push_grows _ _ _).branch _ _).bind fun _ =>
      (ctx.categoryOf_grows _).bind fun _ => Draft.Grows.pure _
  · exact (push_grows _ _ _).bind fun _ =>
      (ctx.categoryOf_grows _).bind fun _ => Draft.Grows.pure _

theorem pushOutputs_grows (ctx : Context) (outputs : List OutputValue) :
    (pushOutputs ctx outputs).Grows := by
  induction outputs with
  | nil => exact Draft.Grows.pure _
  | cons o rest ih =>
    exact (pushOutput_grows ctx o).bind fun _ => ih.bind fun _ => Draft.Grows.pure _

theorem pushOutputs_written :
    ∀ {outputs : List OutputValue} {s s' : Scratch} {results : List ScriptResult} {code : Code},
      pushOutputs ctx outputs s = (.written results code, s') →
      OutputsPushed ctx s'.memo outputs s.temporaries code s'.temporaries results := by
  intro outputs
  induction outputs with
  | nil =>
    intro s s' results code h
    obtain ⟨rfl, rfl, rfl⟩ := Draft.pure_written.mp h
    exact .nil
  | cons o rest ih =>
    intro s s' results code h
    obtain ⟨_, _, _, _, hpush, hrest, rfl⟩ := Draft.bind_written.mp h
    obtain ⟨inside, c, hpushes, hc, rfl, rfl⟩ := pushOutput_written hpush
    obtain ⟨results', _, _, _, htail, hreturn, rfl⟩ := Draft.bind_written.mp hrest
    obtain ⟨rfl, rfl, rfl⟩ := Draft.pure_written.mp hreturn
    have hgrows := (pushOutputs_grows ctx rest).of_written htail
    rw [Code.append_done]
    exact .cons (hpushes.mono hgrows) (hgrows _ _ hc) (ih htail)

end

/-! ## The wrapper -/

/-- The lines that come first if some argument goes through the keep table: absent arguments have to
stay below it. -/
def scratchLines (scratch : Bool) (units : Nat) : List Line :=
  if scratch then .call (Api.settop.on [.number units]) :: keepTable else []

/-- The pieces of a wrapper. -/
structure WrapperPieces where
  units : List ParamUnit
  /-- Whether there is a keep table. -/
  scratch : Bool
  reads : List Code
  given : List UnitCode
  /-- The return value's category. -/
  category : Category
  returned : List ScriptResult
  returnCode : Code
  outputs : List ScriptResult
  outputCode : Code

namespace WrapperPieces

/-- The native call's lines. -/
def callLines (w : WrapperPieces) (ctx : Context) (f : FunctionDecl) : List Line :=
  LuaGlue.callLines ctx f (Text.trimmed f.returnType) w.category (w.given.flatMap (·.nativeArgs))

/-- What the wrapper pushes, in the order in which it does. -/
def results (w : WrapperPieces) : List ScriptResult := w.returned ++ w.outputs

/-- The body of the wrapper. -/
def body (w : WrapperPieces) (ctx : Context) (f : FunctionDecl) : Code :=
  .ofLines (scratchLines w.scratch w.units.length) ++ (.seq w.reads ++
    (.ofLines (w.callLines ctx f) ++ (w.returnCode ++ (w.outputCode ++
      .line (.ret (.text (toString w.results.length))) .done))))

/-- The wrapper. -/
def code (w : WrapperPieces) (ctx : Context) (f : FunctionDecl) (names : FunctionNames) : Code :=
  .block (.define "static int" (.wrapper names.cName) "lua_State* L") (w.body ctx f) .brace
    (.line .blank .done)

/-- What is said about the wrapper. -/
def binding (w : WrapperPieces) (f : FunctionDecl) (names : FunctionNames) : FunctionBinding :=
  { native := f.name, names := names, args := w.given.map (·.arg), results := w.results }

end WrapperPieces

/-- The pieces come from where they should: `t` is the state in which the first argument is read,
`t'` the one after the last, and `s'` the one at the end. -/
structure Wraps (ctx : Context) (f : FunctionDecl) (s t t' s' : Scratch) (w : WrapperPieces) : Prop where
  units : w.units = ((pairParams ctx f.name f.params).run s.memo).1
  scratch : (w.scratch, t.memo) = (w.units.anyM (ParamUnit.needsScratch ctx)).run
    ((pairParams ctx f.name f.params).run s.memo).2
  reads : UnitsRead ctx 0 w.units t w.reads w.given t'
  category : s'.memo.find? (Text.trimmed f.returnType) = some w.category
  results : ∃ n, ResultPushed ctx s'.memo (Text.trimmed f.returnType) w.category t'.temporaries
    w.returnCode n w.returned ∧ OutputsPushed ctx s'.memo (w.given.filterMap (·.output)) n
      w.outputCode s'.temporaries w.outputs
  grows : t'.memo.Grows s'.memo

/-- What a wrapper does after its prologue. -/
def wrapperRest (ctx : Context) (f : FunctionDecl) (names : FunctionNames) (units : List ParamUnit) :
    Draft FunctionBinding := do
  let codes ← readUnits ctx 0 units
  let result := Text.trimmed f.returnType
  let category ← ctx.categoryOf result
  Draft.lines (callLines ctx f result category (codes.flatMap (·.nativeArgs)))
  let returned ← pushResult ctx result category
  let outputs ← pushOutputs ctx (codes.filterMap (·.output))
  let results := returned ++ outputs
  Draft.line (.ret (.text (toString results.length)))
  return { native := f.name, names := names, args := codes.map (·.arg), results := results }

/-- **A wrapper that is written consists of its pieces.** -/
theorem wrapFunction_written {ctx : Context} {f : FunctionDecl} {names : FunctionNames}
    {binding : FunctionBinding} {s s' : Scratch} {code : Code}
    (h : wrapFunction ctx f names s = (.written binding code, s')) :
    ∃ w t t', Wraps ctx f s t t' s' w ∧ code = w.code ctx f names ∧
      binding = w.binding f names := by
  obtain ⟨made, _, _, _, hbody, hblank, rfl⟩ := Draft.bind_written.mp h
  obtain ⟨_, hreturn, rfl⟩ := Draft.line_bind_written.mp hblank
  obtain ⟨rfl, rfl, rfl⟩ := Draft.pure_written.mp hreturn
  obtain ⟨units, _, s₁, _, hpair, hdefine, rfl⟩ := Draft.bind_written.mp hbody
  obtain ⟨hunits, rfl, rfl⟩ := Draft.asking_written.mp hpair
  obtain ⟨body, hinside, rfl⟩ := Draft.block_written.mp hdefine
  obtain ⟨scratch, _, t, inner, hscratch, hprologue, rfl⟩ := Draft.bind_written.mp hinside
  obtain ⟨hwhen, rfl, ht⟩ := Draft.asking_written.mp hscratch
  -- the prologue, if there is one, comes before the same rest
  have split : ∃ rest, wrapperRest ctx f names units t = (.written made rest, s') ∧
      inner = .ofLines (scratchLines scratch units.length) ++ rest := by
    cases scratch with
    | true =>
      obtain ⟨_, hrest, rfl⟩ := Draft.lines_bind_written.mp hprologue
      exact ⟨_, hrest, rfl⟩
    | false => exact ⟨_, hprologue, rfl⟩
  obtain ⟨rest, hrest, rfl⟩ := split
  obtain ⟨given, _, t', _, hread, h₁, rfl⟩ := Draft.bind_written.mp hrest
  obtain ⟨reads, hreads, rfl⟩ := readUnits_written hread
  obtain ⟨category, _, s₂, _, hask, h₂, rfl⟩ := Draft.bind_written.mp h₁
  obtain ⟨rfl, htemp, hgrows, hc⟩ := askedLast hask
  obtain ⟨_, h₃, rfl⟩ := Draft.lines_bind_written.mp h₂
  obtain ⟨returned, returnCode, s₃, _, hresult, h₄, rfl⟩ := Draft.bind_written.mp h₃
  obtain ⟨outputs, outputCode, s₄, _, houtputs, h₅, rfl⟩ := Draft.bind_written.mp h₄
  obtain ⟨_, hyield, rfl⟩ := Draft.line_bind_written.mp h₅
  obtain ⟨rfl, rfl, rfl⟩ := Draft.pure_written.mp hyield
  have hresultGrows := (pushResult_grows ctx _ category).of_written hresult
  have houtputGrows := (pushOutputs_grows ctx _).of_written houtputs
  have hpushed := (pushResult_written hresult).mono houtputGrows
  rw [htemp] at hpushed
  refine ⟨⟨units, scratch, reads, given, category, returned, returnCode, outputs, outputCode⟩, t, t',
    ⟨hunits, ?_, hreads, houtputGrows _ _ (hresultGrows _ _ hc), ⟨_, hpushed,
      pushOutputs_written houtputs⟩, hgrows.trans (hresultGrows.trans houtputGrows)⟩, rfl, rfl⟩
  rw [ht, hwhen]
  rfl

end LuaGlue
