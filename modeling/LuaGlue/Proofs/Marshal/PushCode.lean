import LuaGlue.Marshal.Push
import LuaGlue.Proofs.Draft.Written

/-!
# What pushing writes

The counterpart of `Reads` for `push`: one rule for each template, and `push_pushes`, which says that
a push that succeeds has written code by the rules, over the memo it hands on. Unlike reading,
pushing follows pointers to tuples, so a tuple is reached by two rules.
-/

set_option autoImplicit false

namespace LuaGlue

/-! ## The templates -/

/-- The lines that push a value of a category without a temporary. -/
def pushLines? (spelling : String) (source : Place) : Category → Option (List Line)
  | .bool => some [.call (Api.pushboolean.on [.value source])]
  | .integer _ | .enum _ => some [.call (Api.pushinteger.on [.cast "lua_Integer" source])]
  | .float _ => some [.call (Api.pushnumber.on [.cast "lua_Number" source])]
  | .cstring => some [.call (Api.pushstring.on [.value source])]
  | .callback .. => some [.placeholder ("push function pointer '" ++ spelling ++ "'"), pushNil]
  | .unknown => some [.placeholder ("push unknown type '" ++ spelling ++ "'"), pushNil]
  | _ => none

/-- The code that copies a struct into a fresh userdata. -/
def copyCode (ctx : Context) (name : String) (source : Place) (copy : String) : Code :=
  .blockOf .bare (.ofLines
    [.declare (.plain (name ++ "*") copy)
      (.cast (name ++ "*")
        (.call (Api.newuserdata.on [.sizeof name, .text "TETHER_UV_COUNT"]))),
     .assign (.target (.name copy)) (.value source),
     .call (Api.setmetatable.on [.literal (ctx.metatable name)])])

/-- The code that pushes `nil` for a null pointer and is `some` for any other. -/
def unlessNullCode (ctx : Context) (pointer : Local) (source : Expr) (some : Code) : Code :=
  .blockOf .bare (.line (.declare pointer source)
    (.branchOf (.notNull (.name pointer.name) ctx.null) some (.line pushNil .done)))

/-- The table of an array: each element is pushed by `inside` and stored. -/
def arrayCode (k : String) (size : Nat) (inside : Code) : Code :=
  .line (.call (Api.createtable.on [.number size, .number 0]))
    (.blockOf (.count "int" k (toString size))
      (inside ++ .line (.call (Api.rawseti.on [.at .belowTop, .succ k])) .done))

/-- The table of a tuple, whose members are pushed and stored by `inside`. -/
def tupleCode (name value : String) (source : Place) (size : Nat) (inside : Code) : Code :=
  .blockOf .bare (.line (.declare (.plain name value) (.value source))
    (.line (.call (Api.createtable.on [.number size, .number 0])) inside))

/-- `void*`, and a pointer to a scalar: their values are pushed as they are. -/
def Category.isRawPointer : Category → Bool
  | .handle _ | .pointer .. => true
  | _ => false

/-! ## The rules -/

/-- What is to be pushed: a value, the tuple that a value is or points to, or the rest of a tuple's
members. -/
inductive PushJob where
  | value (spelling : String) (source : Place)
  | tuple (name : String) (source : Place)
  | members (value : String) (position : Nat) (rest : List TupleMember)

/-- `Pushes ctx m job n code n'`: over the memo `m`, the job is done by `code`, which takes the
temporaries from number `n` to below `n'`. -/
inductive Pushes (ctx : Context) (m : Memo) : PushJob → Nat → Code → Nat → Prop where
  | direct {spelling source c ls n} (hc : m.find? spelling = some c)
      (hl : pushLines? spelling source c = some ls) :
      Pushes ctx m (.value spelling source) n (.ofLines ls) n
  | copy {spelling source name shape n} (hc : m.find? spelling = some (.structValue name shape))
      (hs : shape ≠ .tuple) :
      Pushes ctx m (.value spelling source) n (copyCode ctx name source (temporary n)) (n + 1)
  | pointerTuple {spelling source name isConst n code n'}
      (hc : m.find? spelling = some (.structPointer name .tuple isConst))
      (inside : Pushes ctx m (.tuple name (.target (.name (temporary n)))) (n + 1) code n') :
      Pushes ctx m (.value spelling source) n
        (unlessNullCode ctx ⟨declareLocal spelling (temporary n), temporary n⟩ (.value source) code)
        n'
  | pointerCopy {spelling source name shape n}
      (hc : m.find? spelling = some (.structPointer name shape true)) (hs : shape ≠ .tuple) :
      Pushes ctx m (.value spelling source) n
        (unlessNullCode ctx ⟨declareLocal spelling (temporary n), temporary n⟩ (.value source)
          (copyCode ctx name (.target (.name (temporary n))) (temporary (n + 1))))
        (n + 2)
  | pointerLight {spelling source name shape n}
      (hc : m.find? spelling = some (.structPointer name shape false)) (hs : shape ≠ .tuple) :
      Pushes ctx m (.value spelling source) n
        (unlessNullCode ctx ⟨declareLocal spelling (temporary n), temporary n⟩ (.value source)
          (.line (pushLight (temporary n)) .done))
        (n + 1)
  | rawPointer {spelling source c n} (hc : m.find? spelling = some c)
      (hp : c.isRawPointer = true) :
      Pushes ctx m (.value spelling source) n
        (unlessNullCode ctx (.plain "const void*" (temporary n)) (.cast "const void*" (.value source))
          (.line (pushLight (temporary n)) .done))
        (n + 1)
  | array {spelling source c size elem n code n'} (hc : m.find? spelling = some (.fixedArray c size))
      (he : elementType? spelling = some elem)
      (inside : Pushes ctx m (.value elem (.element source (temporary n))) (n + 1) code n') :
      Pushes ctx m (.value spelling source) n (arrayCode (temporary n) size code) n'
  | tupleValue {spelling source name n code n'}
      (hc : m.find? spelling = some (.structValue name .tuple))
      (inside : Pushes ctx m (.tuple name source) n code n') :
      Pushes ctx m (.value spelling source) n code n'
  | tuple {name source members n code n'} (hm : ctx.tupleMembers name = .ok members)
      (inside : Pushes ctx m (.members (temporary n) 0 members) (n + 1) code n') :
      Pushes ctx m (.tuple name source) n
        (tupleCode name (temporary n) source members.length code) n'
  | nil {value position n} : Pushes ctx m (.members value position []) n .done n
  | cons {value position member rest n code n' code' n''}
      (head : Pushes ctx m (.value member.type (.member (.name value) member.field)) n code n')
      (tail : Pushes ctx m (.members value (position + 1) rest) n' code' n'') :
      Pushes ctx m (.members value position (member :: rest)) n
        (code ++ .line (storeAt (position + 1)) code') n''

/-- Code written by the rules over one memo is written by them over every later one. -/
theorem Pushes.mono {ctx : Context} {m m' : Memo} {job : PushJob} {n n' : Nat} {code : Code}
    (h : Pushes ctx m job n code n') (hm : m.Grows m') : Pushes ctx m' job n code n' := by
  induction h with
  | direct hc hl => exact .direct (hm _ _ hc) hl
  | copy hc hs => exact .copy (hm _ _ hc) hs
  | pointerTuple hc _ ih => exact .pointerTuple (hm _ _ hc) ih
  | pointerCopy hc hs => exact .pointerCopy (hm _ _ hc) hs
  | pointerLight hc hs => exact .pointerLight (hm _ _ hc) hs
  | rawPointer hc hp => exact .rawPointer (hm _ _ hc) hp
  | array hc he _ ih => exact .array (hm _ _ hc) he ih
  | tupleValue hc _ ih => exact .tupleValue (hm _ _ hc) ih
  | tuple hmem _ ih => exact .tuple hmem ih
  | nil => exact .nil
  | cons _ _ ih ih' => exact .cons ih ih'

/-! ## What pushing keeps -/

section

variable {ctx : Context} {K : Memo → Prop}

theorem pushCopy_keeps (name : String) (source : Place) : (pushCopy ctx name source).Keeps K :=
  Draft.Keeps.temp.bind fun _ => (Draft.Keeps.lines _).block .bare

theorem pushUnlessNull_keeps {some : Draft Unit} (h : some.Keeps K) (pointer : Local) (source : Expr) :
    (pushUnlessNull ctx pointer source some).Keeps K :=
  ((Draft.Keeps.line _).bind fun _ => h.branch _ _).block .bare

theorem pushMembers_keeps {push : String → Place → Draft Unit}
    (hp : ∀ spelling source, (push spelling source).Keeps K) (value : String) :
    ∀ (members : List TupleMember) (position : Nat),
      (pushMembers push value position members).Keeps K := by
  intro members
  induction members with
  | nil => intro _; exact Draft.Keeps.pure ()
  | cons member rest ih =>
    intro position
    exact (hp _ _).bind fun _ => (Draft.Keeps.line _).bind fun _ => ih _

variable (hK : ∀ spelling m, K m → K ((ctx.classify spelling).run m).2)

include hK

theorem pushWith_keeps {tuple : String → Place → Draft Unit}
    (ht : ∀ name source, (tuple name source).Keeps K) :
    ∀ (rank : Nat) (spelling : String) (source : Place),
      (pushWith ctx tuple rank spelling source).Keeps K := by
  intro rank
  induction rank using Nat.strongRecOn with
  | _ rank ih =>
    intro spelling source
    unfold pushWith
    refine (Context.categoryOf_keeps hK spelling).bind fun c => ?_
    cases c with
    | void => exact Draft.Keeps.fail _
    | structValue name shape =>
      cases shape with
      | tuple => exact ht name source
      | userdata | byteRange => exact pushCopy_keeps name source
    | structPointer name shape isConst =>
      refine Draft.Keeps.temp.bind fun pointer => pushUnlessNull_keeps ?_ _ _
      split
      · exact ht _ _
      · split
        · exact pushCopy_keeps _ _
        · exact Draft.Keeps.line _
    | handle isConst | pointer pointee isConst =>
      exact Draft.Keeps.temp.bind fun pointer => pushUnlessNull_keeps (Draft.Keeps.line _) _ _
    | fixedArray elem size =>
      cases rank with
      | zero => exact Draft.Keeps.fail _
      | succ rank =>
        cases elementType? spelling with
        | none => exact Draft.Keeps.fail _
        | some elem =>
          refine Draft.Keeps.temp.bind fun k => (Draft.Keeps.line _).bind fun _ =>
            Draft.Keeps.block _ ?_
          exact (ih rank (Nat.lt_succ_self rank) _ _).bind fun _ => Draft.Keeps.line _
    | callback _ _ _ | unknown => exact Draft.Keeps.lines _
    | _ => exact Draft.Keeps.line _

theorem pushTuple_keeps :
    ∀ (levels : Nat) (name : String) (source : Place), (pushTuple ctx levels name source).Keeps K := by
  intro levels
  induction levels with
  | zero => intro _ _; exact Draft.Keeps.fail _
  | succ levels ih =>
    intro name source
    refine (Draft.Keeps.ofExcept _).bind fun members => Draft.Keeps.temp.bind fun value =>
      Draft.Keeps.block _ ((Draft.Keeps.lines _).bind fun _ => ?_)
    exact pushMembers_keeps (fun spelling place => pushWith_keeps hK ih _ _ _) value members 0

/-- **What every question keeps of the memo is kept by pushing.** -/
theorem push_keeps (spelling : String) (source : Place) : (push ctx spelling source).Keeps K :=
  pushWith_keeps hK (pushTuple_keeps hK maxNesting) _ spelling source

end

/-! Answers first of all. -/

theorem pushWith_grows {ctx : Context} {tuple : String → Place → Draft Unit}
    (ht : ∀ name source, (tuple name source).Grows) (rank : Nat) (spelling : String) (source : Place) :
    (pushWith ctx tuple rank spelling source).Grows :=
  Draft.Grows.of_keeps fun known =>
    pushWith_keeps (ctx.classify_keeps_grows known) (fun name source => (ht name source).keeps known)
      rank spelling source

theorem pushMembers_grows {push : String → Place → Draft Unit}
    (hp : ∀ spelling source, (push spelling source).Grows) (value : String)
    (members : List TupleMember) (position : Nat) :
    (pushMembers push value position members).Grows :=
  Draft.Grows.of_keeps fun known =>
    pushMembers_keeps (fun spelling source => (hp spelling source).keeps known) value members position

theorem pushTuple_grows (ctx : Context) (levels : Nat) (name : String) (source : Place) :
    (pushTuple ctx levels name source).Grows :=
  Draft.Grows.of_keeps fun known => pushTuple_keeps (ctx.classify_keeps_grows known) levels name source

theorem push_grows (ctx : Context) (spelling : String) (source : Place) :
    (push ctx spelling source).Grows :=
  pushWith_grows (pushTuple_grows ctx maxNesting) _ spelling source

/-! ## Pushing writes by the rules -/

theorem pushCopy_written {ctx : Context} {name : String} {source : Place} {s s' : Scratch}
    {u : Unit} {code : Code} (h : pushCopy ctx name source s = (.written u code, s')) :
    code = copyCode ctx name source (temporary s.temporaries) ∧
      s' = { s with temporaries := s.temporaries + 1 } := by
  have hblock := Draft.temp_bind_written.mp h
  obtain ⟨_, hlines, rfl⟩ := Draft.block_written.mp hblock
  obtain ⟨rfl, rfl⟩ := Draft.lines_written.mp hlines
  exact ⟨rfl, rfl⟩

theorem pushUnlessNull_written {ctx : Context} {pointer : Local} {source : Expr} {some : Draft Unit}
    {s s' : Scratch} {u : Unit} {code : Code}
    (h : pushUnlessNull ctx pointer source some s = (.written u code, s')) :
    ∃ c, some s = (.written u c, s') ∧ code = unlessNullCode ctx pointer source c := by
  obtain ⟨_, hbody, rfl⟩ := Draft.block_written.mp h
  obtain ⟨_, hbranch, rfl⟩ := Draft.line_bind_written.mp hbody
  obtain ⟨c, hc, rfl⟩ := Draft.branch_written.mp hbranch
  exact ⟨c, hc, rfl⟩

/-- The recursion over the dimensions of a spelling. What it needs to know about tuples is what
`pushTuple_pushes` says about them. -/
theorem pushWith_pushes {ctx : Context} {tuple : String → Place → Draft Unit}
    (hg : ∀ name source, (tuple name source).Grows)
    (ht : ∀ {name source s u code s'}, tuple name source s = (.written u code, s') →
      Pushes ctx s'.memo (.tuple name source) s.temporaries code s'.temporaries) :
    ∀ {rank : Nat} {spelling : String} {source : Place} {s : Scratch} {u : Unit} {code : Code}
      {s' : Scratch}, pushWith ctx tuple rank spelling source s = (.written u code, s') →
      Pushes ctx s'.memo (.value spelling source) s.temporaries code s'.temporaries := by
  intro rank
  induction rank using Nat.strongRecOn with
  | _ rank ih =>
    intro spelling source s u code s' h
    unfold pushWith at h
    obtain ⟨c, _, s₁, c₂, hcat, htemplate, rfl⟩ := Draft.bind_written.mp h
    obtain ⟨rfl, hn, hc⟩ := Context.categoryOf_written hcat
    clear h
    rw [Code.done_append, ← hn]
    -- categories that take no temporary write their lines
    have direct {ls : List Line} (hl : pushLines? spelling source c = some ls)
        (h : Draft.lines ls s₁ = (.written u c₂, s')) :
        Pushes ctx s'.memo (.value spelling source) s₁.temporaries c₂ s'.temporaries := by
      obtain ⟨rfl, rfl⟩ := Draft.lines_written.mp h
      exact .direct hc hl
    -- raw pointers are all pushed alike
    have rawPointer (hp : c.isRawPointer = true)
        (h : (do
          let pointer ← Draft.temp
          pushUnlessNull ctx (.plain "const void*" pointer) (.cast "const void*" (.value source))
            (Draft.line (pushLight pointer))) s₁ = (.written u c₂, s')) :
        Pushes ctx s'.memo (.value spelling source) s₁.temporaries c₂ s'.temporaries := by
      have hpush := Draft.temp_bind_written.mp h
      obtain ⟨_, hline, rfl⟩ := pushUnlessNull_written hpush
      obtain ⟨rfl, rfl⟩ := Draft.line_written.mp hline
      exact .rawPointer hc hp
    cases c with
    | void => exact absurd htemplate Draft.fail_written
    | structValue name shape =>
      cases shape with
      | tuple => exact .tupleValue ((hg _ _).of_written htemplate _ _ hc) (ht htemplate)
      | userdata | byteRange =>
        obtain ⟨rfl, rfl⟩ := pushCopy_written htemplate
        exact .copy hc (by simp)
    | structPointer name shape isConst =>
      have hpush := Draft.temp_bind_written.mp htemplate
      obtain ⟨inside, hin, rfl⟩ := pushUnlessNull_written hpush
      by_cases hs : shape = .tuple
      · subst hs
        have hc' := (hg _ _).of_written hin _ _ hc
        exact .pointerTuple hc' (ht hin)
      · rw [if_neg (by simpa using hs)] at hin
        cases isConst with
        | true =>
          obtain ⟨rfl, rfl⟩ := pushCopy_written hin
          exact .pointerCopy hc hs
        | false =>
          obtain ⟨rfl, rfl⟩ := Draft.line_written.mp hin
          exact .pointerLight hc hs
    | handle isConst => exact rawPointer rfl htemplate
    | pointer pointee isConst => exact rawPointer rfl htemplate
    | fixedArray elem size =>
      cases rank with
      | zero => exact absurd htemplate Draft.fail_written
      | succ rank =>
        cases he : elementType? spelling with
        | none =>
          rw [he] at htemplate
          exact absurd htemplate Draft.fail_written
        | some elem =>
          rw [he] at htemplate
          have hrest := Draft.temp_bind_written.mp htemplate
          obtain ⟨_, hloop, rfl⟩ := Draft.line_bind_written.mp hrest
          obtain ⟨_, hbody, rfl⟩ := Draft.block_written.mp hloop
          obtain ⟨_, inside, _, _, hin, hstore, rfl⟩ := Draft.bind_written.mp hbody
          obtain ⟨rfl, rfl⟩ := Draft.line_written.mp hstore
          have hc' : s'.memo.find? spelling = some (.fixedArray _ size) :=
            (pushWith_grows hg _ _ _).of_written hin _ _ hc
          exact .array hc' he (ih rank (Nat.lt_succ_self rank) hin)
    | callback _ _ _ | unknown => exact direct rfl htemplate
    | _ => exact direct rfl htemplate

theorem pushMembers_pushes {ctx : Context} {push : String → Place → Draft Unit}
    (hg : ∀ spelling source, (push spelling source).Grows)
    (hp : ∀ {spelling source s u code s'}, push spelling source s = (.written u code, s') →
      Pushes ctx s'.memo (.value spelling source) s.temporaries code s'.temporaries)
    {value : String} :
    ∀ {members : List TupleMember} {position : Nat} {s : Scratch} {u : Unit} {code : Code}
      {s' : Scratch}, pushMembers push value position members s = (.written u code, s') →
      Pushes ctx s'.memo (.members value position members) s.temporaries code s'.temporaries := by
  intro members
  induction members with
  | nil =>
    intro position s u code s' h
    obtain ⟨-, rfl, rfl⟩ := Draft.pure_written.mp h
    exact .nil
  | cons member rest ih =>
    intro position s u code s' h
    obtain ⟨_, inside, _, _, hin, hrest, rfl⟩ := Draft.bind_written.mp h
    obtain ⟨_, htail, rfl⟩ := Draft.line_bind_written.mp hrest
    exact .cons ((hp hin).mono ((pushMembers_grows hg value rest _).of_written htail)) (ih htail)

theorem pushTuple_pushes {ctx : Context} :
    ∀ {levels : Nat} {name : String} {source : Place} {s : Scratch} {u : Unit} {code : Code}
      {s' : Scratch}, pushTuple ctx levels name source s = (.written u code, s') →
      Pushes ctx s'.memo (.tuple name source) s.temporaries code s'.temporaries := by
  intro levels
  induction levels with
  | zero => intro _ _ _ _ _ _ h; exact absurd h Draft.fail_written
  | succ levels ih =>
    intro name source s u code s' h
    obtain ⟨members, _, _, _, hask, hrest, rfl⟩ := Draft.bind_written.mp h
    obtain ⟨hm, rfl, rfl⟩ := Draft.ofExcept_written.mp hask
    have hblock := Draft.temp_bind_written.mp hrest
    obtain ⟨_, hbody, rfl⟩ := Draft.block_written.mp hblock
    obtain ⟨_, hin, rfl⟩ := Draft.lines_bind_written.mp hbody
    exact .tuple hm (pushMembers_pushes
      (fun _ _ => pushWith_grows (pushTuple_grows ctx levels) _ _ _)
      (fun h => pushWith_pushes (pushTuple_grows ctx levels) ih h) hin)

/-- **A push that succeeds has written code by the rules.** -/
theorem push_pushes {ctx : Context} {spelling : String} {source : Place} {s s' : Scratch} {u : Unit}
    {code : Code} (h : push ctx spelling source s = (.written u code, s')) :
    Pushes ctx s'.memo (.value spelling source) s.temporaries code s'.temporaries :=
  pushWith_pushes (pushTuple_grows ctx maxNesting) pushTuple_pushes h

end LuaGlue
