import LuaGlue.Marshal.Read
import LuaGlue.Proofs.Draft.Written

/-!
# What reading writes

`Reads` has one rule for each template of `read`. A rule names the category that selects it by what
the memo says about the spelling, the numbers of the temporaries it takes, and the code; the parts
of an array or a tuple are further uses of the rules. `read_reads` says that a read that succeeds
has written code by these rules, over the memo it hands on.

So a statement about every code that `read` writes is an induction over `Reads`, with one case for
each template, and neither the nesting limit nor the state of the writer occurs in it. The rules are
stated over a *later* memo than the one the question was put to, which is harmless because the memo
takes nothing back (`Reads.mono`), and necessary because the parts are classified one after the
other.
-/

set_option autoImplicit false

namespace LuaGlue

/-! ## The templates -/

/-- The line that reads a value of a category that takes one line. -/
def readLine? (ctx : Context) (mode : ReadMode) (spelling : String) (place : Place)
    (index : StackIndex) : Category → Option Line
  | .bool => some (.assign place (.call (Api.toboolean.on [.at index])))
  | .integer _ | .enum _ => some (assignCast mode.integerApi (valueType spelling) place index)
  | .float _ => some (assignCast mode.numberApi (valueType spelling) place index)
  | .cstring => some (assignCast mode.stringApi (valueType spelling) place index)
  | .structPointer name shape _ =>
    some (if mode == .checked && shape != .tuple then
        .assign place
          (.cast (valueType spelling) (.call (Support.topointer.on
            [.at index, .literal (ctx.metatable name)])))
      else assignCast .touserdata (valueType spelling) place index)
  | .handle isConst | .pointer _ isConst =>
    some (readPointer isConst (valueType spelling) place index)
  | .callback .. => some (.placeholder ("read function pointer '" ++ spelling ++ "'"))
  | .unknown => some (.placeholder ("read unknown type '" ++ spelling ++ "'"))
  | .void | .structValue .. | .fixedArray .. => none

/-- The code that goes through a value that must be a table. -/
def tableCode (mode : ReadMode) (table : String) (index : StackIndex) (inside : Code) : Code :=
  .blockOf .bare (.line (.declare (.plain "int" table) (.call (Api.absindex.on [.at index])))
    (match mode with
      | .checked => .line (.call (Api.checktype.on [.at (.held table), .text "LUA_TTABLE"])) inside
      | .lenient => .branchOf (.holds (Api.isTable.on [.at (.held table)])) inside))

/-- The loop over the elements of an array: each is read by `inside` unless its entry is `nil`. -/
def elementsCode (table k : String) (size : Nat) (inside : Code) : Code :=
  .blockOf (.count "int" k (toString size))
    (.line (.call (Api.rawgeti.on [.at (.held table), .succ k]))
      (.branch (.fails (Api.isNil.on [.at .top])) inside .done (.line popOne .done)))

/-- The code for a member of a tuple: `inside` reads the member off the top. -/
def memberCode (table : String) (position : Nat) (inside : Code) : Code :=
  .line (.call (Api.rawgeti.on [.at (.held table), .number (position + 1)]))
    (inside ++ .line popOne .done)

/-- The byte range a struct without a converter is. -/
def foreignRange? (ctx : Context) (name : String) (shape : Shape) : Option ByteRange :=
  if shape == .byteRange then ctx.byteRange? name else none

/-- The bytes of a string are taken as they are, and anything else is taken as a userdata. -/
def rangeCode (ctx : Context) (name : String) (range : ByteRange) (place : Place)
    (index : StackIndex) (mode : ReadMode) (pointer length : String) : Code :=
  .blockOf .bare (.branchOf (.isString index)
    (Code.ofLines
      [.declare (.plain "size_t" length) (.text "0"),
       .assign (.memberOf place range.pointer)
        (.call (Api.tolstring.on [.at index, .address length])),
       .assign (.memberOf place range.size) (.value (.name length))])
    (Code.ofLines (copyUserdata ctx name place index mode pointer)))

/-! ## The rules -/

/-- What is to be read: a value, the tuple that a value is, or the rest of a tuple's members. -/
inductive ReadJob where
  | value (mode : ReadMode) (spelling : String) (place : Place) (index : StackIndex)
  | tuple (mode : ReadMode) (name : String) (place : Place) (index : StackIndex)
  | members (table : String) (place : Place) (position : Nat) (rest : List TupleMember)

/-- The position a job reads from. -/
def ReadJob.index : ReadJob → StackIndex
  | .value _ _ _ index | .tuple _ _ _ index => index
  | .members table _ _ _ => .held table

/-- `Reads ctx m job n code n'`: over the memo `m`, the job is done by `code`, which takes the
temporaries from number `n` to below `n'`. -/
inductive Reads (ctx : Context) (m : Memo) : ReadJob → Nat → Code → Nat → Prop where
  | oneLine {mode spelling place index c l n} (hc : m.find? spelling = some c)
      (hl : readLine? ctx mode spelling place index c = some l) :
      Reads ctx m (.value mode spelling place index) n (.line l .done) n
  | bound {mode spelling place index name shape n}
      (hc : m.find? spelling = some (.structValue name shape)) (hs : shape ≠ .tuple)
      (hb : ctx.isBound name = true) :
      Reads ctx m (.value mode spelling place index) n
        (.line (readBound ctx name place index mode) .done) n
  | foreign {mode spelling place index name shape n}
      (hc : m.find? spelling = some (.structValue name shape)) (hs : shape ≠ .tuple)
      (hb : ctx.isBound name = false) (hr : foreignRange? ctx name shape = none) :
      Reads ctx m (.value mode spelling place index) n
        (.blockOf .bare (.ofLines (copyUserdata ctx name place index mode (temporary n)))) (n + 1)
  | foreignRange {mode spelling place index name shape range n}
      (hc : m.find? spelling = some (.structValue name shape)) (hs : shape ≠ .tuple)
      (hb : ctx.isBound name = false) (hr : foreignRange? ctx name shape = some range) :
      Reads ctx m (.value mode spelling place index) n
        (rangeCode ctx name range place index mode (temporary n) (temporary (n + 1))) (n + 2)
  | array {mode spelling place index c size elem n code n'}
      (hc : m.find? spelling = some (.fixedArray c size)) (he : elementType? spelling = some elem)
      (inside : Reads ctx m (.value .lenient elem (.element place (temporary (n + 1))) .top) (n + 2)
        code n') :
      Reads ctx m (.value mode spelling place index) n
        (tableCode mode (temporary n) index
          (elementsCode (temporary n) (temporary (n + 1)) size code)) n'
  | tupleValue {mode spelling place index name n code n'}
      (hc : m.find? spelling = some (.structValue name .tuple))
      (inside : Reads ctx m (.tuple mode name place index) n code n') :
      Reads ctx m (.value mode spelling place index) n code n'
  | tuple {mode name place index members n code n'} (hm : ctx.tupleMembers name = .ok members)
      (inside : Reads ctx m (.members (temporary n) place 0 members) (n + 1) code n') :
      Reads ctx m (.tuple mode name place index) n (tableCode mode (temporary n) index code) n'
  | nil {table place position n} : Reads ctx m (.members table place position []) n .done n
  | cons {table place position member rest n code n' code' n''}
      (head : Reads ctx m (.value .lenient member.type (.memberOf place member.field) .top) n code n')
      (tail : Reads ctx m (.members table place (position + 1) rest) n' code' n'') :
      Reads ctx m (.members table place position (member :: rest)) n
        (memberCode table position code ++ code') n''

/-- Code written by the rules over one memo is written by them over every later one. -/
theorem Reads.mono {ctx : Context} {m m' : Memo} {job : ReadJob} {n n' : Nat} {code : Code}
    (h : Reads ctx m job n code n') (hm : m.Grows m') : Reads ctx m' job n code n' := by
  induction h with
  | oneLine hc hl => exact .oneLine (hm _ _ hc) hl
  | bound hc hs hb => exact .bound (hm _ _ hc) hs hb
  | foreign hc hs hb hr => exact .foreign (hm _ _ hc) hs hb hr
  | foreignRange hc hs hb hr => exact .foreignRange (hm _ _ hc) hs hb hr
  | array hc he _ ih => exact .array (hm _ _ hc) he ih
  | tupleValue hc _ ih => exact .tupleValue (hm _ _ hc) ih
  | tuple hmem _ ih => exact .tuple hmem ih
  | nil => exact .nil
  | cons _ _ ih ih' => exact .cons ih ih'

/-! ## What reading keeps -/

section

variable {ctx : Context} {K : Memo → Prop}

theorem readTable_keeps {mode : ReadMode} {table : String} {index : StackIndex} {inside : Draft Unit}
    (h : inside.Keeps K) : (readTable mode table index inside).Keeps K := by
  unfold readTable
  refine Draft.Keeps.block _ ((Draft.Keeps.line _).bind fun _ => ?_)
  cases mode with
  | checked => exact (Draft.Keeps.line _).bind fun _ => h
  | lenient => exact h.branch _ .done

theorem readStruct_keeps (name : String) (shape : Shape) (place : Place) (index : StackIndex)
    (mode : ReadMode) : (readStruct ctx name shape place index mode).Keeps K := by
  unfold readStruct readForeign
  split
  · exact Draft.Keeps.line _
  · refine Draft.Keeps.temp.bind fun pointer => ?_
    split
    · exact (Draft.Keeps.lines _).block .bare
    · exact Draft.Keeps.temp.bind fun length => ((Draft.Keeps.lines _).branch _ _).block .bare

theorem readMembers_keeps {read : String → Place → Draft Unit}
    (hr : ∀ spelling place, (read spelling place).Keeps K) (table : String) (place : Place) :
    ∀ (members : List TupleMember) (position : Nat),
      (readMembers read table place position members).Keeps K := by
  intro members
  induction members with
  | nil => intro _; exact Draft.Keeps.pure ()
  | cons member rest ih =>
    intro position
    exact (Draft.Keeps.line _).bind fun _ => (hr _ _).bind fun _ =>
      (Draft.Keeps.line _).bind fun _ => ih _

variable (hK : ∀ spelling m, K m → K ((ctx.classify spelling).run m).2)

include hK

theorem readWith_keeps {tuple : ReadMode → String → Place → StackIndex → Draft Unit}
    (ht : ∀ mode name place index, (tuple mode name place index).Keeps K) :
    ∀ (rank : Nat) (mode : ReadMode) (spelling : String) (place : Place) (index : StackIndex),
      (readWith ctx tuple rank mode spelling place index).Keeps K := by
  intro rank
  induction rank using Nat.strongRecOn with
  | _ rank ih =>
    intro mode spelling place index
    unfold readWith
    refine (Context.categoryOf_keeps hK spelling).bind fun c => ?_
    cases c with
    | void => exact Draft.Keeps.fail _
    | structValue name shape =>
      cases shape with
      | tuple => exact ht mode name place index
      | userdata | byteRange => exact readStruct_keeps name _ place index mode
    | fixedArray elem size =>
      cases rank with
      | zero => exact Draft.Keeps.fail _
      | succ rank =>
        cases elementType? spelling with
        | none => exact Draft.Keeps.fail _
        | some elem =>
          refine Draft.Keeps.temp.bind fun table => Draft.Keeps.temp.bind fun k =>
            readTable_keeps ?_
          refine Draft.Keeps.block _ ((Draft.Keeps.line _).bind fun _ => ?_)
          exact ((ih rank (Nat.lt_succ_self rank) _ _ _ _).branch _ .done).bind fun _ =>
            Draft.Keeps.line _
    | _ => exact Draft.Keeps.line _

theorem readTuple_keeps :
    ∀ (levels : Nat) (mode : ReadMode) (name : String) (place : Place) (index : StackIndex),
      (readTuple ctx levels mode name place index).Keeps K := by
  intro levels
  induction levels with
  | zero => intro _ _ _ _; exact Draft.Keeps.fail _
  | succ levels ih =>
    intro mode name place index
    refine (Draft.Keeps.ofExcept _).bind fun members => Draft.Keeps.temp.bind fun table =>
      readTable_keeps ?_
    exact readMembers_keeps (fun spelling member => readWith_keeps hK ih _ _ _ _ _) table place
      members 0

/-- **What every question keeps of the memo is kept by reading.** -/
theorem read_keeps (mode : ReadMode) (spelling : String) (place : Place) (index : StackIndex) :
    (read ctx mode spelling place index).Keeps K :=
  readWith_keeps hK (readTuple_keeps hK maxNesting) _ mode spelling place index

end

/-! Answers first of all. -/

theorem readStruct_grows (ctx : Context) (name : String) (shape : Shape) (place : Place)
    (index : StackIndex) (mode : ReadMode) :
    (readStruct ctx name shape place index mode).Grows :=
  Draft.Grows.of_keeps fun _ => readStruct_keeps name shape place index mode

theorem readWith_grows {ctx : Context} {tuple : ReadMode → String → Place → StackIndex → Draft Unit}
    (ht : ∀ mode name place index, (tuple mode name place index).Grows) (rank : Nat) (mode : ReadMode)
    (spelling : String) (place : Place) (index : StackIndex) :
    (readWith ctx tuple rank mode spelling place index).Grows :=
  Draft.Grows.of_keeps fun known =>
    readWith_keeps (ctx.classify_keeps_grows known)
      (fun mode name place index => (ht mode name place index).keeps known) rank mode spelling place index

theorem readMembers_grows {read : String → Place → Draft Unit}
    (hr : ∀ spelling place, (read spelling place).Grows) (table : String) (place : Place)
    (members : List TupleMember) (position : Nat) :
    (readMembers read table place position members).Grows :=
  Draft.Grows.of_keeps fun known =>
    readMembers_keeps (fun spelling place => (hr spelling place).keeps known) table place members position

theorem readTuple_grows (ctx : Context) (levels : Nat) (mode : ReadMode) (name : String) (place : Place)
    (index : StackIndex) : (readTuple ctx levels mode name place index).Grows :=
  Draft.Grows.of_keeps fun known =>
    readTuple_keeps (ctx.classify_keeps_grows known) levels mode name place index

theorem read_grows (ctx : Context) (mode : ReadMode) (spelling : String) (place : Place)
    (index : StackIndex) : (read ctx mode spelling place index).Grows :=
  readWith_grows (readTuple_grows ctx maxNesting) _ mode spelling place index

/-! ## Reading writes by the rules -/

theorem readTable_written {mode : ReadMode} {table : String} {index : StackIndex}
    {inside : Draft Unit} {u : Unit} {s s' : Scratch} {code : Code}
    (h : readTable mode table index inside s = (.written u code, s')) :
    ∃ c, inside s = (.written u c, s') ∧ code = tableCode mode table index c := by
  obtain ⟨body, hbody, rfl⟩ := Draft.block_written.mp h
  obtain ⟨_, _, _, c₂, h₁, h₂, rfl⟩ := Draft.bind_written.mp hbody
  obtain ⟨rfl, rfl⟩ := Draft.line_written.mp h₁
  cases mode with
  | checked =>
    obtain ⟨_, _, _, c, h₃, hi, rfl⟩ := Draft.bind_written.mp h₂
    obtain ⟨rfl, rfl⟩ := Draft.line_written.mp h₃
    exact ⟨c, hi, rfl⟩
  | lenient =>
    obtain ⟨c, hi, rfl⟩ := Draft.branch_written.mp h₂
    exact ⟨c, hi, rfl⟩

theorem readStruct_reads {ctx : Context} {mode : ReadMode} {spelling name : String} {shape : Shape}
    {place : Place} {index : StackIndex} {s s' : Scratch} {u : Unit} {code : Code}
    (hc : s.memo.find? spelling = some (.structValue name shape)) (hs : shape ≠ .tuple)
    (h : readStruct ctx name shape place index mode s = (.written u code, s')) :
    Reads ctx s'.memo (.value mode spelling place index) s.temporaries code s'.temporaries := by
  unfold readStruct at h
  by_cases hb : ctx.isBound name = true
  · rw [if_pos hb] at h
    obtain ⟨rfl, rfl⟩ := Draft.line_written.mp h
    exact .bound hc hs hb
  · rw [if_neg hb] at h
    have hb : ctx.isBound name = false := by simpa using hb
    unfold readForeign at h
    have hrest := Draft.temp_bind_written.mp h
    have hrange : (if shape == .byteRange then ctx.byteRange? name else none) =
      foreignRange? ctx name shape := rfl
    rw [hrange] at hrest
    cases hr : foreignRange? ctx name shape with
    | none =>
      rw [hr] at hrest
      obtain ⟨body, hbody, rfl⟩ := Draft.block_written.mp hrest
      obtain ⟨rfl, rfl⟩ := Draft.lines_written.mp hbody
      exact .foreign hc hs hb hr
    | some range =>
      rw [hr] at hrest
      have hblock := Draft.temp_bind_written.mp hrest
      obtain ⟨body, hbody, rfl⟩ := Draft.block_written.mp hblock
      obtain ⟨yes, hyes, rfl⟩ := Draft.branch_written.mp hbody
      obtain ⟨rfl, rfl⟩ := Draft.lines_written.mp hyes
      exact .foreignRange hc hs hb hr

/-- The recursion over the dimensions of a spelling. What it needs to know about tuples is what
`readTuple_reads` says about them. -/
theorem readWith_reads {ctx : Context}
    {tuple : ReadMode → String → Place → StackIndex → Draft Unit}
    (hg : ∀ mode name place index, (tuple mode name place index).Grows)
    (ht : ∀ {mode name place index s u code s'},
      tuple mode name place index s = (.written u code, s') →
      Reads ctx s'.memo (.tuple mode name place index) s.temporaries code s'.temporaries) :
    ∀ {rank : Nat} {mode : ReadMode} {spelling : String} {place : Place} {index : StackIndex}
      {s : Scratch} {u : Unit} {code : Code} {s' : Scratch},
      readWith ctx tuple rank mode spelling place index s = (.written u code, s') →
      Reads ctx s'.memo (.value mode spelling place index) s.temporaries code s'.temporaries := by
  intro rank
  induction rank using Nat.strongRecOn with
  | _ rank ih =>
    intro mode spelling place index s u code s' h
    unfold readWith at h
    obtain ⟨c, _, s₁, c₂, hcat, htemplate, rfl⟩ := Draft.bind_written.mp h
    obtain ⟨rfl, hn, hc⟩ := Context.categoryOf_written hcat
    clear h
    rw [Code.done_append, ← hn]
    -- a category of one line has that line and no more
    have oneLine {l : Line} (hl : readLine? ctx mode spelling place index c = some l)
        (h : Draft.line l s₁ = (.written u c₂, s')) :
        Reads ctx s'.memo (.value mode spelling place index) s₁.temporaries c₂ s'.temporaries := by
      obtain ⟨rfl, rfl⟩ := Draft.line_written.mp h
      exact .oneLine hc hl
    cases c with
    | void => exact absurd htemplate Draft.fail_written
    | structValue name shape =>
      cases shape with
      | tuple => exact .tupleValue ((hg _ _ _ _).of_written htemplate _ _ hc) (ht htemplate)
      | userdata => exact readStruct_reads hc (by simp) htemplate
      | byteRange => exact readStruct_reads hc (by simp) htemplate
    | fixedArray elem size =>
      cases rank with
      | zero => exact absurd htemplate Draft.fail_written
      | succ rank =>
        cases he : elementType? spelling with
        | none =>
          rw [he] at htemplate
          exact absurd htemplate Draft.fail_written
        | some elem =>
          rw [he] at htemplate
          have hrest := Draft.temp_bind_written.mp htemplate
          have htable := Draft.temp_bind_written.mp hrest
          obtain ⟨_, hloop, rfl⟩ := readTable_written htable
          obtain ⟨_, hbody, rfl⟩ := Draft.block_written.mp hloop
          obtain ⟨_, hread, rfl⟩ := Draft.line_bind_written.mp hbody
          obtain ⟨_, _, s₂, _, hbr, hpop, rfl⟩ := Draft.bind_written.mp hread
          obtain ⟨inside, hin, rfl⟩ := Draft.branch_written.mp hbr
          obtain ⟨rfl, rfl⟩ := Draft.line_written.mp hpop
          have hc' : s'.memo.find? spelling = some (.fixedArray _ size) :=
            (readWith_grows hg _ _ _ _ _).of_written hin _ _ hc
          exact .array hc' he (ih rank (Nat.lt_succ_self rank) hin)
    | _ => exact oneLine rfl htemplate

theorem readMembers_reads {ctx : Context} {read : String → Place → Draft Unit}
    (hg : ∀ spelling place, (read spelling place).Grows)
    (hr : ∀ {spelling place s u code s'}, read spelling place s = (.written u code, s') →
      Reads ctx s'.memo (.value .lenient spelling place .top) s.temporaries code s'.temporaries)
    {table : String} {place : Place} :
    ∀ {members : List TupleMember} {position : Nat} {s : Scratch} {u : Unit} {code : Code}
      {s' : Scratch}, readMembers read table place position members s = (.written u code, s') →
      Reads ctx s'.memo (.members table place position members) s.temporaries code
        s'.temporaries := by
  intro members
  induction members with
  | nil =>
    intro position s u code s' h
    obtain ⟨-, rfl, rfl⟩ := Draft.pure_written.mp h
    exact .nil
  | cons member rest ih =>
    intro position s u code s' h
    obtain ⟨_, hrest, rfl⟩ := Draft.line_bind_written.mp h
    obtain ⟨_, inside, _, _, hin, hpops, rfl⟩ := Draft.bind_written.mp hrest
    obtain ⟨_, htail, rfl⟩ := Draft.line_bind_written.mp hpops
    -- the head was written over a memo that the tail has only added to
    have head := (hr hin).mono ((readMembers_grows hg table place rest _).of_written htail)
    have both : Reads ctx s'.memo (.members table place position (member :: rest)) _ _ _ :=
      .cons head (ih htail)
    simpa only [memberCode, Code.line_append, Code.done_append, Code.append_assoc] using both

theorem readTuple_reads {ctx : Context} :
    ∀ {levels : Nat} {mode : ReadMode} {name : String} {place : Place} {index : StackIndex}
      {s : Scratch} {u : Unit} {code : Code} {s' : Scratch},
      readTuple ctx levels mode name place index s = (.written u code, s') →
      Reads ctx s'.memo (.tuple mode name place index) s.temporaries code s'.temporaries := by
  intro levels
  induction levels with
  | zero => intro _ _ _ _ _ _ _ _ h; exact absurd h Draft.fail_written
  | succ levels ih =>
    intro mode name place index s u code s' h
    obtain ⟨members, _, _, _, hask, hrest, rfl⟩ := Draft.bind_written.mp h
    obtain ⟨hm, rfl, rfl⟩ := Draft.ofExcept_written.mp hask
    have htable := Draft.temp_bind_written.mp hrest
    obtain ⟨inside, hin, rfl⟩ := readTable_written htable
    exact .tuple hm (readMembers_reads
      (fun _ _ => readWith_grows (readTuple_grows ctx levels) _ _ _ _ _)
      (fun h => readWith_reads (readTuple_grows ctx levels) ih h) hin)

/-- **A read that succeeds has written code by the rules.** -/
theorem read_reads {ctx : Context} {mode : ReadMode} {spelling : String} {place : Place}
    {index : StackIndex} {s s' : Scratch} {u : Unit} {code : Code}
    (h : read ctx mode spelling place index s = (.written u code, s')) :
    Reads ctx s'.memo (.value mode spelling place index) s.temporaries code s'.temporaries :=
  readWith_reads (readTuple_grows ctx maxNesting) readTuple_reads h

end LuaGlue
