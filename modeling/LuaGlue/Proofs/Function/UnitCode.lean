import LuaGlue.Function.Wrapper
import LuaGlue.Proofs.Marshal.ReadCode

/-!
# What reading an argument writes

`UnitReads` has one rule for each way to read a unit of parameters from its slot, over the memo, with
the code and with what the unit contributes to the wrapper. Where a unit's value is read, the code
comes from the rules of `Reads`. `readUnit_reads` says that a unit that is read without a fault has
been read by these rules.
-/

set_option autoImplicit false

namespace LuaGlue

/-! ## The templates -/

/-- The local of an output. -/
def Param.valueName (p : Param) : String := p.localName ++ "_val"

/-- An output: `inside` reads what the script passed into a zeroed local. -/
def outputCode (ctx : Context) (p : Param) (pointee : String) (zero : Category) (slot : Nat)
    (inside : Code) : Code :=
  .line (.declare (localOf pointee p.valueName) (.text (ctx.zeroInit zero)))
    (if p.hasDefault then
      .line (.declare (localOf p.type p.localName) (.text ctx.null))
        (.branchOf (present slot) (.line (.assign (.name p.localName) (.address p.valueName)) inside))
    else
      .line (.declare (localOf p.type p.localName) (.address p.valueName))
        (.branchOf (present slot) inside))

/-- The output value itself. -/
def outputOf (p : Param) (pointee : String) : OutputValue where
  param := p.name
  type := pointee
  place := if p.hasDefault then .target (.name p.localName) else .name p.valueName
  guard := if p.hasDefault then some p.localName else none

/-- The lines that set a buffer up: it is allocated, goes into the keep table and is cleared. -/
def bufferLines (type : String) (slot : Nat) (n buffer : String) : List Line :=
  let bytes := "(" ++ n ++ " > 0 ? " ++ n ++ " : 1) * sizeof(" ++ type ++ ")"
  [.declare (.plain "size_t" n) (.call (Api.rawlen.on [.at (.slot slot)])),
   .declare (.plain (type ++ "*") buffer)
    (.cast (type ++ "*") (.call (Api.newuserdata.on [.text bytes, .number 0]))),
   .call (Support.keep.on [.value (.name keepLocal)]),
   .call ⟨.libc "memset", [.value (.name buffer), .number 0, .text bytes]⟩]

/-- The lines after the loop over a buffer's elements. -/
def bufferResults (n buffer target : String) (count : Option CountTarget) : List Line :=
  .assign (.name target) (.value (.name buffer)) ::
    (match count with
      | some c => [.assign (.name c.name) (.cast c.type (.value (.name n)))]
      | none => [])

/-- A table copied into a buffer, each element read by `inside`. -/
def bufferCode (elem : String) (slot : Nat) (n buffer k target : String)
    (count : Option CountTarget) (inside : Code) : Code :=
  .ofLines (bufferLines (valueType elem) slot n buffer) ++
    .block (.count "size_t" k n)
      (.line (.call (Api.rawgeti.on [.at (.slot slot), .succ ("(lua_Integer)" ++ k)]))
        (inside ++ .line popOne .done)) .brace
      (.ofLines (bufferResults n buffer target count))

/-- A pointer to scalar constants: a table goes through `buffer`, a string or a light userdata is
passed on. -/
def constPointerCode (ctx : Context) (p : Param) (slot : Nat) (buffer : Code) : Code :=
  .line (.declare (localOf p.type p.localName) (.text ctx.null))
    (.branchOf (.holds (Api.isTable.on [.at (.slot slot)])) buffer
      (.branchOf (.isString (.slot slot))
        (.line (assignCast .tostring (valueType p.type) (.name p.localName) (.slot slot)) .done)
        (.line (assignCast .touserdata (valueType p.type) (.name p.localName) (.slot slot)) .done)))

/-- A pointer to a constant struct, which `inside` reads unless it is a light userdata. -/
def constStructCode (ctx : Context) (p : Param) (pointee : String) (zero : Category) (slot : Nat)
    (inside : Code) : Code :=
  .line (.declare ⟨declare pointee p.valueName, p.valueName⟩ (.text (ctx.zeroInit zero)))
    (.line (.declare (localOf p.type p.localName) (.text ctx.null))
      (.branchOf (.holds (Api.isLightuserdata.on [.at (.slot slot)]))
        (.line (assignCast .touserdata (valueType p.type) (.name p.localName) (.slot slot)) .done)
        (.branchOf (present slot)
          (inside ++ .line (.assign (.name p.localName) (.address p.valueName)) .done))))

/-- A gap for a parameter that cannot cross the boundary. -/
def gapLines (ctx : Context) (p : Param) (category : Category) : List Line :=
  [.placeholder ("parameter '" ++ p.name ++ "' of type '" ++ p.type ++ "'"),
   .declare (localOf p.type p.localName) (.text (ctx.zeroInit category))]

/-- Code that is run only if the slot holds a value, if the argument is optional. -/
def guardedCode (optional : Bool) (slot : Nat) (inside : Code) : Code :=
  if optional then .branchOf (present slot) inside else inside

/-- An array with its count. -/
def arrayCountCode (ctx : Context) (array count : Param) (slot : Nat) (buffer : Code) : Code :=
  let copy := .line (.call (Api.checktype.on [.at (.slot slot), .text "LUA_TTABLE"])) buffer
  .line (.declare (localOf array.type array.localName) (.text ctx.null))
    (.line (.declare (.plain (valueType count.type) count.localName) (.text "0"))
      (if array.hasDefault then .branchOf (present slot) copy else .blockOf .bare copy))

/-! ## The rules -/

/-- A table copied into a buffer, over the memo: the code and the temporaries it takes. -/
inductive BufferReads (ctx : Context) (m : Memo) (elem : String) (slot : Nat) (target : String)
    (count : Option CountTarget) : Nat → Code → Nat → Prop where
  | elements {n code n'}
      (inside : Reads ctx m (.value .lenient elem
        (.element (.name (temporary (n + 1))) (temporary (n + 2))) .top) (n + 3) code n') :
      BufferReads ctx m elem slot target count n
        (bufferCode elem slot (temporary n) (temporary (n + 1)) (temporary (n + 2)) target count code)
        n'

/-- Whether a parameter's category has a template of its own, so that the parameter is not read into
its local as it is. -/
def Category.isReadSpecially : Category → Bool
  | .pointer _ true | .structPointer _ _ true | .callback .. | .unknown => true
  | _ => false

/-- `UnitReads ctx m slot u n code n' r`: over the memo `m`, the unit is read from its slot by `code`
and contributes `r`. -/
inductive UnitReads (ctx : Context) (m : Memo) (slot : Nat) :
    ParamUnit → Nat → Code → Nat → UnitCode → Prop where
  | output {p category pointee zero n code n'} (hp : pointeeType? p.type = some pointee)
      (hz : m.find? pointee = some zero)
      (inside : Reads ctx m (.value .lenient pointee (.name p.valueName) (.slot slot)) n code n') :
      UnitReads ctx m slot (.single p category true) n (outputCode ctx p pointee zero slot code) n'
        ⟨⟨p.name, luaType ctx zero, true⟩, [p.localName], some (outputOf p pointee)⟩
  | constPointer {p pointee elem c n code n'} (hp : pointeeType? p.type = some elem)
      (hc : m.find? elem = some c)
      (inside : BufferReads ctx m elem slot p.localName none n code n') :
      UnitReads ctx m slot (.single p (.pointer pointee true) false) n
        (constPointerCode ctx p slot code) n'
        ⟨⟨p.name, luaType ctx c ++ "[]|lightuserdata", p.hasDefault⟩, [p.localName], none⟩
  | constStruct {p name shape pointee zero n code n'}
      (hp : (pointeeType? p.type).map valueType = some pointee) (hz : m.find? pointee = some zero)
      (inside : Reads ctx m (.value .checked pointee (.name p.valueName) (.slot slot)) n code n') :
      UnitReads ctx m slot (.single p (.structPointer name shape true) false) n
        (constStructCode ctx p pointee zero slot code) n'
        ⟨⟨p.name, luaType ctx (.structPointer name shape true), true⟩, [p.localName], none⟩
  | gap {p category n} (hc : category.isCallback = true ∨ category.isUnknown = true) :
      UnitReads ctx m slot (.single p category false) n (.ofLines (gapLines ctx p category)) n
        ⟨⟨p.name, luaType ctx category, p.hasDefault⟩, [p.localName], none⟩
  | plain {p category n code n'} (hc : category.isReadSpecially = false)
      (inside : Reads ctx m (.value .checked p.type (.name p.localName) (.slot slot)) n code n') :
      UnitReads ctx m slot (.single p category false) n
        (.line (.declare (localOf p.type p.localName) (.text (ctx.zeroInit category)))
          (guardedCode p.hasDefault slot code)) n'
        ⟨⟨p.name, luaType ctx category, p.hasDefault⟩, [p.localName], none⟩
  | arrayCount {array count elem c n code n'} (hc : m.find? elem = some c)
      (inside : BufferReads ctx m elem slot array.localName
        (some ⟨count.localName, valueType count.type⟩) n code n') :
      UnitReads ctx m slot (.arrayCount array count elem) n
        (arrayCountCode ctx array count slot code) n'
        ⟨⟨array.name, luaType ctx c ++ "[]", array.hasDefault⟩,
          [array.localName, count.localName], none⟩
  | fixedArray {p elem size writable c n code n'} (hc : m.find? elem = some c)
      (inside : Reads ctx m (.value .checked (arraySpelling elem size) (.name p.localName)
        (.slot slot)) n code n') :
      UnitReads ctx m slot (.fixedArray p elem size writable) n
        (.line (.declare ⟨declare (arraySpelling elem size) p.localName, p.localName⟩
            (.text ctx.emptyBraces)) (guardedCode p.hasDefault slot code)) n'
        ⟨⟨p.name, luaType ctx c ++ "[]", p.hasDefault⟩, [p.localName],
          if writable then some ⟨p.name, arraySpelling elem size, .name p.localName, none⟩ else none⟩

theorem BufferReads.mono {ctx : Context} {m m' : Memo} {elem : String} {slot : Nat}
    {target : String} {count : Option CountTarget} {n n' : Nat} {code : Code}
    (h : BufferReads ctx m elem slot target count n code n') (hm : m.Grows m') :
    BufferReads ctx m' elem slot target count n code n' := by
  cases h with
  | elements inside => exact .elements (inside.mono hm)

theorem UnitReads.mono {ctx : Context} {m m' : Memo} {slot : Nat} {u : ParamUnit} {n n' : Nat}
    {code : Code} {r : UnitCode} (h : UnitReads ctx m slot u n code n' r) (hm : m.Grows m') :
    UnitReads ctx m' slot u n code n' r := by
  cases h with
  | output hp hz inside => exact .output hp (hm _ _ hz) (inside.mono hm)
  | constPointer hp hc inside => exact .constPointer hp (hm _ _ hc) (inside.mono hm)
  | constStruct hp hz inside => exact .constStruct hp (hm _ _ hz) (inside.mono hm)
  | gap hc => exact .gap hc
  | plain hc inside => exact .plain hc (inside.mono hm)
  | arrayCount hc inside => exact .arrayCount (hm _ _ hc) (inside.mono hm)
  | fixedArray hc inside => exact .fixedArray (hm _ _ hc) (inside.mono hm)

/-! ## Reading a unit takes nothing back -/

theorem readBuffer_grows (ctx : Context) (elem : String) (slot : Nat) (target : String)
    (count : Option CountTarget) : (readBuffer ctx elem slot target count).Grows := by
  unfold readBuffer
  refine Draft.Grows.temp.bind fun n => Draft.Grows.temp.bind fun buffer =>
    Draft.Grows.temp.bind fun k => (Draft.Grows.lines _).bind fun _ => ?_
  refine Draft.Grows.bind (Draft.Grows.block _ ?_) fun _ => (Draft.Grows.line _).bind fun _ => ?_
  · exact (Draft.Grows.line _).bind fun _ => (read_grows _ _ _ _ _).bind fun _ => Draft.Grows.line _
  · cases count with
    | none => exact Draft.Grows.pure ()
    | some c => exact Draft.Grows.line _

theorem readOutput_grows (ctx : Context) (p : Param) (slot : Nat) : (readOutput ctx p slot).Grows := by
  unfold readOutput
  dsimp only
  cases pointeeType? p.type with
  | none => exact Draft.Grows.fail _
  | some pointee =>
    refine (ctx.categoryOf_grows pointee).bind fun category => (Draft.Grows.line _).bind fun _ => ?_
    split
    · refine (Draft.Grows.line _).bind fun _ => Draft.Grows.bind ?_ fun _ => Draft.Grows.pure _
      exact ((Draft.Grows.line _).bind fun _ => read_grows _ _ _ _ _).branch _ _
    · exact (Draft.Grows.line _).bind fun _ =>
        ((read_grows _ _ _ _ _).branch _ _).bind fun _ => Draft.Grows.pure _

theorem readConstPointer_grows (ctx : Context) (p : Param) (slot : Nat) :
    (readConstPointer ctx p slot).Grows := by
  unfold readConstPointer
  dsimp only
  cases pointeeType? p.type with
  | none => exact Draft.Grows.fail _
  | some elem =>
    exact (Draft.Grows.line _).bind fun _ => ((readBuffer_grows _ _ _ _ _).branch _ _).bind fun _ =>
      (ctx.categoryOf_grows elem).bind fun _ => Draft.Grows.pure _

theorem readConstStruct_grows (ctx : Context) (p : Param) (category : Category) (slot : Nat) :
    (readConstStruct ctx p category slot).Grows := by
  unfold readConstStruct
  dsimp only
  cases (pointeeType? p.type).map valueType with
  | none => exact Draft.Grows.fail _
  | some pointee =>
    refine (ctx.categoryOf_grows pointee).bind fun _ => (Draft.Grows.lines _).bind fun _ =>
      Draft.Grows.bind (Draft.Grows.orElseIf _ _ _ ?_) fun _ => Draft.Grows.pure _
    exact (read_grows _ _ _ _ _).bind fun _ => Draft.Grows.line _

theorem readSingle_grows (ctx : Context) (p : Param) (category : Category) (output : Bool)
    (slot : Nat) : (readSingle ctx p category output slot).Grows := by
  unfold readSingle
  dsimp only
  split
  · exact readOutput_grows ctx p slot
  · split
    · exact (readConstPointer_grows ctx p slot).bind fun _ => Draft.Grows.pure _
    · exact (readConstStruct_grows ctx p _ slot).bind fun _ => Draft.Grows.pure _
    iterate 2 exact (Draft.Grows.lines _).bind fun _ => Draft.Grows.pure _
    · exact (Draft.Grows.line _).bind fun _ =>
        ((read_grows _ _ _ _ _).branchWhen _ _).bind fun _ => Draft.Grows.pure _

theorem readArrayCount_grows (ctx : Context) (array count : Param) (elem : String) (slot : Nat) :
    (readArrayCount ctx array count elem slot).Grows := by
  unfold readArrayCount
  dsimp only
  refine (Draft.Grows.lines _).bind fun _ => ?_
  have copy := (Draft.Grows.line (.call (Api.checktype.on [.at (.slot slot), .text "LUA_TTABLE"]))).bind
    fun _ => readBuffer_grows ctx elem slot array.localName
      (some ⟨count.localName, valueType count.type⟩)
  have asked := fun a : Category → UnitCode =>
    (ctx.categoryOf_grows elem).bind fun c => Draft.Grows.pure (a c)
  split
  · exact (copy.branch _ _).bind fun _ => asked _
  · exact (copy.block _).bind fun _ => asked _

theorem readUnit_grows (ctx : Context) (slot : Nat) (u : ParamUnit) : (readUnit ctx slot u).Grows := by
  cases u with
  | single p category output => exact readSingle_grows ctx p category output slot
  | arrayCount array count elem => exact readArrayCount_grows ctx array count elem slot
  | fixedArray p elem size writable =>
    exact (Draft.Grows.line _).bind fun _ => ((read_grows _ _ _ _ _).branchWhen _ _).bind fun _ =>
      (ctx.categoryOf_grows elem).bind fun _ => Draft.Grows.pure _

/-! ## Units are read by the rules -/

section

variable {ctx : Context} {slot : Nat} {s s' : Scratch} {code : Code}

theorem readBuffer_reads {elem target : String} {count : Option CountTarget} {u : Unit}
    (h : readBuffer ctx elem slot target count s = (.written u code, s')) :
    BufferReads ctx s'.memo elem slot target count s.temporaries code s'.temporaries := by
  have h₁ := Draft.temp_bind_written.mp h
  have h₂ := Draft.temp_bind_written.mp h₁
  have h₃ := Draft.temp_bind_written.mp h₂
  obtain ⟨_, h₄, rfl⟩ := Draft.lines_bind_written.mp h₃
  obtain ⟨_, _, _, _, hloop, h₅, rfl⟩ := Draft.bind_written.mp h₄
  obtain ⟨_, hbody, rfl⟩ := Draft.block_written.mp hloop
  obtain ⟨_, h₆, rfl⟩ := Draft.line_bind_written.mp hbody
  obtain ⟨_, _, _, _, hread, hpop, rfl⟩ := Draft.bind_written.mp h₆
  obtain ⟨rfl, rfl⟩ := Draft.line_written.mp hpop
  obtain ⟨_, hcount, rfl⟩ := Draft.line_bind_written.mp h₅
  have inside := read_reads hread
  cases count with
  | none =>
    obtain ⟨-, rfl, rfl⟩ := Draft.pure_written.mp hcount
    exact .elements inside
  | some c =>
    obtain ⟨rfl, rfl⟩ := Draft.line_written.mp hcount
    exact .elements inside

theorem readOutput_reads {p : Param} {category : Category} {r : UnitCode}
    (h : readOutput ctx p slot s = (.written r code, s')) :
    UnitReads ctx s'.memo slot (.single p category true) s.temporaries code s'.temporaries r := by
  unfold readOutput at h
  dsimp only at h
  cases hp : pointeeType? p.type with
  | none => rw [hp] at h; exact absurd h Draft.fail_written
  | some pointee =>
    rw [hp] at h
    obtain ⟨zero, _, s₁, _, hask, h₁, rfl⟩ := Draft.bind_written.mp h
    obtain ⟨rfl, htemp, hz⟩ := Context.categoryOf_written hask
    obtain ⟨_, h₂, rfl⟩ := Draft.line_bind_written.mp h₁
    cases hdefault : p.hasDefault with
    | true =>
      rw [if_pos hdefault] at h₂
      obtain ⟨_, h₃, rfl⟩ := Draft.line_bind_written.mp h₂
      obtain ⟨_, _, _, _, hbranch, hreturn, rfl⟩ := Draft.bind_written.mp h₃
      obtain ⟨rfl, rfl, rfl⟩ := Draft.pure_written.mp hreturn
      obtain ⟨_, hbody, rfl⟩ := Draft.branch_written.mp hbranch
      obtain ⟨_, hread, rfl⟩ := Draft.line_bind_written.mp hbody
      have hz' := (read_grows ctx .lenient pointee _ _).of_written hread _ _ hz
      have : UnitReads ctx s'.memo slot (.single p category true) _ _ _ _ :=
        .output hp hz' (read_reads hread)
      simpa [outputCode, outputOf, Code.branchOf, hdefault, htemp, Param.valueName] using this
    | false =>
      rw [if_neg (by simp [hdefault])] at h₂
      obtain ⟨_, h₃, rfl⟩ := Draft.line_bind_written.mp h₂
      obtain ⟨_, _, _, _, hbranch, hreturn, rfl⟩ := Draft.bind_written.mp h₃
      obtain ⟨rfl, rfl, rfl⟩ := Draft.pure_written.mp hreturn
      obtain ⟨_, hread, rfl⟩ := Draft.branch_written.mp hbranch
      have hz' := (read_grows ctx .lenient pointee _ _).of_written hread _ _ hz
      have : UnitReads ctx s'.memo slot (.single p category true) _ _ _ _ :=
        .output hp hz' (read_reads hread)
      simpa [outputCode, outputOf, Code.branchOf, hdefault, htemp, Param.valueName] using this

/-- A category asked for at the end. -/
theorem askedLast {spelling : String} {c : Category} {code : Code}
    (h : ctx.categoryOf spelling s = (.written c code, s')) :
    code = .done ∧ s'.temporaries = s.temporaries ∧ s.memo.Grows s'.memo ∧
      s'.memo.find? spelling = some c := by
  obtain ⟨hcode, htemp, hc⟩ := Context.categoryOf_written h
  exact ⟨hcode, htemp, (ctx.categoryOf_grows spelling).of_written h, hc⟩

theorem readConstPointer_reads {p : Param} {pointee : Category} {arg : ScriptArg}
    (h : readConstPointer ctx p slot s = (.written arg code, s')) :
    UnitReads ctx s'.memo slot (.single p (.pointer pointee true) false) s.temporaries code
      s'.temporaries ⟨arg, [p.localName], none⟩ := by
  unfold readConstPointer at h
  dsimp only at h
  cases hp : pointeeType? p.type with
  | none => rw [hp] at h; exact absurd h Draft.fail_written
  | some elem =>
    rw [hp] at h
    obtain ⟨_, h₁, rfl⟩ := Draft.line_bind_written.mp h
    obtain ⟨_, _, s₁, _, hbranch, h₂, rfl⟩ := Draft.bind_written.mp h₁
    obtain ⟨buffer, hbuffer, rfl⟩ := Draft.branch_written.mp hbranch
    obtain ⟨c, _, s₂, _, hask, hreturn, rfl⟩ := Draft.bind_written.mp h₂
    obtain ⟨rfl, htemp, hgrows, hc⟩ := askedLast hask
    obtain ⟨rfl, rfl, rfl⟩ := Draft.pure_written.mp hreturn
    have inside := (readBuffer_reads hbuffer).mono hgrows
    rw [← htemp] at inside
    exact .constPointer hp hc inside

theorem readConstStruct_reads {p : Param} {name : String} {shape : Shape} {arg : ScriptArg}
    (h : readConstStruct ctx p (.structPointer name shape true) slot s = (.written arg code, s')) :
    UnitReads ctx s'.memo slot (.single p (.structPointer name shape true) false) s.temporaries code
      s'.temporaries ⟨arg, [p.localName], none⟩ := by
  unfold readConstStruct at h
  dsimp only at h
  cases hp : (pointeeType? p.type).map valueType with
  | none => rw [hp] at h; exact absurd h Draft.fail_written
  | some pointee =>
    rw [hp] at h
    obtain ⟨zero, _, _, _, hask, h₁, rfl⟩ := Draft.bind_written.mp h
    obtain ⟨rfl, htemp, hz⟩ := Context.categoryOf_written hask
    obtain ⟨_, h₂, rfl⟩ := Draft.lines_bind_written.mp h₁
    obtain ⟨_, _, _, _, hbranch, hreturn, rfl⟩ := Draft.bind_written.mp h₂
    obtain ⟨rfl, rfl, rfl⟩ := Draft.pure_written.mp hreturn
    obtain ⟨_, hbody, rfl⟩ := Draft.orElseIf_written.mp hbranch
    obtain ⟨_, _, _, _, hread, hassign, rfl⟩ := Draft.bind_written.mp hbody
    obtain ⟨rfl, rfl⟩ := Draft.line_written.mp hassign
    have hz' := (read_grows ctx .checked pointee _ _).of_written hread _ _ hz
    have inside := read_reads hread
    rw [htemp] at inside
    exact .constStruct hp hz' inside

theorem readSingle_reads {p : Param} {category : Category} {output : Bool} {r : UnitCode}
    (h : readSingle ctx p category output slot s = (.written r code, s')) :
    UnitReads ctx s'.memo slot (.single p category output) s.temporaries code s'.temporaries r := by
  unfold readSingle at h
  dsimp only at h
  cases output with
  | true => exact readOutput_reads h
  | false =>
    rw [if_neg (by simp)] at h
    -- the two templates that several categories share
    have gap (hc : category.isCallback = true ∨ category.isUnknown = true)
        (h : (do
          Draft.lines (gapLines ctx p category)
          return ⟨⟨p.name, luaType ctx category, p.hasDefault⟩, [p.localName], none⟩ : Draft UnitCode)
            s = (.written r code, s')) :
        UnitReads ctx s'.memo slot (.single p category false) s.temporaries code s'.temporaries r := by
      obtain ⟨_, hreturn, rfl⟩ := Draft.lines_bind_written.mp h
      obtain ⟨rfl, rfl, rfl⟩ := Draft.pure_written.mp hreturn
      rw [Code.append_done]
      exact .gap hc
    have plain (hc : category.isReadSpecially = false)
        (h : (do
          Draft.line (.declare (localOf p.type p.localName) (.text (ctx.zeroInit category)))
          Draft.branchWhen p.hasDefault (present slot)
            (read ctx .checked p.type (.name p.localName) (.slot slot))
          return ⟨⟨p.name, luaType ctx category, p.hasDefault⟩, [p.localName], none⟩ : Draft UnitCode)
            s = (.written r code, s')) :
        UnitReads ctx s'.memo slot (.single p category false) s.temporaries code s'.temporaries r := by
      obtain ⟨_, h₁, rfl⟩ := Draft.line_bind_written.mp h
      obtain ⟨_, _, _, _, hwhen, hreturn, rfl⟩ := Draft.bind_written.mp h₁
      obtain ⟨rfl, rfl, rfl⟩ := Draft.pure_written.mp hreturn
      obtain ⟨inside, hread, rfl⟩ := Draft.branchWhen_written.mp hwhen
      rw [Code.append_done]
      exact .plain hc (read_reads hread)
    cases category with
    | pointer pointee isConst =>
      cases isConst with
      | true =>
        obtain ⟨arg, _, _, _, hread, hreturn, rfl⟩ := Draft.bind_written.mp h
        obtain ⟨rfl, rfl, rfl⟩ := Draft.pure_written.mp hreturn
        rw [Code.append_done]
        exact readConstPointer_reads hread
      | false => exact plain rfl h
    | structPointer name shape isConst =>
      cases isConst with
      | true =>
        obtain ⟨arg, _, _, _, hread, hreturn, rfl⟩ := Draft.bind_written.mp h
        obtain ⟨rfl, rfl, rfl⟩ := Draft.pure_written.mp hreturn
        rw [Code.append_done]
        exact readConstStruct_reads hread
      | false => exact plain rfl h
    | callback _ _ _ => exact gap (.inl rfl) h
    | unknown => exact gap (.inr rfl) h
    | _ => exact plain rfl h

theorem readArrayCount_reads {array count : Param} {elem : String} {r : UnitCode}
    (h : readArrayCount ctx array count elem slot s = (.written r code, s')) :
    UnitReads ctx s'.memo slot (.arrayCount array count elem) s.temporaries code s'.temporaries r := by
  unfold readArrayCount at h
  dsimp only at h
  -- the same copy stands in a branch or in a block of its own
  have copied {inner : Code} {t t' : Scratch} {u : Unit} (hcopy : (do
      Draft.line (.call (Api.checktype.on [.at (.slot slot), .text "LUA_TTABLE"]))
      readBuffer ctx elem slot array.localName (some ⟨count.localName, valueType count.type⟩))
        t = (.written u inner, t')) :
      ∃ buffer, BufferReads ctx t'.memo elem slot array.localName
          (some ⟨count.localName, valueType count.type⟩) t.temporaries buffer t'.temporaries ∧
        inner = .line (.call (Api.checktype.on [.at (.slot slot), .text "LUA_TTABLE"])) buffer := by
    obtain ⟨_, _, _, buffer, hcheck, hbuffer, rfl⟩ := Draft.bind_written.mp hcopy
    obtain ⟨rfl, rfl⟩ := Draft.line_written.mp hcheck
    exact ⟨buffer, readBuffer_reads hbuffer, rfl⟩
  have asked {c : Category} {code' : Code} {t t' : Scratch} {buffer : Code}
      (hask : ctx.categoryOf elem t = (.written c code', t'))
      (hbuffer : BufferReads ctx t.memo elem slot array.localName
        (some ⟨count.localName, valueType count.type⟩) s.temporaries buffer t.temporaries) :
      UnitReads ctx t'.memo slot (.arrayCount array count elem) s.temporaries
        (arrayCountCode ctx array count slot buffer) t'.temporaries
        ⟨⟨array.name, luaType ctx c ++ "[]", array.hasDefault⟩,
          [array.localName, count.localName], none⟩ := by
    obtain ⟨-, htemp, hgrows, hc⟩ := askedLast hask
    rw [htemp]
    exact .arrayCount hc (hbuffer.mono hgrows)
  obtain ⟨_, h₁, rfl⟩ := Draft.lines_bind_written.mp h
  cases hdefault : array.hasDefault with
  | true =>
    rw [if_pos hdefault] at h₁
    obtain ⟨_, _, _, _, hbranch, h₂, rfl⟩ := Draft.bind_written.mp h₁
    obtain ⟨_, hcopy, rfl⟩ := Draft.branch_written.mp hbranch
    obtain ⟨buffer, hbuffer, rfl⟩ := copied hcopy
    obtain ⟨c, _, _, _, hask, hreturn, rfl⟩ := Draft.bind_written.mp h₂
    obtain ⟨rfl, rfl, rfl⟩ := Draft.pure_written.mp hreturn
    have := asked hask hbuffer
    rw [(askedLast hask).1]
    simpa [arrayCountCode, hdefault, Code.branchOf, Code.ofLines] using this
  | false =>
    rw [if_neg (by simp [hdefault])] at h₁
    obtain ⟨_, _, _, _, hblock, h₂, rfl⟩ := Draft.bind_written.mp h₁
    obtain ⟨_, hcopy, rfl⟩ := Draft.block_written.mp hblock
    obtain ⟨buffer, hbuffer, rfl⟩ := copied hcopy
    obtain ⟨c, _, _, _, hask, hreturn, rfl⟩ := Draft.bind_written.mp h₂
    obtain ⟨rfl, rfl, rfl⟩ := Draft.pure_written.mp hreturn
    have := asked hask hbuffer
    rw [(askedLast hask).1]
    simpa [arrayCountCode, hdefault, Code.blockOf, Code.ofLines] using this

theorem readFixedArray_reads {p : Param} {elem : String} {size : Nat} {writable : Bool}
    {r : UnitCode} (h : readFixedArray ctx p elem size writable slot s = (.written r code, s')) :
    UnitReads ctx s'.memo slot (.fixedArray p elem size writable) s.temporaries code s'.temporaries
      r := by
  unfold readFixedArray at h
  obtain ⟨_, h₁, rfl⟩ := Draft.line_bind_written.mp h
  obtain ⟨_, _, _, _, hwhen, h₂, rfl⟩ := Draft.bind_written.mp h₁
  obtain ⟨inside, hread, rfl⟩ := Draft.branchWhen_written.mp hwhen
  obtain ⟨c, _, _, _, hask, hreturn, rfl⟩ := Draft.bind_written.mp h₂
  obtain ⟨rfl, htemp, hgrows, hc⟩ := askedLast hask
  obtain ⟨rfl, rfl, rfl⟩ := Draft.pure_written.mp hreturn
  rw [htemp, Code.append_done, Code.append_done]
  exact .fixedArray hc ((read_reads hread).mono hgrows)

/-- **A unit that is read without a fault is read by the rules.** -/
theorem readUnit_reads {u : ParamUnit} {r : UnitCode}
    (h : readUnit ctx slot u s = (.written r code, s')) :
    UnitReads ctx s'.memo slot u s.temporaries code s'.temporaries r := by
  cases u with
  | single p category output => exact readSingle_reads h
  | arrayCount array count elem => exact readArrayCount_reads h
  | fixedArray p elem size writable => exact readFixedArray_reads h

end

end LuaGlue
