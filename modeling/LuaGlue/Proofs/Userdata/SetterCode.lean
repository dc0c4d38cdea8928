import LuaGlue.Proofs.Keep.Reach
import LuaGlue.Userdata.Field

/-!
# What a setter does

`Sets` has one rule for each way to assign a field, over the memo and with the body of the setter.
Where a value is read, the code comes from the rules of `Reads`; whether there is a keep table is what
`needsKeep` was asked beforehand. `setter_written` says that a setter that is written has a body by
these rules.
-/

set_option autoImplicit false

namespace LuaGlue

/-! ## The templates -/

/-- The keep table, if there is to be one. -/
def keepLines (keep : Bool) : List Line := if keep then keepTable else []

/-- What keeps alive what the field points to. -/
def anchorLines (keep anchored : Bool) (key : String) : List Line :=
  if keep then anchorKeep key
  else if anchored then [anchor key valueIndex] else [.unused "ud"]

/-- A plain field, whose value `inside` reads. -/
def valueSetterCode (key : String) (category : Category) (keep : Bool) (inside : Code) : Code :=
  .ofLines (keepLines keep) ++ (inside ++
    (.ofLines (if category.isUnknown then [.unused "self", .unused "value"] else []) ++
      .ofLines (anchorLines keep category.needsAnchor key)))

/-- The lines that let go of the buffer the struct had before. -/
def releaseLines (ctx : Context) (a : Accessor) (bit : Nat) (countField : String) : List Line :=
  [.declare (.plain "lua_Integer" "n")
    (.cast "lua_Integer" (.call (Api.rawlen.on [.at valueIndex]))),
   .declare (.plain "lua_Integer" "owned") (.call (Support.owned.on [udValue])),
   freeIfOwned bit a.place,
   .assign a.place (.text ctx.null),
   .assign (.through "self" countField) (.text "0"),
   .disown bit,
   .call (Support.setOwned.on [udValue, .value (.name "owned")])]

/-- The lines that allocate the new buffer, which the struct owns from then on. -/
def allocateLines (ctx : Context) (a : Accessor) (bit : Nat) (countField countType elem : String) :
    List Line :=
  let type := valueType elem
  let bytes := "(size_t)n * sizeof(" ++ type ++ ")"
  [.declare (.plain (type ++ "*") "buf")
    (.cast (type ++ "*") (.call ⟨.libc "malloc", [.text bytes]⟩)),
   .onlyIf (.isNull (.name "buf") ctx.null)
    (.call (Api.error.on [.literal "out of memory setting '%s'", .literal a.key])),
   .call ⟨.libc "memset", [.value (.name "buf"), .number 0, .text bytes]⟩,
   .assign a.place (.value (.name "buf")),
   .assign (.through "self" countField) (.cast (valueType countType) (.value (.name "n"))),
   .call (Support.setOwned.on [udValue, .ownedWith bit])]

/-- The loop over the elements, each of which `inside` reads. -/
def fillCode (inside : Code) : Code :=
  .blockOf (.count "lua_Integer" "i" "n")
    (.line (.call (Api.rawgeti.on [.at valueIndex, .succ "i"])) (inside ++ .line popOne .done))

/-- What an owned buffer is set by after its keep table. -/
def refillCode (ctx : Context) (a : Accessor) (bit : Nat) (countField countType elem : String)
    (keep : Bool) (inside : Code) : Code :=
  .ofLines (releaseLines ctx a bit countField) ++
    .branch (.text "n > 0")
      (.ofLines (allocateLines ctx a bit countField countType elem) ++ fillCode inside) .done
      (.ofLines (anchorLines keep true a.key))

/-- An owned buffer. -/
def bufferSetterCode (ctx : Context) (a : Accessor) (bit : Nat) (countField countType elem : String)
    (keep : Bool) (inside : Code) : Code :=
  .line (.call (Api.checktype.on [.at valueIndex, .text "LUA_TTABLE"]))
    (.ofLines (keepLines keep) ++ refillCode ctx a bit countField countType elem keep inside)

/-! ## The rules -/

/-- `Sets ctx m struct a body`: over the memo `m`, the field is assigned by `body`. -/
inductive Sets (ctx : Context) (m : Memo) (struct : String) (a : Accessor) : Code → Prop where
  | value {category keep n code n'} (ha : a.access = .value)
      (hc : m.find? a.type = some category) (hk : (needsKeep ctx a.type).Answered keep m)
      (inside : Reads ctx m (.value .checked a.type a.place valueIndex) n code n') :
      Sets ctx m struct a (valueSetterCode a.key category keep code)
  | callback (ha : a.access = .callback) :
      Sets ctx m struct a (.ofLines (callbackSetter ctx struct a.key))
  | ownedBuffer {bit countField countType elem keep n code n'}
      (ha : a.access = .ownedBuffer bit countField countType elem)
      (hk : (needsKeep ctx elem).Answered keep m)
      (inside : Reads ctx m (.value .lenient elem (.element (.name "buf") "i") .top) n code n') :
      Sets ctx m struct a (bufferSetterCode ctx a bit countField countType elem keep code)

variable {ctx : Context} {struct : String} {a : Accessor}

theorem Sets.mono {m m' : Memo} {body : Code} (h : Sets ctx m struct a body) (hm : m.Grows m') :
    Sets ctx m' struct a body := by
  cases h with
  | value ha hc hk inside => exact .value ha (hm _ _ hc) (hk.mono hm) (inside.mono hm)
  | callback ha => exact .callback ha
  | ownedBuffer ha hk inside => exact .ownedBuffer ha (hk.mono hm) (inside.mono hm)

/-! ## Setting a field takes nothing back -/

theorem valueSetter_grows (ctx : Context) (a : Accessor) : (valueSetter ctx a).Grows := by
  unfold valueSetter
  refine (ctx.categoryOf_grows a.type).bind fun category =>
    (Draft.Grows.asking (needsKeep_grows ctx a.type)).bind fun keep => ?_
  -- both ends of a setter, with and without a keep table
  have anchored (keep : Bool) : Draft.Grows
      (if keep then Draft.lines (anchorKeep a.key)
        else if category.needsAnchor then Draft.line (anchor a.key valueIndex)
        else Draft.line (.unused "ud")) := by
    split
    · exact Draft.Grows.lines _
    · split <;> exact Draft.Grows.line _
  have afterwards (keep : Bool) : Draft.Grows (do
      if category.isUnknown then Draft.lines [.unused "self", .unused "value"]
      if keep then Draft.lines (anchorKeep a.key)
      else if category.needsAnchor then Draft.line (anchor a.key valueIndex)
      else Draft.line (.unused "ud")) := by
    cases category.isUnknown with
    | true => exact (Draft.Grows.lines _).bind fun _ => anchored keep
    | false => exact anchored keep
  cases keep with
  | true => exact (Draft.Grows.lines _).bind fun _ => (read_grows _ _ _ _ _).bind fun _ =>
      afterwards true
  | false => exact (read_grows _ _ _ _ _).bind fun _ => afterwards false

theorem bufferSetter_grows (ctx : Context) (a : Accessor) (bit : Nat)
    (countField countType elem : String) :
    (bufferSetter ctx a bit countField countType elem).Grows := by
  unfold bufferSetter
  dsimp only
  refine (Draft.Grows.asking (needsKeep_grows ctx elem)).bind fun keep =>
    (Draft.Grows.line _).bind fun _ => ?_
  have anchored (keep : Bool) : Draft.Grows
      (if keep then Draft.lines (anchorKeep a.key) else Draft.line (anchor a.key valueIndex)) := by
    split
    · exact Draft.Grows.lines _
    · exact Draft.Grows.line _
  have fill (ls : List Line) : Draft.Grows (do
      Draft.lines ls
      Draft.block (.count "lua_Integer" "i" "n") do
        Draft.line (.call (Api.rawgeti.on [.at valueIndex, .succ "i"]))
        read ctx .lenient elem (.element (.name "buf") "i") .top
        Draft.line popOne) :=
    (Draft.Grows.lines _).bind fun _ => ((Draft.Grows.line _).bind fun _ =>
      (read_grows _ _ _ _ _).bind fun _ => Draft.Grows.line _).block _
  cases keep with
  | true => exact (Draft.Grows.lines _).bind fun _ => (Draft.Grows.lines _).bind fun _ =>
      ((fill _).branch _ _).bind fun _ => anchored true
  | false => exact (Draft.Grows.lines _).bind fun _ => ((fill _).branch _ _).bind fun _ =>
      anchored false

theorem setter_grows (ctx : Context) (struct : String) (a : Accessor) :
    (setter ctx struct a).Grows := by
  unfold setter
  refine Draft.Grows.bind (Draft.Grows.block _ ?_) fun _ => Draft.Grows.line _
  split
  · exact valueSetter_grows ctx a
  · exact Draft.Grows.lines _
  · exact bufferSetter_grows ctx a _ _ _ _
  · exact Draft.Grows.fail _

theorem getter_grows (ctx : Context) (struct : String) (a : Accessor) :
    (getter ctx struct a).Grows := by
  unfold getter
  refine Draft.Grows.bind (Draft.Grows.block _ ?_) fun _ => Draft.Grows.line _
  split
  · exact (Draft.Grows.lines _).bind fun _ =>
      ((push_grows _ _ _).bind fun _ => Draft.Grows.line _).block _
  · exact push_grows _ _ _

/-! ## Setters are written by the rules -/

section

variable {ctx : Context} {struct : String} {a : Accessor} {s s' : Scratch} {u : Unit} {code : Code}

theorem anchorLines_written {keep : Bool} (anchored : Bool)
    (h : (if keep then Draft.lines (anchorKeep a.key)
      else if anchored then Draft.line (anchor a.key valueIndex)
      else Draft.line (.unused "ud")) s = (.written u code, s')) :
    code = .ofLines (anchorLines keep anchored a.key) ∧ s' = s := by
  cases keep with
  | true => exact Draft.lines_written.mp h
  | false =>
    cases anchored with
    | true => exact Draft.line_written.mp h
    | false => exact Draft.line_written.mp h

theorem valueSetter_written (ha : a.access = .value)
    (h : valueSetter ctx a s = (.written u code, s')) : Sets ctx s'.memo struct a code := by
  obtain ⟨category, _, s₁, _, hask, h₁, rfl⟩ := Draft.bind_written.mp h
  obtain ⟨rfl, htemp, hcategory⟩ := Context.categoryOf_written hask
  obtain ⟨keep, _, s₂, _, hkeep, h₂, rfl⟩ := Draft.bind_written.mp h₁
  have answered := Draft.asking_answered hkeep
  have hknown := (Draft.Grows.asking (needsKeep_grows ctx a.type)).of_written hkeep _ _ hcategory
  obtain ⟨-, rfl, -⟩ := Draft.asking_written.mp hkeep
  -- from the back: what follows the read, then the read, then the keep table in front of it
  have afterwards {t t' : Scratch} {rest : Code} (h : (do
      if category.isUnknown then Draft.lines [.unused "self", .unused "value"]
      if keep then Draft.lines (anchorKeep a.key)
      else if category.needsAnchor then Draft.line (anchor a.key valueIndex)
      else Draft.line (.unused "ud")) t = (.written u rest, t')) :
      rest = .ofLines (if category.isUnknown then [.unused "self", .unused "value"] else []) ++
        .ofLines (anchorLines keep category.needsAnchor a.key) ∧ t' = t := by
    cases hu : category.isUnknown with
    | true =>
      rw [hu] at h
      obtain ⟨_, hanchor, rfl⟩ := Draft.lines_bind_written.mp h
      obtain ⟨rfl, ht⟩ := anchorLines_written _ hanchor
      exact ⟨rfl, ht⟩
    | false =>
      rw [hu] at h
      obtain ⟨rfl, ht⟩ := anchorLines_written _ h
      exact ⟨rfl, ht⟩
  have body {t : Scratch} {rest : Code} (h : (do
      read ctx .checked a.type a.place valueIndex
      if category.isUnknown then Draft.lines [.unused "self", .unused "value"]
      if keep then Draft.lines (anchorKeep a.key)
      else if category.needsAnchor then Draft.line (anchor a.key valueIndex)
      else Draft.line (.unused "ud")) t = (.written u rest, s')) (ht : t.memo = s₂.memo) :
      Sets ctx s'.memo struct a (.ofLines (keepLines keep) ++ rest) := by
    obtain ⟨_, inside, t', _, hread, hrest, rfl⟩ := Draft.bind_written.mp h
    obtain ⟨rfl, rfl⟩ := afterwards hrest
    have hgrows := (read_grows _ _ _ _ _).of_written hread
    rw [ht] at hgrows
    exact .value ha (hgrows _ _ hknown) (answered.mono hgrows) (read_reads hread)
  cases keep with
  | true =>
    obtain ⟨_, hrest, rfl⟩ := Draft.lines_bind_written.mp h₂
    exact body hrest rfl
  | false => exact body h₂ rfl

theorem bufferSetter_written {bit : Nat} {countField countType elem : String}
    (ha : a.access = .ownedBuffer bit countField countType elem)
    (h : bufferSetter ctx a bit countField countType elem s = (.written u code, s')) :
    Sets ctx s'.memo struct a code := by
  unfold bufferSetter at h
  dsimp only at h
  obtain ⟨keep, _, _, _, hkeep, h₁, rfl⟩ := Draft.bind_written.mp h
  have answered := Draft.asking_answered hkeep
  obtain ⟨-, rfl, -⟩ := Draft.asking_written.mp hkeep
  obtain ⟨_, h₂, rfl⟩ := Draft.line_bind_written.mp h₁
  have body {t : Scratch} {rest : Code} (h : (do
      Draft.lines (releaseLines ctx a bit countField)
      Draft.branch (.text "n > 0") do
        Draft.lines (allocateLines ctx a bit countField countType elem)
        Draft.block (.count "lua_Integer" "i" "n") do
          Draft.line (.call (Api.rawgeti.on [.at valueIndex, .succ "i"]))
          read ctx .lenient elem (.element (.name "buf") "i") .top
          Draft.line popOne
      if keep then Draft.lines (anchorKeep a.key)
      else Draft.line (anchor a.key valueIndex)) t = (.written u rest, s')) :
      ∃ inside n n', rest = refillCode ctx a bit countField countType elem keep inside ∧
        t.memo.Grows s'.memo ∧
        Reads ctx s'.memo (.value .lenient elem (.element (.name "buf") "i") .top) n inside n' := by
    obtain ⟨_, h₃, rfl⟩ := Draft.lines_bind_written.mp h
    obtain ⟨_, _, _, _, hbranch, hanchor, rfl⟩ := Draft.bind_written.mp h₃
    obtain ⟨_, hyes, rfl⟩ := Draft.branch_written.mp hbranch
    obtain ⟨_, hloop, rfl⟩ := Draft.lines_bind_written.mp hyes
    obtain ⟨_, hfill, rfl⟩ := Draft.block_written.mp hloop
    obtain ⟨_, h₄, rfl⟩ := Draft.line_bind_written.mp hfill
    obtain ⟨_, inside, _, _, hread, hpop, rfl⟩ := Draft.bind_written.mp h₄
    obtain ⟨rfl, rfl⟩ := Draft.line_written.mp hpop
    obtain ⟨rfl, rfl⟩ := anchorLines_written true hanchor
    exact ⟨inside, _, _, rfl, (read_grows _ _ _ _ _).of_written hread, read_reads hread⟩
  cases keep with
  | true =>
    obtain ⟨_, hrest, rfl⟩ := Draft.lines_bind_written.mp h₂
    obtain ⟨inside, _, _, rfl, hgrows, hreads⟩ := body hrest
    exact .ownedBuffer ha (answered.mono hgrows) hreads
  | false =>
    obtain ⟨inside, _, _, rfl, hgrows, hreads⟩ := body h₂
    exact .ownedBuffer ha (answered.mono hgrows) hreads

/-- **A setter that is written has a body by the rules.** -/
theorem setter_written (h : setter ctx struct a s = (.written u code, s')) :
    ∃ body, Sets ctx s'.memo struct a body ∧
      code = .block (.define "static void" (.setter struct a.key)
        ("lua_State* L, " ++ struct ++ "* self, int ud, int value")) body .brace
        (.line .blank .done) := by
  unfold setter at h
  obtain ⟨_, _, _, _, hblock, hblank, rfl⟩ := Draft.bind_written.mp h
  obtain ⟨rfl, rfl⟩ := Draft.line_written.mp hblank
  obtain ⟨body, hbody, rfl⟩ := Draft.block_written.mp hblock
  refine ⟨body, ?_, rfl⟩
  cases ha : a.access with
  | value =>
    rw [ha] at hbody
    exact valueSetter_written ha hbody
  | callback =>
    rw [ha] at hbody
    obtain ⟨rfl, rfl⟩ := Draft.lines_written.mp hbody
    exact .callback ha
  | ownedCount pointer =>
    rw [ha] at hbody
    exact absurd hbody Draft.fail_written
  | ownedBuffer bit countField countType elem =>
    rw [ha] at hbody
    exact bufferSetter_written ha hbody

theorem getter_written (h : getter ctx struct a s = (.written u code, s')) :
    ∃ body, code = .block (.define "static void" (.getter struct a.key)
      ("lua_State* L, " ++ struct ++ "* self")) body .brace (.line .blank .done) := by
  unfold getter at h
  obtain ⟨_, _, _, _, hblock, hblank, rfl⟩ := Draft.bind_written.mp h
  obtain ⟨rfl, rfl⟩ := Draft.line_written.mp hblank
  obtain ⟨body, -, rfl⟩ := Draft.block_written.mp hblock
  exact ⟨body, rfl⟩

end

end LuaGlue
