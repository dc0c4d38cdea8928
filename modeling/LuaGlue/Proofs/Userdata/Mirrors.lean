import LuaGlue.Proofs.Marshal.Mirrors
import LuaGlue.Proofs.Userdata.Accessors
import LuaGlue.Proofs.Userdata.Setters

/-!
# A struct's glue with other structs bound

The glue of a struct fails alike whatever structs are bound, and as much is known afterwards
(`bindStruct_mirrors`). All steps but one ask the same with any structs bound; the one that does not is to
find out whether the value of a setter needs to be kept. A setter comes after the getter of the same field, by
which all of its parts are known.
-/

set_option autoImplicit false

namespace LuaGlue

open Draft

variable {ctx : Context} {bound : List String} {s : Scratch}

/-! ## Trampolines -/

theorem returnZero_mirrors (spelling : String) :
    (returnZero ctx spelling).Mirrors (returnZero (ctx.rebound bound) spelling) s := by
  have storing (ctx : Context) (type : String) (category : Category) : Draft.Plain (do
      let zero ← temp
      lines
        [.declare ⟨declare type zero, zero⟩ (.text (ctx.zeroInit category)),
         .ret (.value (.name zero))]) :=
    Plain.temp.bind fun _ => .lines _
  unfold returnZero
  refine .categoryOf rfl fun category s₁ _ _ => ?_
  split
  · exact .plain (.line _) (.line _)
  · dsimp only
    rw [show (ctx.rebound bound).zeroLiteral? = ctx.zeroLiteral? from rfl]
    split
    · exact .plain (.line _) (.line _)
    · exact .plain (storing _ _ _) (storing _ _ _)

theorem pushArguments_mirrors : ∀ (params : List String) (i : Nat) (s : Scratch),
    (pushArguments ctx i params).Mirrors (pushArguments (ctx.rebound bound) i params) s := by
  intro params
  induction params with
  | nil => intro _ _; exact .pure trivial
  | cons spelling rest ih =>
    intro i s
    exact (push_mirrors _ _ _).andThen fun _ _ _ _ => ih _ _

theorem answerResult_mirrors (result : String) (category : Category) :
    (answerResult ctx result category).Mirrors (answerResult (ctx.rebound bound) result category) s := by
  unfold answerResult
  split
  · exact (MirrorsBy.plain (.line _) (.line _)).andThen fun _ _ _ _ =>
      (read_mirrors _ _ _ _ _ _).andThen fun _ _ _ _ => .plain (.lines _) (.lines _)
  · split
    · exact returnZero_mirrors result
    · exact .pure trivial

theorem callClosure_mirrors (site result : String) (category : Category) (nargs : Nat) :
    (callClosure ctx site result category nargs).Mirrors
      (callClosure (ctx.rebound bound) site result category nargs) s :=
  (MirrorsBy.branch _ _ _ _ ((MirrorsBy.plain (.lines _) (.lines _)).andThen fun _ _ _ _ =>
    returnZero_mirrors result)).andThen fun _ _ _ _ => answerResult_mirrors result category

theorem dispatcherBody_mirrors (site result : String) (category : Category) (params : List String) :
    (dispatcherBody ctx site result category params).Mirrors
      (dispatcherBody (ctx.rebound bound) site result category params) s := by
  have line {s : Scratch} (l l' : Line) : (Draft.line l).Mirrors (Draft.line l') s :=
    .plain (.line _) (.line _)
  unfold dispatcherBody
  dsimp only
  refine (MirrorsBy.branch _ _ _ _ (returnZero_mirrors result)).andThen fun _ _ _ _ =>
    (line _ _).andThen fun _ _ _ _ =>
      (MirrorsBy.branch _ _ _ _ ((line _ _).andThen fun _ _ _ _ => returnZero_mirrors result)).andThen
        fun _ _ _ _ => (line _ _).andThen fun _ _ _ _ =>
          (pushArguments_mirrors params 0 _).andThen fun _ _ _ _ => ?_
  cases !category.isVoid && !category.isCallbackResult with
  | true => exact (line _ _).andThen fun _ _ _ _ => callClosure_mirrors _ _ _ _
  | false => exact callClosure_mirrors _ _ _ _

theorem trampolines_mirrors (owner : String) (field : Field) :
    (trampolines ctx owner field).Mirrors (trampolines (ctx.rebound bound) owner field) s := by
  refine (MirrorsBy.ofExcept (signature ctx owner field)).bind fun signature signature' _ _ _ heq => ?_
  cases heq
  refine .categoryOf rfl fun category _ _ _ => ?_
  exact (MirrorsBy.block _ _ (dispatcherBody_mirrors _ _ _ _)).andThen fun _ _ _ _ =>
    .plain (.write _) (.write _)

theorem callbackCode_mirrors (struct : StructDecl) : ∀ (as : List Accessor) (s : Scratch),
    (callbackCode ctx struct as).Mirrors (callbackCode (ctx.rebound bound) struct as) s := by
  intro as
  induction as with
  | nil => intro _; exact .pure trivial
  | cons a rest ih =>
    intro s
    unfold callbackCode
    split
    · cases struct.field? a.key with
      | some field => exact (trampolines_mirrors struct.name field).andThen fun _ _ _ _ => ih _
      | none => exact MirrorsBy.andThen (.fail _) fun _ _ _ _ => ih _
    · exact ih s

/-! ## Getters and setters -/

/-- The spelling of what a getter pushes and a setter reads: the elements of an owned buffer, and any other
field as a whole. -/
def Accessor.passed (a : Accessor) : String :=
  match a.access with
  | .ownedBuffer _ _ _ elem => elem
  | _ => a.type

theorem getter_mirrors (struct : String) (a : Accessor) :
    (getter ctx struct a).Mirrors (getter (ctx.rebound bound) struct a) s := by
  unfold getter
  refine MirrorsBy.andThen (MirrorsBy.block _ _ ?_) fun _ _ _ _ => .plain (.line _) (.line _)
  split
  · exact (MirrorsBy.plain (.lines _) (.lines _)).andThen fun _ _ _ _ => .block _ _
      ((push_mirrors _ _ _).andThen fun _ _ _ _ => .plain (.line _) (.line _))
  · exact push_mirrors _ _ _

/-- A getter that is written leaves nothing to be found out about what the setter reads. -/
theorem getter_keepKnown {struct : String} {a : Accessor} {s' : Scratch} {u : Unit} {code : Code}
    (h : getter ctx struct a s = (.written u code, s')) : KeepKnown ctx s'.memo a.passed := by
  unfold getter at h
  obtain ⟨_, _, _, _, hblock, hblank, rfl⟩ := bind_written.mp h
  obtain ⟨rfl, rfl⟩ := line_written.mp hblank
  obtain ⟨_, hbody, rfl⟩ := block_written.mp hblock
  unfold Accessor.passed
  cases ha : a.access with
  | ownedBuffer bit countField countType elem =>
    rw [ha] at hbody
    obtain ⟨_, hloop, rfl⟩ := lines_bind_written.mp hbody
    obtain ⟨_, hinside, rfl⟩ := block_written.mp hloop
    obtain ⟨_, _, _, _, hpush, hstore, rfl⟩ := bind_written.mp hinside
    obtain ⟨rfl, rfl⟩ := line_written.mp hstore
    exact needsKeep_known hpush
  | value | callback | ownedCount =>
    rw [ha] at hbody
    exact needsKeep_known hbody

theorem KeepKnown.asking {spelling : String} (h : KeepKnown ctx s.memo spelling) :
    (Draft.asking (needsKeep ctx spelling)).Mirrors
      (Draft.asking (needsKeep (ctx.rebound bound) spelling)) s :=
  .askingKnown (fun m hm => h ctx.bound maxNesting m hm) fun m hm => h bound maxNesting m hm

theorem KeepKnown.mono {m m' : Memo} {spelling : String} (h : KeepKnown ctx m spelling)
    (hm : m.Grows m') : KeepKnown ctx m' spelling :=
  fun bound levels m'' hm'' => h bound levels m'' (hm.trans hm'')

/-- How a setter ends asks nothing, whether there is a keep table or not. -/
theorem anchoring_plain (keep anchored : Bool) (key : String) : Draft.Plain
    (if keep then lines (anchorKeep key)
      else if anchored then line (anchor key valueIndex) else line (.unused "ud")) := by
  split
  · exact .lines _
  · split <;> exact .line _

/-- It does not matter on which side there is a keep table. -/
theorem keepTable_mirrors (keep keep' : Bool) {f f' : Draft Unit}
    (h : ∀ s₁, s.memo.Grows s₁.memo → f.Mirrors f' s₁) :
    Draft.Mirrors (if keep then lines keepTable >>= fun _ => f else f)
      (if keep' then lines keepTable >>= fun _ => f' else f') s := by
  have after {s₁ : Scratch} (hs₁ : s₁.memo = s.memo) :
      f.Mirrors (if keep' then lines keepTable >>= fun _ => f' else f') s₁ := by
    have hf := h s₁ (by rw [hs₁]; exact .refl _)
    cases keep' with
    | true => exact .plainBefore' (.lines _) fun _ => hf
    | false => exact hf
  cases keep with
  | true => exact .plainBefore (.lines _) fun _ s₁ hs₁ => after hs₁
  | false => exact after rfl

theorem valueSetter_mirrors {a : Accessor} (h : KeepKnown ctx s.memo a.type) :
    (valueSetter ctx a).Mirrors (valueSetter (ctx.rebound bound) a) s := by
  unfold valueSetter
  refine .categoryOf rfl fun category s₁ hs₁ _ => ?_
  refine (h.mono hs₁).asking.andThen fun keep keep' s₂ _ => keepTable_mirrors keep keep' fun s₃ _ => ?_
  refine (read_mirrors .checked a.type a.place a.place valueIndex valueIndex).andThen fun _ _ s₄ _ => ?_
  have hend (s : Scratch) := MirrorsBy.plain (s := s) (anchoring_plain keep category.needsAnchor a.key)
    (anchoring_plain keep' category.needsAnchor a.key)
  cases category.isUnknown with
  | true => exact (MirrorsBy.plain (.lines _) (.lines _)).andThen fun _ _ s₅ _ => hend s₅
  | false => exact hend s₄

theorem bufferSetter_mirrors {a : Accessor} {bit : Nat} {countField countType elem : String}
    (h : KeepKnown ctx s.memo elem) : (bufferSetter ctx a bit countField countType elem).Mirrors
      (bufferSetter (ctx.rebound bound) a bit countField countType elem) s := by
  unfold bufferSetter
  dsimp only
  refine h.asking.andThen fun keep keep' s₁ _ => ?_
  refine (MirrorsBy.plain (.line _) (.line _)).andThen fun _ _ _ _ => keepTable_mirrors keep keep' fun _ _ => ?_
  refine (MirrorsBy.plain (.lines _) (.lines _)).andThen fun _ _ _ _ => ?_
  refine MirrorsBy.andThen (.branch _ _ _ _ ?_) fun _ _ _ _ =>
    .plain (anchoring_plain keep true a.key) (anchoring_plain keep' true a.key)
  refine (MirrorsBy.plain (.lines _) (.lines _)).andThen fun _ _ _ _ => .block _ _ ?_
  exact (MirrorsBy.plain (.line _) (.line _)).andThen fun _ _ _ _ =>
    (read_mirrors _ _ _ _ _ _).andThen fun _ _ _ _ => .plain (.line _) (.line _)

/-- The setter of a callback asks nothing, so it needs no getter before it. -/
theorem setter_mirrors {struct : String} {a : Accessor}
    (h : a.readable = true → KeepKnown ctx s.memo a.passed) :
    (setter ctx struct a).Mirrors (setter (ctx.rebound bound) struct a) s := by
  unfold setter
  refine MirrorsBy.andThen (MirrorsBy.block _ _ ?_) fun _ _ _ _ => .plain (.line _) (.line _)
  unfold Accessor.readable Accessor.passed at h
  cases ha : a.access with
  | value =>
    rw [ha] at h
    exact valueSetter_mirrors (h rfl)
  | callback => exact .plain (.lines _) (.lines _)
  | ownedBuffer bit countField countType elem =>
    rw [ha] at h
    exact bufferSetter_mirrors (h (by simp))
  | ownedCount pointer => exact .fail _

theorem fieldCode_mirrors (struct : String) : ∀ (as : List Accessor) (s : Scratch),
    (fieldCode ctx struct as).Mirrors (fieldCode (ctx.rebound bound) struct as) s := by
  intro as
  induction as with
  | nil => intro _; exact .pure trivial
  | cons a rest ih =>
    intro s
    unfold fieldCode
    have setting {s : Scratch} (h : a.readable = true → KeepKnown ctx s.memo a.passed) : Draft.Mirrors
        (do
          if a.writable then setter ctx struct a
          fieldCode ctx struct rest)
        (do
          if a.writable then setter (ctx.rebound bound) struct a
          fieldCode (ctx.rebound bound) struct rest) s := by
      cases a.writable with
      | true => exact (setter_mirrors h).andThen fun _ _ s₁ _ => ih s₁
      | false => exact ih s
    cases hr : a.readable with
    | true =>
      -- the getter is written first, and what it has pushed is known
      exact (getter_mirrors struct a).bind fun _ _ code s₁ hrun _ => setting fun _ =>
        getter_keepKnown hrun
    | false => exact setting fun h => absurd (hr.symm.trans h) (by simp)

/-! ## A whole struct -/

/-! Which structs are bound is not asked for when accessors are listed. -/

theorem flattenedMembers_rebound (outer : String) (nested : StructDecl) (taken : List String)
    (fields : List Field) : flattenedMembers (ctx.rebound bound) outer nested taken fields =
      flattenedMembers ctx outer nested taken fields := by
  induction fields generalizing taken with
  | nil => rfl
  | cons f rest ih =>
    unfold flattenedMembers
    simp only [ih]
    rfl

theorem fieldAccessors_rebound (struct : StructDecl) (taken : List String) (f : Field) :
    fieldAccessors (ctx.rebound bound) struct taken f = fieldAccessors ctx struct taken f := by
  unfold fieldAccessors
  simp only [flattenedMembers_rebound]
  rfl

theorem accessorsFrom_rebound (struct : StructDecl) (taken : List String) (fields : List Field) :
    accessorsFrom (ctx.rebound bound) struct taken fields = accessorsFrom ctx struct taken fields := by
  induction fields generalizing taken with
  | nil => rfl
  | cons f rest ih =>
    unfold accessorsFrom
    simp only [fieldAccessors_rebound, ih]

theorem accessors_rebound (struct : StructDecl) :
    accessors (ctx.rebound bound) struct = accessors ctx struct :=
  accessorsFrom_rebound struct _ _

theorem accessorBinding_rebound (a : Accessor) : a.binding (ctx.rebound bound) = a.binding ctx := by
  have htype : luaType (ctx.rebound bound) = luaType ctx := by
    -- the recursion runs through lists as well, so unfolding takes it in one piece
    delta luaType
    rfl
  unfold Accessor.binding
  rw [htype]
  rfl

/-- **A struct's glue fails alike whatever is bound**, and as much is known after it; what is said of it
besides its code is the same. -/
theorem bindStruct_mirrors (struct : StructDecl) : (bindStruct ctx struct).MirrorsBy Eq
    (bindStruct (ctx.rebound bound) struct) s := by
  unfold bindStruct
  rw [accessors_rebound]
  refine (MirrorsBy.asking (accessors_lasts ctx struct)).bind fun answer _ _ _ _ heq => ?_
  cases heq
  refine (MirrorsBy.ofExcept answer).bind fun as _ _ _ _ heq => ?_
  cases heq
  dsimp only
  refine (callbackCode_mirrors struct as _).andThen fun _ _ _ _ =>
    (fieldCode_mirrors struct.name as _).andThen fun _ _ _ _ => ?_
  refine (MirrorsBy.asking (byteRangeOf?_lasts ctx struct.name)).bind fun range _ _ _ _ heq => ?_
  cases heq
  refine (MirrorsBy.plain (.write _) (.write _)).andThen fun _ _ _ _ => ?_
  simp only [accessorBinding_rebound]
  refine (MirrorsBy.asking (.mapM (Accessor.binding_lasts ctx) as)).bind fun fields _ _ _ _ heq => ?_
  cases heq
  exact .pure rfl

end LuaGlue
