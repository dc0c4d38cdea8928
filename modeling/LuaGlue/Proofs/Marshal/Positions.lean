import LuaGlue.Proofs.Code.Calls
import LuaGlue.Proofs.Marshal.PushCode
import LuaGlue.Proofs.Marshal.ReadCode

/-!
# Where marshaling takes values from

The code that reads a value mentions the position the value is at, the top of the stack, and positions
that its own temporaries hold, and no others. Neither reading nor pushing calls the library that is
bound.
-/

set_option autoImplicit false

namespace LuaGlue

/-! ## Reading -/

/-- A call in code that reads from `index` and takes the temporaries from number `n` to below
`n'`. -/
structure Call.ReadsFrom (index : StackIndex) (n n' : Nat) (c : Call) : Prop where
  plain : c.isPlain = true
  positions : ∀ i, Arg.at i ∈ c.args →
    i = index ∨ i = .top ∨ ∃ k, n ≤ k ∧ k < n' ∧ i = .held (temporary k)

/-- A part is read from the top or from a table whose position a temporary of the whole holds. -/
theorem Call.ReadsFrom.widen {inner index : StackIndex} {m m' n n' : Nat} {c : Call}
    (h : c.ReadsFrom inner m m')
    (hi : inner = index ∨ inner = .top ∨ ∃ k, n ≤ k ∧ k < n' ∧ inner = .held (temporary k))
    (hn : n ≤ m) (hn' : m' ≤ n') : c.ReadsFrom index n n' := by
  refine ⟨h.plain, fun i hm => ?_⟩
  rcases h.positions i hm with rfl | rfl | ⟨k, hk, hk', rfl⟩
  · exact hi
  · exact .inr (.inl rfl)
  · exact .inr (.inr ⟨k, by omega, by omega, rfl⟩)

section

variable {index : StackIndex} {n n' : Nat}

theorem Api.readsFrom {f : Api} (hf : f ≠ .gettop) {i : StackIndex} {rest : List Arg}
    (hi : i = index ∨ i = .top ∨ ∃ k, n ≤ k ∧ k < n' ∧ i = .held (temporary k))
    (hrest : ∀ j, Arg.at j ∉ rest) : (f.on (.at i :: rest)).ReadsFrom index n n' := by
  refine ⟨Call.isPlain_of_isApi (Api.on_isApi hf _), fun j hm => ?_⟩
  simp only [Api.on, List.mem_cons, Arg.at.injEq, reduceCtorEq, false_or, hrest j, or_false] at hm
  exact hm ▸ hi

/-- A call without positions. -/
theorem Api.readsFrom_none {f : Api} (hf : f ≠ .gettop) {args : List Arg} (h : ∀ j, Arg.at j ∉ args) :
    (f.on args).ReadsFrom index n n' :=
  ⟨Call.isPlain_of_isApi (Api.on_isApi hf _), fun j hm => absurd (by simpa [Api.on] using hm) (h j)⟩

theorem readLine?_readsFrom {ctx : Context} {mode : ReadMode} {spelling : String} {place : Place}
    {c : Category} {l : Line} (hl : readLine? ctx mode spelling place index c = some l) :
    ∀ call ∈ l.calls, call.ReadsFrom index n n' := by
  have cast : ∀ {f : Api}, f ≠ .gettop → ∀ call ∈ (assignCast f (valueType spelling) place index).calls,
      call.ReadsFrom index n n' :=
    fun hf call hm => List.mem_singleton.mp hm ▸ Api.readsFrom hf (.inl rfl) (by simp)
  have raw : ∀ {isConst : Bool}, ∀ call ∈ (readPointer isConst (valueType spelling) place index).calls,
      call.ReadsFrom index n n' := by
    intro isConst call hm
    cases isConst with
    | true =>
      simp only [readPointer, Line.calls, Expr.calls, Cond.calls, if_true, List.cons_append,
        List.nil_append, List.mem_cons, List.not_mem_nil, or_false] at hm
      rcases hm with rfl | rfl | rfl <;> exact Api.readsFrom (by decide) (.inl rfl) (by simp)
    | false => exact List.mem_singleton.mp hm ▸ Api.readsFrom (by decide) (.inl rfl) (by simp)
  unfold readLine? at hl
  split at hl <;> cases hl
  · exact fun call hm => List.mem_singleton.mp hm ▸ Api.readsFrom (by decide) (.inl rfl) (by simp)
  iterate 4 exact cast (by cases mode <;> decide)
  · split
    · intro call hm
      rw [List.mem_singleton.mp hm]
      refine ⟨rfl, fun i hi => ?_⟩
      simp only [Support.on, List.mem_cons, Arg.at.injEq, reduceCtorEq, false_or, or_false,
        List.not_mem_nil] at hi
      exact .inl hi
    · exact cast (by decide)
  iterate 2 exact raw
  iterate 2 exact fun call hm => absurd hm List.not_mem_nil

theorem readBound_readsFrom (ctx : Context) (name : String) (place : Place) (mode : ReadMode) :
    ∀ call ∈ (readBound ctx name place index mode).calls, call.ReadsFrom index n n' := by
  have convert : Call.ReadsFrom index n n' ⟨.generated (.converter name),
      [.state, .at index, .addressOf place, .value (.name keepLocal)]⟩ := by
    refine ⟨rfl, fun i hi => ?_⟩
    simp only [List.mem_cons, Arg.at.injEq, reduceCtorEq, false_or, or_false, List.not_mem_nil] at hi
    exact .inl hi
  intro call hm
  cases mode with
  | checked =>
    rcases List.mem_cons.mp hm with rfl | hm
    · exact convert
    · exact List.mem_singleton.mp hm ▸ Api.readsFrom (by decide) (.inl rfl) (by simp)
  | lenient => exact List.mem_singleton.mp hm ▸ convert

theorem copyUserdata_readsFrom (ctx : Context) (name : String) (place : Place) (mode : ReadMode)
    (pointer : String) :
    (Code.ofLines (copyUserdata ctx name place index mode pointer)).All
      (Call.ReadsFrom index n n') := by
  refine .line (fun call hm => ?_) (.line (fun call hm => absurd hm List.not_mem_nil) .done)
  exact List.mem_singleton.mp hm ▸ Api.readsFrom (by cases mode <;> decide) (.inl rfl) (by simp)

theorem tableCode_readsFrom {inside : Code} (hin : inside.All (Call.ReadsFrom index n n'))
    (mode : ReadMode) (hn : n < n') :
    (tableCode mode (temporary n) index inside).All (Call.ReadsFrom index n n') := by
  have held : ∀ {f : Api} {rest : List Arg}, f ≠ .gettop → (∀ j, Arg.at j ∉ rest) →
      (f.on (.at (.held (temporary n)) :: rest)).ReadsFrom index n n' :=
    fun hf hrest => Api.readsFrom hf (.inr (.inr ⟨n, Nat.le_refl n, hn, rfl⟩)) hrest
  refine .block (.line (fun call hm => ?_) ?_) .done
  · exact List.mem_singleton.mp hm ▸ Api.readsFrom (by decide) (.inl rfl) (by simp)
  · cases mode with
    | checked =>
      exact .line (fun call hm => List.mem_singleton.mp hm ▸ held (by decide) (by simp)) hin
    | lenient =>
      exact .branch (fun call hm => List.mem_singleton.mp hm ▸ held (by decide) (by simp)) hin .done .done

theorem popOne_readsFrom : (Code.line popOne .done).All (Call.ReadsFrom index n n') :=
  .line (fun _ hm => List.mem_singleton.mp hm ▸ Api.readsFrom_none (by decide) (by simp)) .done

theorem rangeCode_readsFrom (ctx : Context) (name : String) (range : ByteRange) (place : Place)
    (mode : ReadMode) (pointer length : String) :
    (rangeCode ctx name range place index mode pointer length).All (Call.ReadsFrom index n n') := by
  refine .block (.branch (fun call hm => ?_) ?_ (copyUserdata_readsFrom ctx name place mode pointer)
    .done) .done
  · exact List.mem_singleton.mp hm ▸ Api.readsFrom (by decide) (.inl rfl) (by simp)
  · refine .line (fun call hm => absurd hm List.not_mem_nil)
      (.line (fun call hm => ?_) (.line (fun call hm => absurd hm List.not_mem_nil) .done))
    exact List.mem_singleton.mp hm ▸ Api.readsFrom (by decide) (.inl rfl) (by simp)

end

theorem Reads.le {ctx : Context} {m : Memo} {job : ReadJob} {n n' : Nat} {code : Code}
    (h : Reads ctx m job n code n') : n ≤ n' := by
  induction h with
  | oneLine _ _ | bound _ _ _ | nil => exact Nat.le_refl _
  | foreign _ _ _ _ => exact Nat.le_add_right _ 1
  | foreignRange _ _ _ _ => exact Nat.le_add_right _ 2
  | array _ _ _ ih => omega
  | tupleValue _ _ ih => exact ih
  | tuple _ _ ih => omega
  | cons _ _ ih ih' => exact Nat.le_trans ih ih'

/-- **Code that reads takes nothing from anywhere but where it was told to.** -/
theorem Reads.readsFrom {ctx : Context} {m : Memo} {job : ReadJob} {n n' : Nat} {code : Code}
    (h : Reads ctx m job n code n') : code.All (Call.ReadsFrom job.index n n') := by
  induction h with
  | oneLine _ hl => exact .line (readLine?_readsFrom hl) .done
  | bound _ _ _ => exact .line (readBound_readsFrom _ _ _ _) .done
  | foreign _ _ _ _ => exact .block (copyUserdata_readsFrom _ _ _ _ _) .done
  | foreignRange _ _ _ _ => exact rangeCode_readsFrom _ _ _ _ _ _ _
  | @array _ _ _ index _ size _ n _ n' _ _ inside ih =>
    have hn := inside.le
    -- what an element's code takes from the top stands inside the array's own loop
    have hin : Code.All (Call.ReadsFrom index n n') _ := ih.mono fun c hc => hc.widen (.inr (.inl rfl))
      (show n ≤ n + 2 by omega) (Nat.le_refl n')
    refine tableCode_readsFrom (.block (.line (fun call hm => ?_) (.branch (fun call hm => ?_) hin .done
      popOne_readsFrom)) .done) _ (by omega)
    · exact List.mem_singleton.mp hm ▸
        Api.readsFrom (by decide) (.inr (.inr ⟨n, Nat.le_refl n, by omega, rfl⟩)) (by simp)
    · exact List.mem_singleton.mp hm ▸ Api.readsFrom (by decide) (.inr (.inl rfl)) (by simp)
  | tupleValue _ _ ih => exact ih
  | @tuple _ _ _ _ _ n _ n' _ inside ih =>
    have hn := inside.le
    refine tableCode_readsFrom (ih.mono fun c hc => ?_) _ (by omega)
    exact hc.widen (.inr (.inr ⟨n, Nat.le_refl n, by omega, rfl⟩)) (by omega) (Nat.le_refl n')
  | nil => exact .done
  | cons head tail ih ih' =>
    have hhead := head.le
    have htail := tail.le
    refine .append (.line (fun call hm => ?_) (.append ?_ popOne_readsFrom)) ?_
    · exact List.mem_singleton.mp hm ▸ Api.readsFrom (by decide) (.inl rfl) (by simp)
    · exact ih.mono fun c hc => hc.widen (.inr (.inl rfl)) (Nat.le_refl _) htail
    · exact ih'.mono fun c hc => hc.widen (.inl rfl) hhead (Nat.le_refl _)

/-- The code mentions a position, or marks a gap instead. -/
def Code.Touches (index : StackIndex) (code : Code) : Prop :=
  (∃ c ∈ code.calls, Arg.at index ∈ c.args) ∨ 0 < code.placeholders

theorem tableCode_touches (mode : ReadMode) (table : String) (index : StackIndex) (inside : Code) :
    (tableCode mode table index inside).Touches index :=
  .inl ⟨Api.absindex.on [.at index], List.mem_cons_self, by simp [Api.on]⟩

theorem copyUserdata_touches (ctx : Context) (name : String) (place : Place) (index : StackIndex)
    (mode : ReadMode) (pointer : String) :
    (Code.blockOf .bare (.ofLines (copyUserdata ctx name place index mode pointer))).Touches index :=
  .inl ⟨_, List.mem_cons_self, by simp [Api.on]⟩

theorem readPointer_touches (isConst : Bool) (type : String) (place : Place) (index : StackIndex) :
    (Code.line (readPointer isConst type place index) .done).Touches index := by
  cases isConst <;> exact .inl ⟨_, List.mem_cons_self, by simp [Api.on]⟩

/-- A value that is read is taken from where it is, unless it cannot cross the boundary. -/
theorem Reads.touches {ctx : Context} {m : Memo} {mode : ReadMode} {spelling : String}
    {place : Place} {index : StackIndex} {n n' : Nat} {code : Code}
    (h : Reads ctx m (.value mode spelling place index) n code n') : code.Touches index := by
  cases h with
  | @oneLine _ _ _ _ c l _ hc hl =>
    have at_index {f : Api} {rest : List Arg} {call : Call} (hcall : call = f.on (.at index :: rest)) :
        Arg.at index ∈ call.args := by simp [hcall, Api.on]
    unfold readLine? at hl
    split at hl <;> cases hl
    · exact .inl ⟨_, List.mem_cons_self, at_index rfl⟩
    iterate 4 exact .inl ⟨_, List.mem_cons_self, at_index rfl⟩
    · split
      · exact .inl ⟨_, List.mem_cons_self, by simp [Support.on]⟩
      · exact .inl ⟨_, List.mem_cons_self, at_index rfl⟩
    iterate 2 exact readPointer_touches _ _ _ _
    iterate 2 exact .inr Nat.one_pos
  | bound _ _ _ =>
    cases mode <;> exact .inl ⟨_, List.mem_cons_self, by simp⟩
  | foreign _ _ _ _ => exact copyUserdata_touches _ _ _ _ _ _
  | foreignRange _ _ _ _ => exact .inl ⟨_, List.mem_cons_self, by simp [Api.on]⟩
  | array _ _ _ => exact tableCode_touches _ _ _ _
  | tupleValue _ inside =>
    cases inside with
    | tuple _ _ => exact tableCode_touches _ _ _ _

/-! ## Pushing -/

/-- The functions of the API that pushing makes use of. -/
def Api.isPushing : Api → Bool
  | .pushboolean | .pushinteger | .pushnumber | .pushstring | .pushnil | .pushlightuserdata
  | .newuserdata | .setmetatable | .createtable | .rawseti => true
  | _ => false

/-- A call of such a function. -/
def Call.isPushing (c : Call) : Bool :=
  match c.callee with
  | .api f => f.isPushing
  | _ => false

theorem Call.isApi_of_isPushing {c : Call} (h : c.isPushing = true) : c.isApi = true := by
  obtain ⟨callee, args⟩ := c
  cases callee with
  | api f => cases f <;> first | rfl | cases h
  | _ => cases h

theorem Call.not_pcall_of_isPushing {c : Call} (h : c.isPushing = true) : c.callee ≠ .api .pcall := by
  rintro hc
  rw [Call.isPushing, hc] at h
  cases h

theorem pushLines?_pushing {spelling : String} {source : Place} {c : Category} {ls : List Line}
    (hl : pushLines? spelling source c = some ls) :
    (Code.ofLines ls).All fun c => c.isPushing = true := by
  unfold pushLines? at hl
  split at hl <;> cases hl <;>
    exact .ofLines (by simp [Line.calls, pushNil, Api.on, Call.isPushing, Api.isPushing])

theorem copyCode_pushing (ctx : Context) (name : String) (source : Place) (copy : String) :
    (copyCode ctx name source copy).All fun c => c.isPushing = true :=
  .block (.ofLines (by simp [Line.calls, Expr.calls, Api.on, Call.isPushing, Api.isPushing])) .done

theorem unlessNullCode_pushing {some : Code} (h : some.All fun c => c.isPushing = true)
    (ctx : Context) (pointer : Local) {source : Expr} (hs : source.calls = []) :
    (unlessNullCode ctx pointer source some).All fun c => c.isPushing = true :=
  .block (.line (by simp [Line.calls, hs])
    (.branch (by simp [Cond.calls]) h
      (.line (by simp [Line.calls, pushNil, Api.on, Call.isPushing, Api.isPushing]) .done) .done)) .done

/-- **Code that pushes calls nothing but the functions of the API that push.** -/
theorem Pushes.pushing {ctx : Context} {m : Memo} {job : PushJob} {n n' : Nat} {code : Code}
    (h : Pushes ctx m job n code n') : code.All fun c => c.isPushing = true := by
  have call : ∀ {f : Api} {args : List Arg}, f.isPushing = true →
      ∀ c ∈ (Line.call (f.on args)).calls, c.isPushing = true :=
    fun hf _ hm => List.mem_singleton.mp hm ▸ hf
  induction h with
  | direct _ hl => exact pushLines?_pushing hl
  | copy _ _ => exact copyCode_pushing _ _ _ _
  | pointerTuple _ _ ih => exact unlessNullCode_pushing ih _ _ rfl
  | pointerCopy _ _ => exact unlessNullCode_pushing (copyCode_pushing _ _ _ _) _ _ rfl
  | pointerLight _ _ | rawPointer _ _ =>
    exact unlessNullCode_pushing (.line (call rfl) .done) _ _ rfl
  | array _ _ _ ih => exact .line (call rfl) (.block (.append ih (.line (call rfl) .done)) .done)
  | tupleValue _ _ ih => exact ih
  | tuple _ _ ih =>
    exact .block (.line (fun _ hm => absurd hm List.not_mem_nil) (.line (call rfl) ih)) .done
  | nil => exact .done
  | cons _ _ ih ih' => exact .append ih (.line (call rfl) ih')

/-- **Code that pushes calls nothing but the API.** -/
theorem Pushes.api {ctx : Context} {m : Memo} {job : PushJob} {n n' : Nat} {code : Code}
    (h : Pushes ctx m job n code n') : code.All fun c => c.isApi = true :=
  h.pushing.mono fun _ => Call.isApi_of_isPushing

end LuaGlue
