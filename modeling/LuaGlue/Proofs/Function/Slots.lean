import LuaGlue.Proofs.Function.UnitCode
import LuaGlue.Proofs.Marshal.Balance
import LuaGlue.Proofs.Marshal.Positions

/-!
# Arguments and their slots

A unit takes its value from its own slot and leaves the stack as it found it, so that the slots of
the units after it are where they were. What it contributes to the wrapper is named after its
parameters: the argument after the first of them, the native arguments after all of them, and the
output, which it has if and only if it is one, after itself.
-/

set_option autoImplicit false

namespace LuaGlue

/-- What holds of the code of an argument, apart from that it mentions the slot at all. -/
structure SlotCode (slot n n' : Nat) (code : Code) : Prop where
  le : n ≤ n'
  calls : code.All (Call.ReadsFrom (.slot slot) n n')
  climbs : code.Climbs (Above 0) 0 0

namespace SlotCode

variable {slot n n' n'' : Nat} {a b code : Code}

theorem append (ha : SlotCode slot n n' a) (hb : SlotCode slot n' n'' b) :
    SlotCode slot n n'' (a ++ b) where
  le := Nat.le_trans ha.le hb.le
  calls := .append
    (ha.calls.mono fun _ hc => hc.widen (.inl rfl) (Nat.le_refl n) hb.le)
    (hb.calls.mono fun _ hc => hc.widen (.inl rfl) ha.le (Nat.le_refl n''))
  climbs := ha.climbs.append hb.climbs

/-- A line that calls nothing. -/
theorem line {l : Line} (hl : l.calls = []) (hs : l.Still 0) (h : SlotCode slot n n' code) :
    SlotCode slot n n' (.line l code) where
  le := h.le
  calls := .line (by simp [hl]) h.calls
  climbs := .still hs (Int.le_refl 0) h.climbs

/-- A line that makes one call, of the API and about the slot. -/
theorem lineAt {l : Line} {f : Api} {rest : List Arg} (hf : f ≠ .gettop) (hl : l.calls = [f.on (.at (.slot slot) :: rest)])
    (hrest : ∀ i, Arg.at i ∉ rest) (hs : l.Still 0) (h : SlotCode slot n n' code) :
    SlotCode slot n n' (.line l code) where
  le := h.le
  calls := .line (by simpa [hl] using Api.readsFrom hf (.inl rfl) hrest) h.calls
  climbs := .still hs (Int.le_refl 0) h.climbs

theorem done (h : n ≤ n') : SlotCode slot n n' .done := ⟨h, .done, .done⟩

/-- A branch on a question about the slot. -/
theorem branch {c : Cond} {f : Api} (hg : f ≠ .gettop) (hc : c.calls = [f.on [.at (.slot slot)]])
    (hf : (f.on [.at (.slot slot)]).effect = 0) (ha : SlotCode slot n n' a)
    (hb : SlotCode slot n n' b) : SlotCode slot n n' (.branch c a b .done) where
  le := ha.le
  calls := .branch (by simpa [hc] using Api.readsFrom hg (.inl rfl) (by simp)) ha.calls hb.calls .done
  climbs := by
    refine .branchStill ?_ (Int.le_refl 0) ha.climbs hb.climbs .done
    intro call hm
    rw [hc, List.mem_singleton] at hm
    exact hm ▸ Api.on_still_at hf (by simp) (Int.le_refl 0)

theorem guarded {optional : Bool} (h : SlotCode slot n n' code) :
    SlotCode slot n n' (guardedCode optional slot code) := by
  cases optional with
  | true => exact branch (by decide) rfl rfl h (done h.le)
  | false => exact h

end SlotCode

variable {ctx : Context} {m : Memo} {slot n n' : Nat} {code : Code}

theorem Reads.slotCode {mode : ReadMode} {spelling : String} {place : Place}
    (h : Reads ctx m (.value mode spelling place (.slot slot)) n code n') : SlotCode slot n n' code :=
  ⟨h.le, h.readsFrom, h.climbs (Int.le_refl 0) (Int.le_refl 0)⟩

theorem BufferReads.slotCode {elem target : String} {count : Option CountTarget}
    (h : BufferReads ctx m elem slot target count n code n') : SlotCode slot n n' code := by
  cases h with
  | elements inside =>
    have hle := inside.le
    have hlater : ∀ l ∈ bufferResults (temporary n) (temporary (n + 1)) target count,
        l.calls = [] ∧ l.Still 0 := by
      intro l hl
      cases count with
      | none => rw [List.mem_singleton.mp hl]; exact ⟨rfl, .assign (.value _)⟩
      | some c =>
        rcases List.mem_cons.mp hl with rfl | hl
        · exact ⟨rfl, .assign (.value _)⟩
        · rw [List.mem_singleton.mp hl]; exact ⟨rfl, .assign (.cast (.value _))⟩
    refine ⟨by omega, ?_, ?_⟩
    · refine .append (.ofLines fun l hl c hc => ?_) (.block (.line (fun c hc => ?_) (.append
        (inside.readsFrom.mono fun c hc => hc.widen (.inr (.inl rfl)) (by omega) (Nat.le_refl n'))
        popOne_readsFrom)) (.ofLines fun l hl c hc => ?_))
      · simp only [bufferLines, List.mem_cons, List.not_mem_nil, or_false] at hl
        rcases hl with rfl | rfl | rfl | rfl <;> rw [List.mem_singleton.mp hc]
        · exact Api.readsFrom (by decide) (.inl rfl) (by simp)
        · exact Api.readsFrom_none (by decide) (by simp)
        · exact ⟨rfl, by simp [Support.on]⟩
        · exact ⟨rfl, by simp⟩
      · exact List.mem_singleton.mp hc ▸ Api.readsFrom (by decide) (.inl rfl) (by simp)
      · rw [(hlater l hl).1] at hc
        exact absurd hc List.not_mem_nil
    -- the buffer is on the stack only until it is in the keep table
    · have hcreate : ∀ {x : Local} {type : String} {args : List Arg}, (∀ i, Arg.at i ∉ args) →
          ∀ r ∈ (Line.declare x (.cast type (.call (Api.newuserdata.on args)))).runs,
            r.Climbs (Above 0) 0 1 :=
        fun hargs r hr => List.mem_singleton.mp hr ▸ .call (pushes_above rfl hargs) rfl
      have hkeep : Above 0 1 (Support.keep.on [.value (.name keepLocal)]) :=
        ⟨by decide, by simp [Support.on]⟩
      have hget : Above 0 0
          (Api.rawgeti.on [.at (.slot slot), .succ ("(lua_Integer)" ++ temporary (n + 2))]) := by
        refine ⟨show (0 : Int) ≤ 0 + 1 by decide, fun i hm => ?_⟩
        simp only [Api.on, List.mem_cons, Arg.at.injEq, reduceCtorEq, false_or, or_false,
          List.not_mem_nil] at hm
        exact hm ▸ Int.le_refl 0
      have hin := inside.climbs (h := 1) (by decide) (show (1 : Int) ≤ 1 by decide)
      refine .append (.still (.declare (.call (Api.on_still_at rfl (by simp) (Int.le_refl 0))))
        (Int.le_refl 0) (.line (hcreate (by simp)) (.call hkeep rfl
          (.still (.call ⟨rfl, by simp⟩) (Int.le_refl 0) .done)))) (.loop rfl ?_ ?_)
      · exact .call hget rfl (.append (hin.lower (by decide)) (.call pop_above rfl .done))
      · exact .ofLines (fun l hl => (hlater l hl).2) (Int.le_refl 0)

/-- **The code of a unit takes its value from the unit's slot**, and is balanced. -/
theorem UnitReads.slotCode {u : ParamUnit} {r : UnitCode} (h : UnitReads ctx m slot u n code n' r) :
    SlotCode slot n n' code := by
  have cast {f : Api} (hg : f ≠ .gettop) (hf : ∀ args, (f.on args).effect = 0) {type : String} {place : Place}
      (hle : n ≤ n') : SlotCode slot n n' (.line (assignCast f type place (.slot slot)) .done) :=
    .lineAt hg rfl (by simp) (assignCast_still hf _ _ (Int.le_refl 0)) (.done hle)
  cases h with
  | output _ _ inside =>
    refine .line rfl (.declare (.text _)) ?_
    split
    · refine .line rfl (.declare (.text _)) (.branch (by decide) rfl rfl ?_ (.done inside.le))
      exact .line rfl (.assign (.address _)) inside.slotCode
    · exact .line rfl (.declare (.address _)) (.branch (by decide) rfl rfl inside.slotCode (.done inside.le))
  | constPointer _ _ inside =>
    have hbuffer := inside.slotCode
    refine .line rfl (.declare (.text _)) (.branch (by decide) rfl rfl hbuffer ?_)
    exact .branch (by decide) rfl rfl (cast (by decide) (fun _ => rfl) hbuffer.le) (cast (by decide) (fun _ => rfl) hbuffer.le)
  | constStruct _ _ inside =>
    refine .line rfl (.declare (.text _)) (.line rfl (.declare (.text _))
      (.branch (by decide) rfl rfl (cast (by decide) (fun _ => rfl) inside.le) (.branch (by decide) rfl rfl ?_ (.done inside.le))))
    exact inside.slotCode.append (.line rfl (.assign (.address _)) (.done (Nat.le_refl _)))
  | gap _ =>
    exact .line rfl (.of_runs rfl) (.line rfl (.declare (.text _)) (.done (Nat.le_refl n)))
  | plain _ inside => exact .line rfl (.declare (.text _)) inside.slotCode.guarded
  | @arrayCount array count _ _ _ _ _ _ inside =>
    have hcheck : SlotCode slot n n'
        (.line (.call (Api.checktype.on [.at (.slot slot), .text "LUA_TTABLE"])) _) :=
      .lineAt (by decide) rfl (by simp) (.call (Api.on_still_at rfl (by simp) (Int.le_refl 0))) inside.slotCode
    refine .line rfl (.declare (.text _)) (.line rfl (.declare (.text _)) ?_)
    split
    · exact .branch (by decide) rfl rfl hcheck (.done hcheck.le)
    · exact ⟨hcheck.le, .block hcheck.calls .done, .block rfl hcheck.climbs .done⟩
  | fixedArray _ inside => exact .line rfl (.declare (.text _)) inside.slotCode.guarded

/-! ## The slot is touched -/

theorem Code.Touches.line {index : StackIndex} {l : Line} {next : Code} (h : next.Touches index) :
    (Code.line l next).Touches index := by
  rcases h with ⟨c, hc, hm⟩ | h
  · exact .inl ⟨c, List.mem_append_right _ hc, hm⟩
  · refine .inr (Nat.lt_of_lt_of_le h ?_)
    cases l <;> simp [Code.placeholders]

theorem Code.Touches.branch {index : StackIndex} {c : Cond} {f : Api} {yes no next : Code}
    (hc : c.calls = [f.on [.at index]]) : (Code.branch c yes no next).Touches index :=
  .inl ⟨f.on [.at index], List.mem_append_left _ (by simp [hc]), by simp [Api.on]⟩

theorem Code.Touches.guarded {optional : Bool} (h : code.Touches (.slot slot)) :
    (guardedCode optional slot code).Touches (.slot slot) := by
  cases optional with
  | true => exact .branch rfl
  | false => exact h

/-- A unit does take its value from its slot, unless the value cannot cross the boundary. -/
theorem UnitReads.touches {u : ParamUnit} {r : UnitCode} (h : UnitReads ctx m slot u n code n' r) :
    code.Touches (.slot slot) := by
  cases h with
  | output _ _ _ =>
    refine .line ?_
    split <;> exact .line (.branch rfl)
  | constPointer _ _ _ => exact .line (.branch rfl)
  | constStruct _ _ _ => exact .line (.line (.branch rfl))
  | gap _ => exact .inr Nat.one_pos
  | plain _ inside => exact .line inside.touches.guarded
  | arrayCount _ _ =>
    refine .line (.line ?_)
    split
    · exact .branch rfl
    · exact .inl ⟨_, List.mem_cons_self, by simp [Api.on]⟩
  | fixedArray _ inside => exact .line inside.touches.guarded

/-! ## What a unit contributes -/

theorem UnitReads.arg_name {u : ParamUnit} {r : UnitCode} (h : UnitReads ctx m slot u n code n' r) :
    r.arg.name = u.param.name := by
  cases h <;> rfl

theorem UnitReads.nativeArgs_eq {u : ParamUnit} {r : UnitCode}
    (h : UnitReads ctx m slot u n code n' r) : r.nativeArgs = u.params.map Param.localName := by
  cases h <;> rfl

theorem UnitReads.output_param {u : ParamUnit} {r : UnitCode}
    (h : UnitReads ctx m slot u n code n' r) :
    r.output.map (·.param) = if u.isOutput then some u.param.name else none := by
  cases h with
  | fixedArray _ _ => simp only [ParamUnit.isOutput, apply_ite]; rfl
  | _ => rfl

end LuaGlue
