import LuaGlue.Proofs.Code.Stack
import LuaGlue.Proofs.Marshal.PushCode
import LuaGlue.Proofs.Marshal.ReadCode

/-!
# Marshaling balances the stack

Pushing leaves one value on the stack and reading leaves none, on every path and however deep arrays
and tuples are nested. Both are inductions over the rules for what is written, `Pushes` and `Reads`.

The inductions carry the height along that the code begins at, because a part of a value is pushed
or read on top of what has been fetched or created for the whole.
-/

set_option autoImplicit false

namespace LuaGlue

variable {h : Int}

/-! ## Calls that look at one position -/

theorem Api.on_still {f : Api} {args : List Arg} (hf : (f.on args).effect = 0)
    (hargs : ∀ i, Arg.at i ∈ args → i.depth ≤ h) : (f.on args).Still h :=
  ⟨hf, fun i hi => hargs i (by simpa [Api.on] using hi)⟩

/-- A call whose arguments mention `index` and no other position. -/
theorem Api.on_still_at {f : Api} {index : StackIndex} {rest : List Arg}
    (hf : (f.on (.at index :: rest)).effect = 0) (hrest : ∀ i, Arg.at i ∉ rest)
    (hi : index.depth ≤ h) : (f.on (.at index :: rest)).Still h :=
  Api.on_still hf fun i hm => (List.mem_cons.mp hm).elim
    (fun heq => by rw [Arg.at.inj heq]; exact hi) (fun hm => absurd hm (hrest i))

/-! ## Reading -/

theorem assignCast_still {f : Api} (hf : ∀ args, (f.on args).effect = 0) (type : String)
    (place : Place) {index : StackIndex} (hi : index.depth ≤ h) :
    (assignCast f type place index).Still h :=
  .assign (.cast (.call (Api.on_still_at (hf _) (by simp) hi)))

theorem readPointer_still (isConst : Bool) (type : String) (place : Place) {index : StackIndex}
    (hi : index.depth ≤ h) : (readPointer isConst type place index).Still h := by
  have raw : ∀ {f : Api}, (f.on [.at index]).effect = 0 →
      (Expr.cast type (.call (f.on [.at index]))).Still h :=
    fun hf => .cast (.call (Api.on_still_at hf (by simp) hi))
  cases isConst with
  | true =>
    refine .assign (.choose ?_ (raw rfl) (raw rfl))
    intro call hm
    rw [List.mem_singleton.mp hm]
    exact Api.on_still_at rfl (by simp) hi
  | false => exact .assign (raw rfl)

theorem readLine?_still {ctx : Context} {mode : ReadMode} {spelling : String} {place : Place}
    {index : StackIndex} {c : Category} {l : Line}
    (hl : readLine? ctx mode spelling place index c = some l) (hi : index.depth ≤ h) : l.Still h := by
  unfold readLine? at hl
  split at hl <;> cases hl
  · exact .assign (.call (Api.on_still_at rfl (by simp) hi))
  · cases mode <;> exact assignCast_still (fun _ => rfl) _ _ hi
  · cases mode <;> exact assignCast_still (fun _ => rfl) _ _ hi
  · cases mode <;> exact assignCast_still (fun _ => rfl) _ _ hi
  · cases mode <;> exact assignCast_still (fun _ => rfl) _ _ hi
  · split
    · refine .assign (.cast (.call ⟨rfl, fun i hm => ?_⟩))
      simp only [Support.on, List.mem_cons, Arg.at.injEq, reduceCtorEq, false_or, or_false,
        List.not_mem_nil] at hm
      exact hm ▸ hi
    · exact assignCast_still (fun _ => rfl) _ _ hi
  · exact readPointer_still _ _ _ hi
  · exact readPointer_still _ _ _ hi
  · exact .of_runs rfl
  · exact .of_runs rfl

theorem readBound_still (ctx : Context) (name : String) (place : Place) {index : StackIndex}
    (mode : ReadMode) (hi : index.depth ≤ h) : (readBound ctx name place index mode).Still h := by
  have convert : Call.Still h ⟨.generated (.converter name),
      [.state, .at index, .addressOf place, .value (.name keepLocal)]⟩ := by
    refine ⟨rfl, fun i hm => ?_⟩
    simp only [List.mem_cons, Arg.at.injEq, reduceCtorEq, false_or, or_false, List.not_mem_nil] at hm
    exact hm ▸ hi
  cases mode with
  | checked =>
    refine .onlyIf (fun call hm => ?_) (.call (Api.on_still_at rfl (by simp) hi))
    exact List.mem_singleton.mp hm ▸ convert
  | lenient => exact .discard convert

theorem copyUserdata_still (ctx : Context) (name : String) (place : Place) {index : StackIndex}
    (mode : ReadMode) (pointer : String) (hi : index.depth ≤ h) :
    ∀ l ∈ copyUserdata ctx name place index mode pointer, l.Still h := by
  intro l hl
  simp only [copyUserdata, List.mem_cons, List.not_mem_nil, or_false] at hl
  rcases hl with rfl | rfl
  · cases mode <;> exact .declare (.cast (.call (Api.on_still_at rfl (by simp) hi)))
  · exact .onlyIf (by simp [Cond.Still, Cond.calls]) (.assign (.value _))

theorem isString_still {index : StackIndex} (hi : index.depth ≤ h) : (Cond.isString index).Still h :=
  fun _ hm => List.mem_singleton.mp hm ▸ Api.on_still_at rfl (by simp) hi

theorem tableCode_climbs {inside : Code} (hin : inside.Climbs (Above h) h h) (mode : ReadMode)
    (table : String) {index : StackIndex} (hi : index.depth ≤ h) (h₀ : 0 ≤ h) :
    (tableCode mode table index inside).Climbs (Above h) h h := by
  have held : (StackIndex.held table).depth ≤ h := h₀
  refine .block rfl (.still (.declare (.call (Api.on_still_at rfl (by simp) hi))) (Int.le_refl h) ?_)
    .done
  cases mode with
  | checked => exact .still (.call (Api.on_still_at rfl (by simp) held)) (Int.le_refl h) hin
  | lenient =>
    refine .branchStill (fun _ hm => ?_) (Int.le_refl h) hin .done .done
    exact List.mem_singleton.mp hm ▸ Api.on_still_at rfl (by simp) held

/-- Fetching an element, and taking it off again. -/
theorem rawgeti_above {table : String} {position : Arg} (hp : ∀ i, Arg.at i ≠ position)
    (h₀ : 0 ≤ h) : Above h h (Api.rawgeti.on [.at (.held table), position]) := by
  refine ⟨show h ≤ h + 1 by omega, fun i hm => ?_⟩
  simp only [Api.on, List.mem_cons, Arg.at.injEq, reduceCtorEq, false_or, List.not_mem_nil,
    or_false] at hm
  rcases hm with rfl | hm
  · exact h₀
  · exact absurd hm (hp i)

theorem pop_above : Above h (h + 1) (Api.pop.on [.number 1]) :=
  ⟨show h ≤ h + 1 + -1 by omega, by simp [Api.on]⟩

theorem elementsCode_climbs {inside : Code} (hin : inside.Climbs (Above (h + 1)) (h + 1) (h + 1))
    (table k : String) (size : Nat) (h₀ : 0 ≤ h) :
    (elementsCode table k size inside).Climbs (Above h) h h := by
  refine .loop rfl (.call (rawgeti_above (by simp) h₀) rfl ?_) .done
  refine .branchStill (fun _ hm => ?_) (show h ≤ h + 1 by omega)
    (hin.lower (show h ≤ h + 1 by omega)) .done ?_
  · rw [List.mem_singleton.mp hm]
    exact Api.on_still_at rfl (by simp) (show (1 : Int) ≤ h + 1 by omega)
  · exact .call pop_above (Int.add_neg_cancel_right h 1) .done

theorem memberCode_climbs {inside : Code} (hin : inside.Climbs (Above (h + 1)) (h + 1) (h + 1))
    (table : String) (position : Nat) (h₀ : 0 ≤ h) :
    (memberCode table position inside).Climbs (Above h) h h :=
  .call (rawgeti_above (by simp) h₀) rfl
    (.append (hin.lower (show h ≤ h + 1 by omega))
      (.call pop_above (Int.add_neg_cancel_right h 1) .done))

theorem rangeCode_climbs (ctx : Context) (name : String) (range : ByteRange) (place : Place)
    {index : StackIndex} (mode : ReadMode) (pointer length : String) (hi : index.depth ≤ h) :
    (rangeCode ctx name range place index mode pointer length).Climbs (Above h) h h := by
  refine .block rfl (.branchStill (isString_still hi) (Int.le_refl h) ?_ ?_ .done) .done
  · refine .ofLines (fun l hl => ?_) (Int.le_refl h)
    simp only [List.mem_cons, List.not_mem_nil, or_false] at hl
    rcases hl with rfl | rfl | rfl
    · exact .declare (.text _)
    · exact .assign (.call (Api.on_still_at rfl (by simp) hi))
    · exact .assign (.value _)
  · exact .ofLines (copyUserdata_still ctx name place mode pointer hi) (Int.le_refl h)

/-- Whatever is read at whatever height, the stack is in the end as it was. -/
theorem Reads.climbs {ctx : Context} {m : Memo} {job : ReadJob} {n n' : Nat} {code : Code}
    (hr : Reads ctx m job n code n') :
    ∀ {h : Int}, 0 ≤ h → job.index.depth ≤ h → code.Climbs (Above h) h h := by
  induction hr with
  | oneLine _ hl => intro h _ hi; exact .still (readLine?_still hl hi) (Int.le_refl h) .done
  | bound _ _ _ => intro h _ hi; exact .still (readBound_still _ _ _ _ hi) (Int.le_refl h) .done
  | foreign _ _ _ _ =>
    intro h _ hi
    exact .block rfl (.ofLines (copyUserdata_still _ _ _ _ _ hi) (Int.le_refl h)) .done
  | foreignRange _ _ _ _ => intro h _ hi; exact rangeCode_climbs _ _ _ _ _ _ _ hi
  | array _ _ _ ih =>
    intro h h₀ hi
    -- an element is read off the top, one higher than the table
    have hin := ih (h := h + 1) (by omega) (show (1 : Int) ≤ h + 1 by omega)
    exact tableCode_climbs (elementsCode_climbs hin _ _ _ h₀) _ _ hi h₀
  | tupleValue _ _ ih => exact ih
  | tuple _ _ ih => intro h h₀ hi; exact tableCode_climbs (ih h₀ h₀) _ _ hi h₀
  | nil => intro h _ _; exact .done
  | cons _ _ ih ih' =>
    intro h h₀ hi
    have hin := ih (h := h + 1) (by omega) (show (1 : Int) ≤ h + 1 by omega)
    exact (memberCode_climbs hin _ _ h₀).append (ih' h₀ h₀)

/-! ## Pushing -/

/-- A call that pushes a value. -/
theorem pushes_above {f : Api} {args : List Arg} (he : (f.on args).effect = 1)
    (hargs : ∀ i, Arg.at i ∉ args) : Above h h (f.on args) :=
  ⟨by rw [he]; omega, fun i hm => absurd (by simpa [Api.on] using hm) (hargs i)⟩

theorem pushes_climbs {f : Api} {args : List Arg} {next : Code} {h' : Int}
    (he : (f.on args).effect = 1) (hargs : ∀ i, Arg.at i ∉ args)
    (hn : next.Climbs (Above h) (h + 1) h') :
    (Code.line (.call (f.on args)) next).Climbs (Above h) h h' :=
  .call (pushes_above he hargs) (by rw [he]) hn

theorem pushNil_climbs : (Code.line pushNil .done).Climbs (Above h) h (h + 1) :=
  pushes_climbs rfl (by simp) .done

/-- The value on top goes into the table below it. -/
theorem rawseti_climbs {position : Arg} {next : Code} {h' : Int} (hp : ∀ i, Arg.at i ≠ position)
    (h₀ : 0 ≤ h) (hn : next.Climbs (Above h) (h + 1) h') :
    (Code.line (.call (Api.rawseti.on [.at .belowTop, position])) next).Climbs (Above h)
      (h + 1 + 1) h' := by
  refine .call ⟨show h ≤ h + 1 + 1 + -1 by omega, fun i hm => ?_⟩
    (Int.add_neg_cancel_right (h + 1) 1) hn
  simp only [Api.on, List.mem_cons, Arg.at.injEq, reduceCtorEq, false_or, List.not_mem_nil,
    or_false] at hm
  rcases hm with rfl | hm
  · exact show (2 : Int) ≤ h + 1 + 1 by omega
  · exact absurd hm (hp i)

theorem pushLines?_climbs {spelling : String} {source : Place} {c : Category} {ls : List Line}
    (hl : pushLines? spelling source c = some ls) :
    (Code.ofLines ls).Climbs (Above h) h (h + 1) := by
  unfold pushLines? at hl
  split at hl <;> cases hl
  iterate 5 exact pushes_climbs rfl (by simp) .done
  iterate 2 exact .still (.of_runs rfl) (Int.le_refl h) pushNil_climbs

theorem copyCode_climbs (ctx : Context) (name : String) (source : Place) (copy : String) :
    (copyCode ctx name source copy).Climbs (Above h) h (h + 1) := by
  have create : ∀ r ∈ (Line.declare (.plain (name ++ "*") copy) (.cast (name ++ "*")
      (.call (Api.newuserdata.on [.sizeof name, .text "TETHER_UV_COUNT"])))).runs,
      r.Climbs (Above h) h (h + 1) :=
    fun r hr => List.mem_singleton.mp hr ▸ .call (pushes_above rfl (by simp)) rfl
  refine .block rfl (.line create (.still (.assign (.value _)) (by omega) ?_)) .done
  exact .still (.call (Api.on_still rfl (by simp))) (by omega) .done

theorem unlessNullCode_climbs {some : Code} (hs : some.Climbs (Above h) h (h + 1)) (ctx : Context)
    (pointer : Local) {source : Expr} (he : source.Still h) :
    (unlessNullCode ctx pointer source some).Climbs (Above h) h (h + 1) :=
  .block rfl
    (.still (.declare he) (Int.le_refl h)
      (.branchStill (by simp [Cond.Still, Cond.calls]) (Int.le_refl h) hs pushNil_climbs .done))
    .done

theorem arrayCode_climbs {inside : Code}
    (hin : inside.Climbs (Above (h + 1)) (h + 1) (h + 1 + 1)) (k : String) (size : Nat) (h₀ : 0 ≤ h) :
    (arrayCode k size inside).Climbs (Above h) h (h + 1) := by
  refine pushes_climbs rfl (by simp) (.loop rfl ?_ .done)
  exact (hin.lower (show h ≤ h + 1 by omega)).append (rawseti_climbs (by simp) h₀ .done)

theorem tupleCode_climbs {inside : Code} (hin : inside.Climbs (Above h) (h + 1) (h + 1))
    (name value : String) (source : Place) (size : Nat) :
    (tupleCode name value source size inside).Climbs (Above h) h (h + 1) :=
  .block rfl (.still (.declare (.value _)) (Int.le_refl h) (pushes_climbs rfl (by simp) hin)) .done

/-- How many values a job has on the stack already: members go into the table on top. -/
def PushJob.base : PushJob → Int
  | .value .. | .tuple .. => 0
  | .members .. => 1

/-- Whatever is pushed at whatever height, it is one value; the members of a tuple leave their
table. -/
theorem Pushes.climbs {ctx : Context} {m : Memo} {job : PushJob} {n n' : Nat} {code : Code}
    (hp : Pushes ctx m job n code n') :
    ∀ {h : Int}, 0 ≤ h → code.Climbs (Above h) (h + job.base) (h + 1) := by
  have zero : ∀ {h : Int} {code : Code}, code.Climbs (Above h) h (h + 1) →
      code.Climbs (Above h) (h + 0) (h + 1) := fun hc => by rwa [Int.add_zero]
  have zero' : ∀ {h : Int} {code : Code}, code.Climbs (Above h) (h + 0) (h + 1) →
      code.Climbs (Above h) h (h + 1) := fun {h} _ hc => by rwa [Int.add_zero] at hc
  induction hp with
  | direct _ hl => intro h _; exact zero (pushLines?_climbs hl)
  | copy _ _ => intro h _; exact zero (copyCode_climbs _ _ _ _)
  | pointerTuple _ _ ih =>
    intro h h₀; exact zero (unlessNullCode_climbs (zero' (ih h₀)) _ _ (.value _))
  | pointerCopy _ _ =>
    intro h _; exact zero (unlessNullCode_climbs (copyCode_climbs _ _ _ _) _ _ (.value _))
  | pointerLight _ _ =>
    intro h _
    exact zero (unlessNullCode_climbs (pushes_climbs rfl (by simp) .done) _ _ (.value _))
  | rawPointer _ _ =>
    intro h _
    exact zero (unlessNullCode_climbs (pushes_climbs rfl (by simp) .done) _ _ (.cast (.value _)))
  | array _ _ _ ih =>
    intro h h₀; exact zero (arrayCode_climbs (zero' (ih (h := h + 1) (by omega))) _ _ h₀)
  | tupleValue _ _ ih => exact ih
  | tuple _ _ ih => intro h h₀; exact zero (tupleCode_climbs (ih h₀) _ _ _ _)
  | nil => intro h _; exact .done
  | cons _ _ ih ih' =>
    intro h h₀
    have hin := zero' (ih (h := h + 1) (by omega))
    exact (hin.lower (show h ≤ h + 1 by omega)).append (rawseti_climbs (by simp) h₀ (ih' h₀))

/-! ## The contract -/

theorem Pushes.leaves {ctx : Context} {m : Memo} {spelling : String} {source : Place} {n n' : Nat}
    {code : Code} (hp : Pushes ctx m (.value spelling source) n code n') : code.Leaves 1 :=
  (hp.climbs (Int.le_refl 0)).leaves

theorem Reads.leaves {ctx : Context} {m : Memo} {mode : ReadMode} {spelling : String}
    {place : Place} {index : StackIndex} {n n' : Nat} {code : Code}
    (hr : Reads ctx m (.value mode spelling place index) n code n') : code.Leaves 0 := by
  have := (hr.climbs index.depth_nonneg (Int.le_refl _)).leaves
  rwa [Int.sub_self] at this

/-- **On every path, pushing leaves one value more on the stack and reading leaves the stack as it
was, and neither goes below the height it begins at** — at the outside (`push`, `read`) as well as
inside tuples, where `levels` more may still nest. -/
theorem marshaling_balanced (ctx : Context) (spelling : String) (s s' : Scratch) (code : Code) :
    (∀ source, push ctx spelling source s = (.written () code, s') → code.Leaves 1) ∧
    (∀ levels source,
      pushWith ctx (pushTuple ctx levels) (arrayRank spelling) spelling source s =
        (.written () code, s') → code.Leaves 1) ∧
    (∀ mode place index,
      read ctx mode spelling place index s = (.written () code, s') → code.Leaves 0) ∧
    (∀ levels mode place index,
      readWith ctx (readTuple ctx levels) (arrayRank spelling) mode spelling place index s =
        (.written () code, s') → code.Leaves 0) := by
  refine ⟨fun source hw => (push_pushes hw).leaves, fun levels source hw => ?_,
    fun mode place index hw => (read_reads hw).leaves, fun levels mode place index hw => ?_⟩
  · exact (pushWith_pushes (pushTuple_grows ctx levels) pushTuple_pushes hw).leaves
  · exact (readWith_reads (readTuple_grows ctx levels) readTuple_reads hw).leaves

/-- One tuple, of a number and a text. -/
def pairContext : Context :=
  Classifying.fresh
    (Context.build {} { types := { tuples := [("Pair", ["x:int", "y:const char*"])] } })

theorem marshaling_balanced_pairs :
    (∃ code s', push pairContext "Pair[2]" (.name "v") {} = (.written () code, s') ∧
      code.Leaves 1) ∧
    (∃ code s', read pairContext .checked "Pair[2]" (.name "v") (.slot 1) {} =
      (.written () code, s') ∧ code.Leaves 0) := by
  constructor
  · obtain ⟨_, code, s', hw, -⟩ := Draft.exists_written
      (push pairContext "Pair[2]" (.name "v")) {} (fun _ => true) (by decide +kernel)
    exact ⟨code, s', hw, (marshaling_balanced pairContext "Pair[2]" {} s' code).1 _ hw⟩
  · obtain ⟨_, code, s', hw, -⟩ := Draft.exists_written
      (read pairContext .checked "Pair[2]" (.name "v") (.slot 1)) {} (fun _ => true) (by decide +kernel)
    exact ⟨code, s', hw, (marshaling_balanced pairContext "Pair[2]" {} s' code).2.2.1 _ _ _ hw⟩

end LuaGlue
