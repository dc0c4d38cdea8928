import LuaGlue.Proofs.Code.Locals
import LuaGlue.Proofs.Code.Spelling
import LuaGlue.Proofs.Marshal.PushCode
import LuaGlue.Proofs.Marshal.ReadCode
import Mathlib.Data.List.Nodup

/-!
# Variables of marshaling

What reads or pushes a value declares nothing beside it (`Reads.locals`, `Pushes.locals`). At any depth it declares
the temporaries whose numbers it takes, each of them once (`Reads.declared`, `Pushes.declared`). So no variable
hides another one, since temporaries with different numbers have different names (`temporary_inj`).
-/

set_option autoImplicit false

namespace LuaGlue

variable {ctx : Context} {m : Memo} {n n' : Nat} {code : Code}

/-! ## Beside a value -/

theorem readLine?_local? {mode : ReadMode} {spelling : String} {place : Place} {index : StackIndex}
    {c : Category} {l : Line} (h : readLine? ctx mode spelling place index c = some l) : l.local? = none := by
  cases c with
  | structPointer name shape isConst =>
    cases h
    split <;> rfl
  | handle isConst | pointer pointee isConst => cases h; cases isConst <;> rfl
  | void | structValue name shape | fixedArray c size => cases h
  | _ => cases h; rfl

theorem readBound_local? (name : String) (place : Place) (index : StackIndex) (mode : ReadMode) :
    (readBound ctx name place index mode).local? = none := by
  cases mode <;> rfl

/-- **What reads a value declares nothing beside it.** -/
theorem Reads.locals {job : ReadJob} (h : Reads ctx m job n code n') : code.locals = [] := by
  induction h with
  | oneLine _ hl => simp [readLine?_local? hl]
  | bound => simp [readBound_local?]
  | foreign | foreignRange | array | tuple | nil => rfl
  | tupleValue _ _ ih => exact ih
  | cons _ _ ih ih' => simp [memberCode, ih, ih', Line.local?, popOne]

theorem pushLines?_locals {spelling : String} {source : Place} {c : Category} {ls : List Line}
    (h : pushLines? spelling source c = some ls) : ls.filterMap Line.local? = [] := by
  cases c with
  | void | structValue name shape | structPointer name shape isConst | handle isConst
  | pointer pointee isConst | fixedArray c size => cases h
  | _ => cases h; rfl

/-- What pushes a value declares nothing beside it. -/
theorem Pushes.locals {job : PushJob} (h : Pushes ctx m job n code n') : code.locals = [] := by
  induction h with
  | direct _ hl => simp [pushLines?_locals hl]
  | copy | pointerTuple | pointerCopy | pointerLight | rawPointer | tuple | nil => rfl
  | array => rfl
  | tupleValue _ _ ih => exact ih
  | cons _ _ ih ih' => simp [ih, ih', Line.local?, storeAt]

/-! ## At any depth -/

theorem temporary_inj {i j : Nat} (h : temporary i = temporary j) : i = j :=
  toString_inj ((String.append_right_inj _).mp h)

/-- So many temporaries, from a number on. -/
def temporaries (n k : Nat) : List String := (List.range' n k).map temporary

@[simp] theorem temporaries_zero (n : Nat) : temporaries n 0 = [] := rfl

theorem temporaries_succ (n k : Nat) : temporaries n (k + 1) = temporary n :: temporaries (n + 1) k := by
  rw [temporaries, List.range'_succ, List.map_cons]
  rfl

theorem temporaries_add (n j k : Nat) :
    temporaries n (j + k) = temporaries n j ++ temporaries (n + j) k := by
  rw [temporaries, ← List.range'_append_1, List.map_append]
  rfl

theorem temporaries_nodup (n k : Nat) : (temporaries n k).Nodup :=
  List.Nodup.map (fun _ _ => temporary_inj) List.nodup_range'

/-- Code declares the temporaries from number `n` to below `n'`, each of them once. -/
def Code.Declares (code : Code) (n n' : Nat) : Prop := ∃ k, n' = n + k ∧ code.declared.Perm (temporaries n k)

namespace Code.Declares

theorem none (h : code.declared = []) : code.Declares n n := ⟨0, rfl, by rw [h, temporaries_zero]⟩

theorem one (h : code.declared = [temporary n]) : code.Declares n (n + 1) :=
  ⟨1, rfl, by rw [h, temporaries_succ, temporaries_zero]⟩

theorem le (h : code.Declares n n') : n ≤ n' := by
  obtain ⟨k, rfl, -⟩ := h
  exact Nat.le_add_right n k

theorem nodup (h : code.Declares n n') : code.declared.Nodup := by
  obtain ⟨k, -, hperm⟩ := h
  exact hperm.nodup_iff.mpr (temporaries_nodup n k)

theorem mem_iff (h : code.Declares n n') {v : String} :
    v ∈ code.declared ↔ ∃ i, n ≤ i ∧ i < n' ∧ v = temporary i := by
  obtain ⟨k, rfl, hperm⟩ := h
  rw [hperm.mem_iff, temporaries, List.mem_map]
  simp only [List.mem_range'_1, and_assoc, eq_comm]

/-- One temporary beside those that a part of the code declares. -/
theorem cons {body : Code} (h : code.declared = temporary n :: body.declared)
    (hbody : body.Declares (n + 1) n') : code.Declares n n' := by
  obtain ⟨k, rfl, hperm⟩ := hbody
  refine ⟨k + 1, by omega, ?_⟩
  rw [h, temporaries_succ]
  exact hperm.cons _

theorem append {a b : Code} {n₁ n₂ n₃ : Nat} (ha : a.Declares n₁ n₂) (hb : b.Declares n₂ n₃) :
    (a ++ b).Declares n₁ n₃ := by
  obtain ⟨j, rfl, hj⟩ := ha
  obtain ⟨k, rfl, hk⟩ := hb
  refine ⟨j + k, by omega, ?_⟩
  rw [Code.declared_append, temporaries_add]
  exact hj.append hk

theorem congr {a b : Code} (hb : b.Declares n n') (h : a.declared = b.declared) : a.Declares n n' := by
  unfold Code.Declares at hb ⊢
  rwa [h]

end Code.Declares

theorem declared_copyCode (name copy : String) (source : Place) :
    (copyCode ctx name source copy).declared = [copy] := rfl

theorem declared_unlessNullCode (pointer : Local) (source : Expr) (some : Code) :
    (unlessNullCode ctx pointer source some).declared = pointer.name :: some.declared := by
  simp [unlessNullCode, Head.counter?, Line.local?, pushNil]

theorem declared_arrayCode (k : String) (size : Nat) (inside : Code) :
    (arrayCode k size inside).declared = k :: inside.declared := by
  simp [arrayCode, Head.counter?, Line.local?]

theorem declared_tupleCode (name value : String) (source : Place) (size : Nat) (inside : Code) :
    (tupleCode name value source size inside).declared = value :: inside.declared := by
  simp [tupleCode, Head.counter?, Line.local?, Local.plain]

/-- **What pushes a value declares each temporary that it takes once, and nothing else.** -/
theorem Pushes.declared {job : PushJob} (h : Pushes ctx m job n code n') : code.Declares n n' := by
  induction h with
  | direct _ hl => exact .none (by rw [Code.declared_ofLines, pushLines?_locals hl])
  | copy => exact .one (declared_copyCode ..)
  | pointerTuple _ _ ih => exact .cons (declared_unlessNullCode ..) ih
  | pointerCopy => exact .cons (declared_unlessNullCode ..) (.one (declared_copyCode ..))
  | pointerLight => exact .cons (declared_unlessNullCode ..) (.none rfl)
  | rawPointer => exact .cons (declared_unlessNullCode ..) (.none rfl)
  | array _ _ _ ih => exact .cons (declared_arrayCode ..) ih
  | tupleValue _ _ ih => exact ih
  | tuple _ _ ih => exact .cons (declared_tupleCode ..) ih
  | nil => exact .none rfl
  | cons _ _ ih ih' => exact ih.append (ih'.congr rfl)

theorem declared_tableCode (mode : ReadMode) (table : String) (index : StackIndex) (inside : Code) :
    (tableCode mode table index inside).declared = table :: inside.declared := by
  cases mode <;> simp [tableCode, Head.counter?, Line.local?, Local.plain]

theorem declared_elementsCode (table k : String) (size : Nat) (inside : Code) :
    (elementsCode table k size inside).declared = k :: inside.declared := by
  simp [elementsCode, Head.counter?, Line.local?, Code.declared, popOne]

theorem declared_memberCode (table : String) (position : Nat) (inside : Code) :
    (memberCode table position inside).declared = inside.declared := by
  simp [memberCode, Line.local?, popOne]

theorem copyUserdata_local? (name : String) (place : Place) (index : StackIndex) (mode : ReadMode)
    (pointer : String) : (copyUserdata ctx name place index mode pointer).filterMap Line.local? = [pointer] := rfl

/-- **What reads a value declares each temporary that it takes once, and nothing else.** -/
theorem Reads.declared {job : ReadJob} (h : Reads ctx m job n code n') : code.Declares n n' := by
  induction h with
  | oneLine _ hl => exact .none (by simp [readLine?_local? hl])
  | bound => exact .none (by simp [readBound_local?])
  | foreign => exact .one (by simp [copyUserdata_local?, Head.counter?])
  | @foreignRange _ _ _ _ _ _ _ n =>
    refine ⟨2, rfl, ?_⟩
    -- the length is named last, and declared first
    exact .swap (temporary n) (temporary (n + 1)) []
  | array _ _ _ ih => exact .cons (declared_tableCode ..) (.cons (declared_elementsCode ..) ih)
  | tupleValue _ _ ih => exact ih
  | tuple _ _ ih => exact .cons (declared_tableCode ..) ih
  | nil => exact .none rfl
  | cons _ _ ih ih' => exact .append (ih.congr (declared_memberCode ..)) ih'

end LuaGlue
