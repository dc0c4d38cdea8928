import LuaGlue.Code.Basic
import Mathlib.Logic.Function.Basic

/-!
# Elements that code accesses

A place is written with the arrays that it goes through and an index into each of them (`Place.accesses`). The
indices that generated code is written with are the counters of its loops, so which elements it accesses is
known from the values that the counters run through: `code.Accesses p i σ` says that the code, with `σ` for
the values of the counters around it, may come to access the element number `i` of `p`.

Every branch is taken to be possible, and every round of a loop. A counter is a number here, so it never
becomes too large for its type.
-/

set_option autoImplicit false

namespace LuaGlue

/-! ## Accesses that are written -/

/-- The arrays that a place goes through, with the indices into them. -/
@[simp] def Place.accesses : Place → List (Place × String)
  | .name _ | .through _ _ => []
  | .element p k => (p, k) :: p.accesses
  | .member p _ | .memberOf p _ | .target p => p.accesses

@[simp] def Arg.accesses : Arg → List (Place × String)
  | .value p | .cast _ p | .addressOf p => p.accesses
  | _ => []

@[simp] def Call.accesses (c : Call) : List (Place × String) := c.args.flatMap Arg.accesses

@[simp] def Cond.accesses : Cond → List (Place × String)
  | .holds c | .fails c => c.accesses
  | .notNull p _ | .isNull p _ => p.accesses
  | _ => []

@[simp] def Expr.accesses : Expr → List (Place × String)
  | .value p => p.accesses
  | .call c => c.accesses
  | .cast _ e | .target e => e.accesses
  | .choose c yes no => c.accesses ++ (yes.accesses ++ no.accesses)
  | .address _ | .entry _ _ | .text _ => []

@[simp] def Line.accesses : Line → List (Place × String)
  | .call c | .discard c => c.accesses
  | .assign p e => p.accesses ++ e.accesses
  | .declare _ e | .ret e => e.accesses
  | .onlyIf c l => c.accesses ++ l.accesses
  | _ => []

/-! ## Accesses that are made -/

/-- By the values of the counters, one of the accesses is to the element number `i` of `p`. -/
def Reaching (accesses : List (Place × String)) (p : Place) (i : Nat) (σ : String → Nat) : Prop :=
  ∃ k, (p, k) ∈ accesses ∧ i = σ k

/-- How the values of counters change from before a block to inside of it: a loop gives its counter a value
below its bound. -/
def Head.Enters : Head → (String → Nat) → (String → Nat) → Prop
  | .count _ v bound, σ, σ' =>
    ∃ i, (∀ size : Nat, bound = toString size → i < size) ∧ σ' = Function.update σ v i
  | _, σ, σ' => σ' = σ

/-- The code may come to access the element number `i` of `p`. -/
def Code.Accesses (p : Place) (i : Nat) : Code → (String → Nat) → Prop
  | .done, _ => False
  | .line l next, σ => Reaching l.accesses p i σ ∨ next.Accesses p i σ
  | .block head body _ next, σ =>
    (∃ σ', head.Enters σ σ' ∧ body.Accesses p i σ') ∨ next.Accesses p i σ
  | .branch c yes no next, σ =>
    Reaching c.accesses p i σ ∨ yes.Accesses p i σ ∨ no.Accesses p i σ ∨ next.Accesses p i σ

section

variable {p : Place} {i : Nat} {σ : String → Nat}

@[simp] theorem reaching_nil : ¬ Reaching [] p i σ := by simp [Reaching]

@[simp] theorem reaching_append {as bs : List (Place × String)} :
    Reaching (as ++ bs) p i σ ↔ Reaching as p i σ ∨ Reaching bs p i σ := by
  simp only [Reaching, List.mem_append, or_and_right, exists_or]

theorem reaching_cons {q : Place} {k : String} {as : List (Place × String)} :
    Reaching ((q, k) :: as) p i σ ↔ (p = q ∧ i = σ k) ∨ Reaching as p i σ := by
  constructor
  · rintro ⟨k', hmem, rfl⟩
    rcases List.mem_cons.mp hmem with heq | hmem
    · cases heq
      exact .inl ⟨rfl, rfl⟩
    · exact .inr ⟨k', hmem, rfl⟩
  · rintro (⟨rfl, rfl⟩ | ⟨k', hmem, rfl⟩)
    · exact ⟨k, List.mem_cons_self, rfl⟩
    · exact ⟨k', List.mem_cons_of_mem _ hmem, rfl⟩

namespace Code

@[simp] theorem accesses_done : ¬ done.Accesses p i σ := id

@[simp] theorem accesses_line {l : Line} {next : Code} :
    (line l next).Accesses p i σ ↔ Reaching l.accesses p i σ ∨ next.Accesses p i σ := Iff.rfl

@[simp] theorem accesses_bare {body : Code} : (blockOf .bare body).Accesses p i σ ↔ body.Accesses p i σ := by
  simp [blockOf, Accesses, Head.Enters]

@[simp] theorem accesses_branch {c : Cond} {yes no next : Code} :
    (branch c yes no next).Accesses p i σ ↔
      Reaching c.accesses p i σ ∨ yes.Accesses p i σ ∨ no.Accesses p i σ ∨ next.Accesses p i σ := Iff.rfl

@[simp] theorem accesses_append {a b : Code} :
    (a ++ b).Accesses p i σ ↔ a.Accesses p i σ ∨ b.Accesses p i σ := by
  induction a with
  | done => simp
  | line l next ih => simp [ih, or_assoc]
  | block head body ending next _ ih => simp only [block_append, Accesses, ih, or_assoc]
  | branch c yes no next _ _ ih => simp [ih, or_assoc]

@[simp] theorem accesses_ofLines {ls : List Line} :
    (ofLines ls).Accesses p i σ ↔ ∃ l ∈ ls, Reaching l.accesses p i σ := by
  induction ls with
  | nil => simp [ofLines]
  | cons l rest ih => simp [ofLines, ih]

/-- A loop accesses what is accessed in one of its rounds. -/
theorem accesses_count {type v : String} {size : Nat} {body : Code}
    (h : (blockOf (.count type v (toString size)) body).Accesses p i σ) :
    ∃ j < size, body.Accesses p i (Function.update σ v j) := by
  obtain ⟨_, ⟨j, hbound, rfl⟩, hbody⟩ | hnone := h
  · exact ⟨j, hbound size rfl, hbody⟩
  · exact hnone.elim

end Code

end

end LuaGlue
