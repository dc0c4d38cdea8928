import LuaGlue.Proofs.Keep.Scope
import LuaGlue.Proofs.Marshal.Positions

/-!
# Reaching a bound struct

Two recursions go over the parts of a type. `read` hands the keep table on where it comes to a struct
with a converter, and counts the tuples it is inside of. `needsKeep` decides beforehand whether there
has to be a keep table, and counts arrays and tuples alike.

`ReachesBound ctx m k spelling` is what both are about: going down `k` arrays and tuples from the
spelling, there is a bound struct. What is read hands the keep table on if there is one at any depth
(`Reads.passesKeep_iff`); a keep table is asked for if there is one at a depth below the limit
(`needsKeep_decides`).
-/

set_option autoImplicit false

namespace LuaGlue

/-! ## Questions with yes or no -/

/-- Put to the memo `m`, the question says whether `P` holds over every memo from then on. -/
def Classifying.DecidesAt (q : Classifying Bool) (P : Memo → Prop) (m : Memo) : Prop :=
  ∀ M, (q.run m).2.Grows M → ((q.run m).1 = true ↔ P M)

namespace Classifying.DecidesAt

variable {P Q : Memo → Prop} {m : Memo}

theorem pure {b : Bool} (h : ∀ M, m.Grows M → (b = true ↔ P M)) :
    Classifying.DecidesAt (Pure.pure b) P m := h

theorem congr {q : Classifying Bool} (hq : q.Grows) (h : q.DecidesAt P m)
    (hPQ : ∀ M, m.Grows M → (P M ↔ Q M)) : q.DecidesAt Q m :=
  fun M hM => (h M hM).trans (hPQ M ((hq m).trans hM))

/-- What was answered before decides it now. -/
theorem of_answered {q : Classifying Bool} {b : Bool} {M : Memo} (h : ∀ m, q.DecidesAt P m)
    (hb : q.Answered b M) : b = true ↔ P M := by
  obtain ⟨m, rfl, hgrows⟩ := hb
  exact h m M hgrows

/-- A question that goes by the category of a spelling, which is in the memo from then on. -/
theorem classify {ctx : Context} {spelling : String} {f : Category → Classifying Bool}
    (h : ∀ c m, m.find? spelling = some c → (f c).DecidesAt P m) :
    (ctx.classify spelling >>= f).DecidesAt P m :=
  h _ _ (classify_remembered ctx.index spelling m)

/-- Whether one of several things is so, asked one after another until one is. -/
theorem anyM {α : Type} {q : α → Classifying Bool} {P : α → Memo → Prop}
    (hg : ∀ a, (q a).Grows) {as : List α} :
    ∀ {m : Memo}, (∀ a ∈ as, ∀ m, (q a).DecidesAt (P a) m) →
      (as.anyM q).DecidesAt (fun M => ∃ a ∈ as, P a M) m := by
  induction as with
  | nil =>
    intro m _ M _
    exact ⟨fun h => absurd h Bool.false_ne_true, fun ⟨_, ha, _⟩ => absurd ha List.not_mem_nil⟩
  | cons a rest ih =>
    intro m h
    have hhead := h a List.mem_cons_self m
    have htail := ih (m := ((q a).run m).2) fun b hb => h b (List.mem_cons_of_mem _ hb)
    unfold Classifying.DecidesAt at hhead htail ⊢
    intro M hM
    rw [List.anyM, Classifying.run_bind] at hM ⊢
    cases hfound : ((q a).run m).1 with
    | true =>
      rw [hfound] at hM
      exact ⟨fun _ => ⟨a, List.mem_cons_self, (hhead M hM).mp hfound⟩, fun _ => rfl⟩
    | false =>
      rw [hfound] at hM
      -- the first one is answered for good, whatever is asked after it
      have hnot : ¬ P a M := by
        intro hP
        have := (hhead M ((Classifying.Grows.anyM hg rest _).trans hM)).mpr hP
        rw [hfound] at this
        exact absurd this (by decide)
      refine (htail M hM).trans ⟨?_, ?_⟩
      · rintro ⟨b, hb, hP⟩
        exact ⟨b, List.mem_cons_of_mem _ hb, hP⟩
      · rintro ⟨b, hb, hP⟩
        rcases List.mem_cons.mp hb with rfl | hb
        · exact absurd hP hnot
        · exact ⟨b, hb, hP⟩

end Classifying.DecidesAt

/-! ## Bound structs among the parts of a type -/

/-- By the categories in the memo, a bound struct is `k` arrays and tuples inside of the spelling. -/
inductive ReachesBound (ctx : Context) (m : Memo) : Nat → String → Prop where
  | here {spelling name shape} (hc : m.find? spelling = some (.structValue name shape))
      (hs : shape ≠ .tuple) (hb : ctx.isBound name = true) : ReachesBound ctx m 0 spelling
  | member {spelling name members member k} (hc : m.find? spelling = some (.structValue name .tuple))
      (hm : ctx.tupleMembers name = .ok members) (hmem : member ∈ members)
      (inside : ReachesBound ctx m k member.type) : ReachesBound ctx m (k + 1) spelling
  | element {spelling c size elem k} (hc : m.find? spelling = some (.fixedArray c size))
      (he : elementType? spelling = some elem) (inside : ReachesBound ctx m k elem) :
      ReachesBound ctx m (k + 1) spelling

variable {ctx : Context} {m : Memo}

namespace ReachesBound

/-- What a category says at once: a struct with a converter, or a value without parts. -/
def atOnce (ctx : Context) : Category → Bool
  | .structValue name shape => shape != .tuple && ctx.isBound name
  | _ => false

/-- Whether a value of the category has parts that are read one by one. -/
def hasParts : Category → Bool
  | .structValue _ .tuple | .fixedArray .. => true
  | _ => false

variable {k : Nat} {spelling : String}

theorem leaf_iff {c : Category} (hc : m.find? spelling = some c) (hp : hasParts c = false) :
    ReachesBound ctx m k spelling ↔ k = 0 ∧ atOnce ctx c = true := by
  constructor
  · intro h
    cases h with
    | here hc' hs hb =>
      rw [hc] at hc'
      cases hc'
      exact ⟨rfl, by simp [atOnce, hs, hb]⟩
    | member hc' _ _ _ | element hc' _ _ =>
      rw [hc] at hc'
      cases hc'
      cases hp
  · rintro ⟨rfl, h⟩
    cases c with
    | structValue name shape =>
      simp only [atOnce, bne_iff_ne, Bool.and_eq_true] at h
      exact .here hc h.1 h.2
    | _ => cases h

/-- What a tuple reaches, one of its members reaches. -/
theorem tuple_iff {name : String} (hc : m.find? spelling = some (.structValue name .tuple)) :
    ReachesBound ctx m k spelling ↔ ∃ j members, k = j + 1 ∧ ctx.tupleMembers name = .ok members ∧
      ∃ member ∈ members, ReachesBound ctx m j member.type := by
  constructor
  · intro h
    cases h with
    | here hc' hs _ =>
      rw [hc] at hc'
      cases hc'
      exact absurd rfl hs
    | member hc' hm hmem inside =>
      rw [hc] at hc'
      cases hc'
      exact ⟨_, _, rfl, hm, _, hmem, inside⟩
    | element hc' _ _ => rw [hc] at hc'; cases hc'
  · rintro ⟨j, members, rfl, hm, member, hmem, inside⟩
    exact .member hc hm hmem inside

/-- What an array reaches, its elements reach. -/
theorem array_iff {c : Category} {size : Nat} (hc : m.find? spelling = some (.fixedArray c size)) :
    ReachesBound ctx m k spelling ↔
      ∃ j elem, k = j + 1 ∧ elementType? spelling = some elem ∧ ReachesBound ctx m j elem := by
  constructor
  · intro h
    cases h with
    | here hc' _ _ | member hc' _ _ _ => rw [hc] at hc'; cases hc'
    | element _ he inside => exact ⟨_, _, rfl, he, inside⟩
  · rintro ⟨j, elem, rfl, he, inside⟩
    exact .element hc he inside

end ReachesBound

/-! ## What is decided beforehand -/

theorem keepsWithin_grows (ctx : Context) :
    ∀ (levels : Nat) (spelling : String), (keepsWithin ctx levels spelling).Grows := by
  intro levels
  induction levels with
  | zero => intro _; exact Classifying.Grows.pure false
  | succ levels ih =>
    intro spelling
    unfold keepsWithin
    refine (classify_grows ctx.index spelling).bind fun c => ?_
    split
    · split
      · exact Classifying.Grows.anyM (fun member : TupleMember => ih member.type) _
      · exact Classifying.Grows.pure false
    · exact Classifying.Grows.pure _
    · split
      · exact ih _
      · exact Classifying.Grows.pure false
    · exact Classifying.Grows.pure false

/-- **A keep table is asked for if and only if a bound struct is reached within the levels that are
looked at.** -/
theorem keepsWithin_decides :
    ∀ {levels : Nat} {spelling : String} {m : Memo},
      (keepsWithin ctx levels spelling).DecidesAt
        (fun M => ∃ k, k < levels ∧ ReachesBound ctx M k spelling) m := by
  intro levels
  induction levels with
  | zero =>
    intro spelling m
    exact .pure fun M _ => ⟨fun h => absurd h (by decide), fun ⟨_, h, _⟩ => absurd h (by omega)⟩
  | succ levels ih =>
    intro spelling m
    unfold keepsWithin
    refine .classify fun c m hc => ?_
    -- a category without parts decides at once
    have leaf (hp : ReachesBound.hasParts c = false) {b : Bool}
        (hb : b = ReachesBound.atOnce ctx c) : Classifying.DecidesAt (pure b)
          (fun M => ∃ k, k < levels + 1 ∧ ReachesBound ctx M k spelling) m := by
      refine .pure fun M hM => ?_
      simp only [ReachesBound.leaf_iff (hM _ _ hc) hp, hb]
      exact ⟨fun h => ⟨0, by omega, rfl, h⟩, fun ⟨_, _, _, h⟩ => h⟩
    cases c with
    | structValue name shape =>
      cases shape with
      | tuple =>
        cases hm : ctx.tupleMembers name with
        | error fault =>
          simp only [hm]
          refine .pure fun M hM => ⟨fun h => absurd h (by decide), ?_⟩
          rintro ⟨k, _, h⟩
          obtain ⟨_, _, _, hok, _⟩ := (ReachesBound.tuple_iff (hM _ _ hc)).mp h
          rw [hm] at hok
          cases hok
        | ok members =>
          simp only [hm]
          refine .congr (Classifying.Grows.anyM (fun _ => keepsWithin_grows ctx levels _) members)
            (.anyM (fun _ => keepsWithin_grows ctx levels _) fun member _ m => ih) fun M hM => ?_
          constructor
          -- a level of the tuple is a level of the limit
          · rintro ⟨member, hmem, k, hk, h⟩
            exact ⟨k + 1, by omega, .member (hM _ _ hc) hm hmem h⟩
          · rintro ⟨k, hk, h⟩
            obtain ⟨j, _, rfl, hok, member, hmem, hj⟩ := (ReachesBound.tuple_iff (hM _ _ hc)).mp h
            rw [hm] at hok
            cases hok
            exact ⟨member, hmem, j, by omega, hj⟩
      | userdata | byteRange => exact leaf rfl rfl
    | fixedArray elem size =>
      cases he : elementType? spelling with
      | none =>
        refine .pure fun M hM => ⟨fun h => absurd h (by decide), ?_⟩
        rintro ⟨k, _, h⟩
        obtain ⟨_, _, _, hsome, _⟩ := (ReachesBound.array_iff (hM _ _ hc)).mp h
        rw [he] at hsome
        cases hsome
      | some elem =>
        refine .congr (keepsWithin_grows ctx levels elem) ih fun M hM => ?_
        constructor
        · rintro ⟨k, hk, h⟩
          exact ⟨k + 1, by omega, .element (hM _ _ hc) he h⟩
        · rintro ⟨k, hk, h⟩
          obtain ⟨j, _, rfl, hsome, hj⟩ := (ReachesBound.array_iff (hM _ _ hc)).mp h
          rw [he] at hsome
          cases hsome
          exact ⟨j, by omega, hj⟩
    | _ => exact leaf rfl rfl

theorem needsKeep_grows (ctx : Context) (spelling : String) : (needsKeep ctx spelling).Grows :=
  keepsWithin_grows ctx maxNesting spelling

theorem needsKeep_decides {spelling : String} {m : Memo} :
    (needsKeep ctx spelling).DecidesAt
      (fun M => ∃ k, k < maxNesting ∧ ReachesBound ctx M k spelling) m :=
  keepsWithin_decides

/-! ## What is done -/

/-- What a job has to reach for its code to hand the keep table on. -/
def ReadJob.Reaches (ctx : Context) (m : Memo) : ReadJob → Prop
  | .value _ spelling _ _ => ∃ k, ReachesBound ctx m k spelling
  | .tuple _ name _ _ => ∃ members, ctx.tupleMembers name = .ok members ∧
      ∃ member ∈ members, ∃ k, ReachesBound ctx m k member.type
  | .members _ _ _ rest => ∃ member ∈ rest, ∃ k, ReachesBound ctx m k member.type

section

variable {mode : ReadMode} {spelling : String} {place : Place} {index : StackIndex}

theorem readLine?_passesKeep {c : Category} {l : Line}
    (hl : readLine? ctx mode spelling place index c = some l) :
    l.calls.any Call.passesKeep = false := by
  unfold readLine? at hl
  split at hl <;> cases hl
  · rfl
  iterate 4 rfl
  · split <;> rfl
  iterate 2 (unfold readPointer; split <;> rfl)
  iterate 2 rfl

/-- A converter gets the keep table. -/
theorem readBound_passesKeep (name : String) :
    (readBound ctx name place index mode).calls.any Call.passesKeep = true := by
  have convert : Call.passesKeep ⟨.generated (.converter name),
      [.state, .at index, .addressOf place, .value (.name keepLocal)]⟩ = true := by
    simp [Call.passesKeep]
  cases mode <;> simp [readBound, Line.calls, Cond.calls, convert]

theorem copyUserdata_passesKeep (name pointer : String) :
    (Code.ofLines (copyUserdata ctx name place index mode pointer)).passesKeep = false := by
  cases mode <;> rfl

theorem rangeCode_passesKeep (name : String) (range : ByteRange) (pointer length : String) :
    (rangeCode ctx name range place index mode pointer length).passesKeep = false := by
  cases mode <;> rfl

theorem tableCode_passesKeep (table : String) (inside : Code) :
    (tableCode mode table index inside).passesKeep = inside.passesKeep := by
  cases mode <;>
    simp [tableCode, Code.blockOf, Code.branchOf, Line.calls, Expr.calls, Cond.calls, Api.on,
      Call.passesKeep]

theorem elementsCode_passesKeep (table k : String) (size : Nat) (inside : Code) :
    (elementsCode table k size inside).passesKeep = inside.passesKeep := by
  simp [elementsCode, Code.blockOf, Line.calls, Cond.calls, popOne, Api.on, Call.passesKeep]

theorem memberCode_passesKeep (table : String) (position : Nat) (inside : Code) :
    (memberCode table position inside).passesKeep = inside.passesKeep := by
  simp [memberCode, Line.calls, popOne, Api.on, Call.passesKeep]

end

/-- A struct of another module has no converter to hand the keep table to. -/
theorem not_reaches_foreign {mode : ReadMode} {spelling name : String} {shape : Shape} {place : Place}
    {index : StackIndex} (hc : m.find? spelling = some (.structValue name shape))
    (hs : shape ≠ .tuple) (hb : ctx.isBound name = false) :
    ¬ (ReadJob.value mode spelling place index).Reaches ctx m := by
  have hp : ReachesBound.hasParts (.structValue name shape) = false := by
    cases shape <;> first | rfl | exact absurd rfl hs
  simp [ReadJob.Reaches, ReachesBound.leaf_iff hc hp, ReachesBound.atOnce, hb]

/-- **The keep table is handed on if and only if a bound struct is reached, however deep it is.** -/
theorem Reads.passesKeep_iff {job : ReadJob} {n n' : Nat} {code : Code}
    (h : Reads ctx m job n code n') : code.passesKeep = true ↔ job.Reaches ctx m := by
  induction h with
  | @oneLine _ _ _ _ c _ _ hc hl =>
    have hpasses := readLine?_passesKeep hl
    have hp : ReachesBound.hasParts c = false := by
      cases c <;> first | rfl | cases hl
    have hat : ReachesBound.atOnce ctx c = false := by
      cases c <;> first | rfl | cases hl
    simp [ReadJob.Reaches, ReachesBound.leaf_iff hc hp, hpasses, hat]
  | bound hc hs hb =>
    refine ⟨fun _ => ⟨0, .here hc hs hb⟩, fun _ => ?_⟩
    rw [Code.passesKeep_line, readBound_passesKeep, Bool.true_or]
  | foreign hc hs hb _ =>
    refine iff_of_false ?_ (not_reaches_foreign hc hs hb)
    rw [Code.blockOf, Code.passesKeep_block, copyUserdata_passesKeep]
    exact Bool.false_ne_true
  | foreignRange hc hs hb _ =>
    refine iff_of_false ?_ (not_reaches_foreign hc hs hb)
    rw [rangeCode_passesKeep]
    exact Bool.false_ne_true
  | array hc he _ ih =>
    rw [tableCode_passesKeep, elementsCode_passesKeep, ih]
    constructor
    · rintro ⟨k, h⟩
      exact ⟨k + 1, .element hc he h⟩
    · rintro ⟨k, h⟩
      obtain ⟨j, elem, -, hsome, hj⟩ := (ReachesBound.array_iff hc).mp h
      rw [he] at hsome
      cases hsome
      exact ⟨j, hj⟩
  | tupleValue hc _ ih =>
    rw [ih]
    constructor
    · rintro ⟨members, hm, member, hmem, k, h⟩
      exact ⟨k + 1, .member hc hm hmem h⟩
    · rintro ⟨k, h⟩
      obtain ⟨j, members, -, hm, member, hmem, hj⟩ := (ReachesBound.tuple_iff hc).mp h
      exact ⟨members, hm, member, hmem, j, hj⟩
  | tuple hm _ ih =>
    rw [tableCode_passesKeep, ih]
    constructor
    · exact fun h => ⟨_, hm, h⟩
    · rintro ⟨members, hok, h⟩
      rw [hm] at hok
      cases hok
      exact h
  | nil => simp [ReadJob.Reaches]
  | cons _ _ ih ih' =>
    rw [Code.passesKeep_append, memberCode_passesKeep, Bool.or_eq_true, ih, ih']
    simp only [ReadJob.Reaches, List.mem_cons, exists_eq_or_imp]

end LuaGlue
