import LuaGlue.Proofs.Code.Accesses
import LuaGlue.Proofs.Marshal.Locals
import LuaGlue.Proofs.Marshal.Loops

/-!
# Accesses within bounds

Code that marshals a value accesses no element that is not there: an element that it accesses is one of an array
that is a part of the value (`Located`), and its number is below the length that the array is declared with
(`Pushes.inBounds`, `Reads.inBounds`). What the place of the value itself is written with is the affair of whoever
wrote it.

The invariant is about the place of a job (`Safe`): its accesses are those of the value's place, or they are within
bounds and go by counters of loops further out, which no loop further in counts with.
-/

set_option autoImplicit false

namespace LuaGlue

/-! ## Parts and where they are -/

/-- In `code`, the tuple `name` has been copied to the variable `value` from `p`, where it is or where there is a
pointer to it. -/
def CopiedTo (m : Memo) (code : Code) (p : Place) (part name value : String) : Prop :=
  (m.find? part = some (.structValue name .tuple) ∧ code.Introduces (.plain name value) (.value p)) ∨
    ∃ isConst pointer, m.find? part = some (.structPointer name .tuple isConst) ∧
      code.Introduces ⟨declareLocal part pointer, pointer⟩ (.value p) ∧
      code.Introduces (.plain name value) (.value (.target (.name pointer)))

/-- By the categories in the memo, a place holds a part that is so spelled wherever `place` holds what is spelled
`spelling` and `code` runs. Members are found where the tuple is, or in the copy of it that `code` makes in order
to push them. -/
inductive Located (ctx : Context) (m : Memo) (code : Code) (spelling : String) (place : Place) :
    Place → String → Prop where
  | self : Located ctx m code spelling place place spelling
  | element {p : Place} {part elem k : String} (h : Located ctx m code spelling place p part)
      (he : elementType? part = some elem) : Located ctx m code spelling place (.element p k) elem
  | member {p : Place} {part name : String} {members : List TupleMember} {member : TupleMember}
      (h : Located ctx m code spelling place p part) (hc : m.find? part = some (.structValue name .tuple))
      (hm : ctx.tupleMembers name = .ok members) (hmem : member ∈ members) :
      Located ctx m code spelling place (.memberOf p member.field) member.type
  | copied {p : Place} {part name value : String} {members : List TupleMember} {member : TupleMember}
      (h : Located ctx m code spelling place p part) (hcopy : CopiedTo m code p part name value)
      (hm : ctx.tupleMembers name = .ok members) (hmem : member ∈ members) :
      Located ctx m code spelling place (.member (.name value) member.field) member.type

/-- The spelling is that of an array of so many elements. -/
def IsArrayOf (spelling : String) (size : Nat) : Prop :=
  ∃ t inner, CType.parse spelling = .named t ∧ t.dims = some size :: inner

/-- An access that the value's place is written with, or one within the bounds that the array is declared
with. -/
def InBounds (ctx : Context) (m : Memo) (code : Code) (spelling : String) (place p : Place) (i : Nat) : Prop :=
  (∃ k, (p, k) ∈ place.accesses) ∨
    ∃ part size, Located ctx m code spelling place p part ∧ IsArrayOf part size ∧ i < size

/-- A place that may be written in code which takes temporaries from number `n` on: its accesses are within bounds,
and their indices are no counters that are still to be named. -/
def Safe (ctx : Context) (m : Memo) (whole : Code) (spelling : String) (place : Place) (n : Nat)
    (σ : String → Nat) (p : Place) : Prop :=
  ∀ q k, (q, k) ∈ p.accesses → (∃ k', (q, k') ∈ place.accesses) ∨
    ((∀ j, n ≤ j → k ≠ temporary j) ∧ InBounds ctx m whole spelling place q (σ k))

section

variable {ctx : Context} {m : Memo} {whole : Code} {spelling : String} {place : Place} {n n' : Nat}
  {σ : String → Nat} {p q : Place} {i : Nat}

theorem Safe.reaching (h : Safe ctx m whole spelling place n σ p) (hq : Reaching p.accesses q i σ) :
    InBounds ctx m whole spelling place q i := by
  obtain ⟨k, hmem, rfl⟩ := hq
  rcases h q k hmem with hown | ⟨-, hbounds⟩
  · exact .inl hown
  · exact hbounds

theorem Safe.self (σ : String → Nat) : Safe ctx m whole spelling place n σ place :=
  fun _ k hmem => .inl ⟨k, hmem⟩

theorem Safe.of_nil (h : p.accesses = []) : Safe ctx m whole spelling place n σ p := by
  intro q k hmem
  rw [h] at hmem
  cases hmem

/-- Later temporaries are no obstacle. -/
theorem Safe.mono (h : Safe ctx m whole spelling place n σ p) (hn : n ≤ n') :
    Safe ctx m whole spelling place n' σ p := by
  intro q k hmem
  rcases h q k hmem with hown | ⟨hfresh, hbounds⟩
  · exact .inl hown
  · exact .inr ⟨fun j hj => hfresh j (hn.trans hj), hbounds⟩

/-- **In a round of a loop over an array, its element is a safe place.** -/
theorem Safe.element (h : Safe ctx m whole spelling place n σ p) {part : String} {j size : Nat}
    (hpart : Located ctx m whole spelling place p part) (hsize : IsArrayOf part size) (hj : j < size)
    {i : Nat} (hi : n ≤ i) :
    Safe ctx m whole spelling place (i + 1) (Function.update σ (temporary i) j) (.element p (temporary i)) := by
  intro q k hmem
  rcases List.mem_cons.mp hmem with heq | hmem
  · cases heq
    refine .inr ⟨fun j' hj' heq => ?_, .inr ⟨part, size, hpart, hsize, ?_⟩⟩
    · have := temporary_inj heq
      omega
    · rwa [Function.update_self]
  · rcases h q k hmem with hown | ⟨hfresh, hbounds⟩
    · exact .inl hown
    · refine .inr ⟨fun j' hj' => hfresh j' (by omega), ?_⟩
      rwa [Function.update_of_ne (hfresh i hi)]

/-- What the memo says of an array's length is what its spelling says. -/
theorem isArrayOf_of_known (hm : m.Each SizedAs) {part elem : String} {c : Category} {size : Nat}
    (hc : m.find? part = some (.fixedArray c size)) (he : elementType? part = some elem) :
    IsArrayOf part size := by
  obtain ⟨t, d, inner, hparse, hdims, -⟩ := arrayDims_of_elementType? he
  rcases hm.find? hc t d inner hparse hdims with h | ⟨_, _, h, rfl, -⟩
  · cases h
  · cases h
    exact ⟨t, inner, hparse, hdims⟩

/-! ## Templates -/

theorem pushLines?_accesses {part : String} {c : Category} {ls : List Line} (hl : pushLines? part p c = some ls)
    (h : (Code.ofLines ls).Accesses q i σ) : Reaching p.accesses q i σ := by
  cases c with
  | void | structValue name shape | structPointer name shape isConst | handle isConst
  | pointer pointee isConst | fixedArray c size => cases hl
  | callback | unknown =>
    cases hl
    simp [Api.on, pushNil] at h
  | _ =>
    cases hl
    simpa [Api.on] using h

theorem accesses_copyCode {name copy : String} (h : (copyCode ctx name p copy).Accesses q i σ) :
    Reaching p.accesses q i σ := by
  simpa [copyCode, Api.on] using h

theorem accesses_unlessNullCode {pointer : Local} {source : Expr} {some : Code}
    (h : (unlessNullCode ctx pointer source some).Accesses q i σ) :
    Reaching source.accesses q i σ ∨ some.Accesses q i σ := by
  simpa [unlessNullCode, Code.branchOf, Api.on, pushNil] using h

theorem accesses_arrayCode {k : String} {size : Nat} {inside : Code}
    (h : (arrayCode k size inside).Accesses q i σ) :
    ∃ j < size, inside.Accesses q i (Function.update σ k j) := by
  rw [arrayCode, Code.accesses_line] at h
  obtain hnone | hloop := h
  · simp [Api.on] at hnone
  · obtain ⟨j, hj, hbody⟩ := Code.accesses_count hloop
    refine ⟨j, hj, ?_⟩
    simpa [Api.on] using hbody

theorem accesses_tupleCode {name value : String} {size : Nat} {inside : Code}
    (h : (tupleCode name value p size inside).Accesses q i σ) :
    Reaching p.accesses q i σ ∨ inside.Accesses q i σ := by
  simpa [tupleCode, Api.on] using h

theorem accesses_lightCode {pointer : String} : ¬ (Code.line (pushLight pointer) .done).Accesses q i σ := by
  simp [pushLight, Api.on]

theorem readLine?_accesses {mode : ReadMode} {part : String} {index : StackIndex} {c : Category} {l : Line}
    (hl : readLine? ctx mode part p index c = some l) (h : Reaching l.accesses q i σ) :
    Reaching p.accesses q i σ := by
  cases c with
  | void | structValue name shape | fixedArray c size => cases hl
  | structPointer name shape isConst =>
    cases hl
    split at h <;> simpa [assignCast, Api.on, Support.on] using h
  | handle isConst | pointer pointee isConst =>
    cases hl
    cases isConst <;> simpa [readPointer, Api.on] using h
  | callback | unknown =>
    cases hl
    exact absurd h reaching_nil
  | _ =>
    cases hl
    simpa [assignCast, Api.on] using h

theorem accesses_readBound {name : String} {index : StackIndex} {mode : ReadMode}
    (h : Reaching (readBound ctx name p index mode).accesses q i σ) : Reaching p.accesses q i σ := by
  cases mode <;> simpa [readBound, Api.on] using h

theorem accesses_copyUserdata {name pointer : String} {index : StackIndex} {mode : ReadMode}
    (h : (Code.ofLines (copyUserdata ctx name p index mode pointer)).Accesses q i σ) :
    Reaching p.accesses q i σ := by
  simpa [copyUserdata, Api.on] using h

theorem accesses_rangeCode {name pointer length : String} {range : ByteRange} {index : StackIndex}
    {mode : ReadMode} (h : (rangeCode ctx name range p index mode pointer length).Accesses q i σ) :
    Reaching p.accesses q i σ := by
  rw [rangeCode, Code.accesses_bare, Code.branchOf, Code.accesses_branch] at h
  rcases h with hnone | hrange | hcopy | hnone
  · exact absurd hnone reaching_nil
  · simpa [Api.on] using hrange
  · exact accesses_copyUserdata hcopy
  · exact hnone.elim

theorem accesses_tableCode {mode : ReadMode} {table : String} {index : StackIndex} {inside : Code}
    (h : (tableCode mode table index inside).Accesses q i σ) : inside.Accesses q i σ := by
  unfold tableCode at h
  cases mode <;> simpa [Code.branchOf, Api.on] using h

theorem accesses_elementsCode {table k : String} {size : Nat} {inside : Code}
    (h : (elementsCode table k size inside).Accesses q i σ) :
    ∃ j < size, inside.Accesses q i (Function.update σ k j) := by
  obtain ⟨j, hj, hbody⟩ := Code.accesses_count h
  refine ⟨j, hj, ?_⟩
  simpa [Api.on, popOne] using hbody

theorem accesses_memberCode {table : String} {position : Nat} {inside : Code}
    (h : (memberCode table position inside).Accesses q i σ) : inside.Accesses q i σ := by
  simpa [memberCode, Api.on, popOne] using h

end

/-! ## Pushing -/

section

variable {ctx : Context} {m : Memo} {whole : Code} {spelling : String} {place : Place} {n n' : Nat} {code : Code}
  {x : Local} {e : Expr}

theorem introduces_unlessNullCode {pointer : Local} {source : Expr} {some : Code} :
    (unlessNullCode ctx pointer source some).Introduces x e ↔
      (pointer = x ∧ source = e) ∨ some.Introduces x e := by
  simp [unlessNullCode, pushNil]

theorem introduces_arrayCode {k : String} {size : Nat} {inside : Code} :
    (arrayCode k size inside).Introduces x e ↔ inside.Introduces x e := by
  simp [arrayCode]

theorem introduces_tupleCode {name value : String} {source : Place} {size : Nat} {inside : Code} :
    (tupleCode name value source size inside).Introduces x e ↔
      (.plain name value = x ∧ .value source = e) ∨ inside.Introduces x e := by
  simp [tupleCode]

/-- What a job is about is a part of the value, and its place is safe. A tuple will have been copied from where it
is when it has been copied from the job's place. -/
def PushJob.Ready (ctx : Context) (m : Memo) (whole : Code) (spelling : String) (place : Place) (n : Nat)
    (σ : String → Nat) : PushJob → Prop
  | .value part p => Located ctx m whole spelling place p part ∧ Safe ctx m whole spelling place n σ p
  | .tuple name p =>
    (∃ q part, Located ctx m whole spelling place q part ∧ ∀ value,
      whole.Introduces (.plain name value) (.value p) → CopiedTo m whole q part name value) ∧
      Safe ctx m whole spelling place n σ p
  | .members copy _ rest =>
    ∀ member ∈ rest, Located ctx m whole spelling place (.member (.name copy) member.field) member.type

/-- **What pushes a value accesses no element that is not there.** -/
theorem Pushes.inBounds {job : PushJob} (hm : m.Each SizedAs) (h : Pushes ctx m job n code n') :
    (∀ x e, code.Introduces x e → whole.Introduces x e) → ∀ {σ : String → Nat},
      job.Ready ctx m whole spelling place n σ → ∀ {q : Place} {i : Nat}, code.Accesses q i σ →
        InBounds ctx m whole spelling place q i := by
  induction h with
  | direct _ hl =>
    rintro - σ ⟨-, hsafe⟩ q i hq
    exact hsafe.reaching (pushLines?_accesses hl hq)
  | copy =>
    rintro - σ ⟨-, hsafe⟩ q i hq
    exact hsafe.reaching (accesses_copyCode hq)
  | pointerTuple hc _ ih =>
    rintro hwhole σ ⟨hpart, hsafe⟩ q i hq
    have hpointer := hwhole _ _ (introduces_unlessNullCode.mpr (.inl ⟨rfl, rfl⟩))
    rcases accesses_unlessNullCode hq with hq | hq
    · exact hsafe.reaching hq
    · exact ih (fun x e h => hwhole x e (introduces_unlessNullCode.mpr (.inr h)))
        ⟨⟨_, _, hpart, fun value hvalue => .inr ⟨_, _, hc, hpointer, hvalue⟩⟩, .of_nil rfl⟩ hq
  | pointerCopy =>
    rintro - σ ⟨-, hsafe⟩ q i hq
    rcases accesses_unlessNullCode hq with hq | hq
    · exact hsafe.reaching hq
    · exact absurd (accesses_copyCode hq) reaching_nil
  | pointerLight =>
    rintro - σ ⟨-, hsafe⟩ q i hq
    rcases accesses_unlessNullCode hq with hq | hq
    · exact hsafe.reaching hq
    · exact absurd hq accesses_lightCode
  | rawPointer =>
    rintro - σ ⟨-, hsafe⟩ q i hq
    rcases accesses_unlessNullCode hq with hq | hq
    · exact hsafe.reaching hq
    · exact absurd hq accesses_lightCode
  | array hc he _ ih =>
    rintro hwhole σ ⟨hpart, hsafe⟩ q i hq
    obtain ⟨j, hj, hq⟩ := accesses_arrayCode hq
    exact ih (fun x e h => hwhole x e (introduces_arrayCode.mpr h))
      ⟨hpart.element he, hsafe.element hpart (isArrayOf_of_known hm hc he) hj le_rfl⟩ hq
  | tupleValue hc _ ih =>
    rintro hwhole σ ⟨hpart, hsafe⟩ q i hq
    exact ih hwhole ⟨⟨_, _, hpart, fun value hvalue => .inl ⟨hc, hvalue⟩⟩, hsafe⟩ hq
  | tuple hmembers _ ih =>
    rintro hwhole σ ⟨⟨_, _, hpart, hcopies⟩, hsafe⟩ q i hq
    have hcopy := hcopies _ (hwhole _ _ (introduces_tupleCode.mpr (.inl ⟨rfl, rfl⟩)))
    rcases accesses_tupleCode hq with hq | hq
    · exact hsafe.reaching hq
    · exact ih (fun x e h => hwhole x e (introduces_tupleCode.mpr (.inr h)))
        (fun member hmem => hpart.copied hcopy hmembers hmem) hq
  | nil =>
    intro _ σ _ q i hq
    exact hq.elim
  | cons _ _ ih ih' =>
    intro hwhole σ hready q i hq
    obtain ⟨hhead, htail⟩ := List.forall_mem_cons.mp hready
    rw [Code.accesses_append, Code.accesses_line] at hq
    rcases hq with hq | hq | hq
    · exact ih (fun x e h => hwhole x e (Code.introduces_append.mpr (.inl h))) ⟨hhead, .of_nil rfl⟩ hq
    · simp [storeAt, Api.on] at hq
    · exact ih' (fun x e h => hwhole x e (Code.introduces_append.mpr (.inr (.inr h)))) htail hq

end

/-! ## Reading -/

section

variable {ctx : Context} {m : Memo} {whole : Code} {spelling : String} {place : Place} {n n' : Nat} {code : Code}

/-- What a job is about is a part of the value, and its place is safe. -/
def ReadJob.Ready (ctx : Context) (m : Memo) (whole : Code) (spelling : String) (place : Place) (n : Nat)
    (σ : String → Nat) : ReadJob → Prop
  | .value _ part p _ => Located ctx m whole spelling place p part ∧ Safe ctx m whole spelling place n σ p
  | .tuple _ name p _ =>
    (∃ part, Located ctx m whole spelling place p part ∧ m.find? part = some (.structValue name .tuple)) ∧
      Safe ctx m whole spelling place n σ p
  | .members _ p _ rest =>
    (∀ member ∈ rest, Located ctx m whole spelling place (.memberOf p member.field) member.type) ∧
      Safe ctx m whole spelling place n σ p

/-- **What reads a value accesses no element that is not there.** -/
theorem Reads.inBounds {job : ReadJob} (hm : m.Each SizedAs) (h : Reads ctx m job n code n') :
    ∀ {σ : String → Nat}, job.Ready ctx m whole spelling place n σ → ∀ {q : Place} {i : Nat},
      code.Accesses q i σ → InBounds ctx m whole spelling place q i := by
  induction h with
  | oneLine _ hl =>
    rintro σ ⟨-, hsafe⟩ q i (hq | hq)
    · exact hsafe.reaching (readLine?_accesses hl hq)
    · exact hq.elim
  | bound =>
    rintro σ ⟨-, hsafe⟩ q i (hq | hq)
    · exact hsafe.reaching (accesses_readBound hq)
    · exact hq.elim
  | foreign =>
    rintro σ ⟨-, hsafe⟩ q i hq
    exact hsafe.reaching (accesses_copyUserdata (Code.accesses_bare.mp hq))
  | foreignRange =>
    rintro σ ⟨-, hsafe⟩ q i hq
    exact hsafe.reaching (accesses_rangeCode hq)
  | array hc he _ ih =>
    rintro σ ⟨hpart, hsafe⟩ q i hq
    obtain ⟨j, hj, hq⟩ := accesses_elementsCode (accesses_tableCode hq)
    exact ih ⟨hpart.element he, hsafe.element hpart (isArrayOf_of_known hm hc he) hj (Nat.le_succ _)⟩ hq
  | tupleValue hc _ ih =>
    rintro σ ⟨hpart, hsafe⟩ q i hq
    exact ih ⟨⟨_, hpart, hc⟩, hsafe⟩ hq
  | tuple hmembers _ ih =>
    rintro σ ⟨⟨_, hpart, hc⟩, hsafe⟩ q i hq
    exact ih ⟨fun member hmem => hpart.member hc hmembers hmem, hsafe.mono (Nat.le_succ _)⟩
      (accesses_tableCode hq)
  | nil =>
    intro σ _ q i hq
    exact hq.elim
  | cons head _ ih ih' =>
    rintro σ ⟨hparts, hsafe⟩ q i hq
    obtain ⟨hhead, htail⟩ := List.forall_mem_cons.mp hparts
    rcases Code.accesses_append.mp hq with hq | hq
    · exact ih ⟨hhead, hsafe⟩ (accesses_memberCode hq)
    · exact ih' ⟨htail, hsafe.mono head.declared.le⟩ hq

end

/-! ## Arrays -/

/-- The code that marshals an array has a loop for each of its dimensions and an element inside of all of them. A
loop counts with a variable that nothing else is named like, in this code or in code before or after it, and
no element is accessed that is not there. -/
structure ArrayMarshaled (outer l : ElementLoop) (ctx : Context) (marshal : String → Place → Draft Unit)
    (spelling : String) (t : NamedType) (place : Place) (s : Scratch) (code : Code) (s' : Scratch) : Prop where
  loops : ∃ sizes inside s₁, sizes ≠ [] ∧ Looped outer l t place marshal s code s' sizes inside s₁ ∧
    (l.counters s.temporaries sizes.length).Sublist code.declared
  distinct : code.declared.Nodup
  declared : ∀ v, v ∈ code.declared ↔ ∃ i, s.temporaries ≤ i ∧ i < s'.temporaries ∧ v = temporary i
  bounds : ∀ σ p i, code.Accesses p i σ → InBounds ctx s'.memo code spelling place p i

section

variable {outer l : ElementLoop} {ctx : Context} {marshal : String → Place → Draft Unit} {spelling : String}
  {t : NamedType} {place : Place} {s s' : Scratch} {code : Code}

theorem ArrayMarshaled.of_looped (hbefore : outer.before = l.before)
    (hlooped : t.dims ≠ [] ∧ ∃ sizes inside s₁, Looped outer l t place marshal s code s' sizes inside s₁)
    (hdeclares : code.Declares s.temporaries s'.temporaries)
    (hbounds : ∀ σ p i, code.Accesses p i σ → InBounds ctx s'.memo code spelling place p i) :
    ArrayMarshaled outer l ctx marshal spelling t place s code s' where
  loops := by
    obtain ⟨hdims, sizes, inside, s₁, h⟩ := hlooped
    refine ⟨sizes, inside, s₁, ?_, h, ?_⟩
    · rintro rfl
      exact hdims h.dims
    · rw [h.loops]
      exact ElementLoop.counters_sublist hbefore
  distinct := hdeclares.nodup
  declared _ := hdeclares.mem_iff
  bounds := hbounds

end

/-- A tuple with an array in it. -/
def cellContext : Context :=
  Classifying.fresh (Context.build {} { types := { tuples := [("Cell", ["corners:float[4][2]", "weight:double"])] } })

end LuaGlue
