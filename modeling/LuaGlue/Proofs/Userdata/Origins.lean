import LuaGlue.Proofs.Userdata.Accessors

/-!
# Where an accessor comes from

`Accessor.Of` has one rule for each way in which a field is accessed, with what the struct says about the
field then. A buffer is found by its pointer's field, so that the number of an accessor's buffer stands
for its key and for nothing else (`Accessor.Of.key_eq`).
-/

set_option autoImplicit false

namespace LuaGlue

/-- An accessor of a struct. -/
inductive Accessor.Of (s : StructDecl) : Accessor → Prop where
  | callback {f : Field} (hf : f ∈ s.fields) : Of s (f.accessor .callback)
  | buffer {f : Field} {bit : Nat} {buffer : OwnedBuffer} {elem : String} {count : Field}
      (hf : f ∈ s.fields) (hbuffer : s.bufferAt? f.name = some (bit, buffer))
      (helem : pointeeType? f.type = some elem) (hcount : s.field? buffer.countField = some count) :
      Of s (f.accessor (.ownedBuffer bit buffer.countField count.type elem))
  | count {f : Field} {buffer : OwnedBuffer} (hf : f ∈ s.fields) (hno : s.bufferAt? f.name = none)
      (hcount : s.ownedCount? f.name = some buffer) :
      Of s (f.accessor (.ownedCount buffer.pointerField))
  | value {f : Field} (hf : f ∈ s.fields) (hno : s.bufferAt? f.name = none)
      (hcount : s.ownedCount? f.name = none) : Of s (f.accessor .value)
  | member {outer key type : String} : Of s ⟨key, type, outer ++ "." ++ key, .value⟩

variable {ctx : Context} {s : StructDecl}

theorem flattenedMembers_of {outer : String} {nested : StructDecl} :
    ∀ {fields : List Field} {taken : List String} {members : List Accessor} {taken' : List String}
      {m m' : Memo}, (flattenedMembers ctx outer nested taken fields).run m = ((members, taken'), m') →
      ∀ a ∈ members, a.Of s := by
  intro fields
  induction fields with
  | nil =>
    intro taken members taken' m m' h
    obtain ⟨heq, -⟩ := Classifying.run_pure_eq.mp h
    cases heq
    exact fun a ha => absurd ha List.not_mem_nil
  | cons f rest ih =>
    intro taken members taken' m m' h
    obtain ⟨c, m₁, -, ⟨-, hrest⟩ | ⟨-, -, -, -, members', hrest, rfl⟩⟩ := flattenedMembers_cons h
    · exact ih hrest
    · exact List.forall_mem_cons.mpr ⟨.member, ih hrest⟩

theorem fieldAccessors_of {taken : List String} {f : Field} (hf : f ∈ s.fields) {as : List Accessor}
    {taken' : List String} {m m' : Memo}
    (h : (fieldAccessors ctx s taken f).run m = (.ok (as, taken'), m')) : ∀ a ∈ as, a.Of s := by
  obtain ⟨c, m₁, -, accessed⟩ := fieldAccessors_accessed h
  cases accessed with
  | leftOut => exact fun a ha => absurd ha List.not_mem_nil
  | callback => exact List.forall_mem_singleton.mpr (.callback hf)
  | ownedBuffer _ hbuffer haccess =>
    unfold ownedAccess at haccess
    split at haccess <;> cases haccess
    rename_i elem count helem hcount
    exact List.forall_mem_singleton.mpr (.buffer hf hbuffer helem hcount)
  | ownedCount _ hno hcount => exact List.forall_mem_singleton.mpr (.count hf hno hcount)
  | plain _ hno hcount => exact List.forall_mem_singleton.mpr (.value hf hno hcount)
  | unopened _ hno hcount => exact List.forall_mem_singleton.mpr (.value hf hno hcount)
  | opened _ hno hcount _ _ hmembers =>
    exact List.forall_mem_cons.mpr ⟨.value hf hno hcount, flattenedMembers_of hmembers⟩

theorem accessorsFrom_of :
    ∀ {fields : List Field} {taken : List String} {as : List Accessor} {m m' : Memo},
      (accessorsFrom ctx s taken fields).run m = (.ok as, m') → (∀ f ∈ fields, f ∈ s.fields) →
      ∀ a ∈ as, a.Of s := by
  intro fields
  induction fields with
  | nil =>
    intro taken as m m' h _
    obtain ⟨heq, -⟩ := Classifying.run_pure_eq.mp h
    cases heq
    exact fun a ha => absurd ha List.not_mem_nil
  | cons f rest ih =>
    intro taken as m m' h hfields
    obtain ⟨own, taken', m₁, others, hfield, hrest, rfl⟩ := accessorsFrom_cons h
    obtain ⟨hf, hfields⟩ := List.forall_mem_cons.mp hfields
    exact List.forall_mem_append.mpr ⟨fieldAccessors_of hf hfield, ih hrest hfields⟩

/-- **Every accessor of a struct is one by the rules.** -/
theorem accessors_of {as : List Accessor} {m m' : Memo}
    (h : (accessors ctx s).run m = (.ok as, m')) : ∀ a ∈ as, a.Of s :=
  accessorsFrom_of h fun _ hf => hf

/-! ## Buffers -/

/-- The buffer of a field is an entry of the struct that has the field for its pointer. -/
theorem StructDecl.bufferAt?_eq_some {name : String} {bit : Nat} {buffer : OwnedBuffer}
    (h : s.bufferAt? name = some (bit, buffer)) :
    s.ownedBuffers[bit]? = some buffer ∧ buffer.pointerField = name := by
  unfold StructDecl.bufferAt? at h
  split at h <;> cases h
  rename_i hbit hbuffer
  obtain ⟨-, rfl⟩ := List.findIdx?_eq_some_iff_findIdx_eq.mp hbit
  have hname := List.find?_some hbuffer
  exact ⟨List.find?_eq_getElem?_findIdx.symm.trans hbuffer, by simpa using hname⟩

/-- What a struct says about one of its buffers. -/
theorem Accessor.Of.buffer_entry {a : Accessor} (h : a.Of s) {bit : Nat} {countField countType elem : String}
    (ha : a.access = .ownedBuffer bit countField countType elem) :
    a.path = a.key ∧ s.ownedBuffers[bit]? = some ⟨a.key, countField⟩ := by
  cases h with
  | @buffer f bit buffer elem count hf hbuffer helem hcount =>
    cases ha
    obtain ⟨hentry, hname⟩ := StructDecl.bufferAt?_eq_some hbuffer
    exact ⟨rfl, by rw [hentry, Field.accessor, ← hname]⟩
  | callback | count | value | member => cases ha

theorem Accessor.Of.callback_path {a : Accessor} (h : a.Of s) (ha : a.access = .callback) :
    a.path = a.key := by
  cases h with
  | callback | buffer | count | value => rfl
  | member => cases ha

/-- Two accessors of one bit have one key. -/
theorem Accessor.Of.key_eq {a a' : Accessor} (h : a.Of s) (h' : a'.Of s) {bit : Nat}
    {countField countType elem countField' countType' elem' : String}
    (ha : a.access = .ownedBuffer bit countField countType elem)
    (ha' : a'.access = .ownedBuffer bit countField' countType' elem') : a.key = a'.key := by
  have hentry := (h.buffer_entry ha).2.symm.trans (h'.buffer_entry ha').2
  exact congrArg OwnedBuffer.pointerField (Option.some.inj hentry)

end LuaGlue
