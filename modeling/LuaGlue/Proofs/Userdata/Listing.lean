import LuaGlue.Proofs.Userdata.Accessors

/-!
# What stands for a field

The accessors of a struct are one entry for each of its fields but variadic callbacks, in the order of
declaration: an accessor under the field's own name, of the sort that the field's role calls for, and
after it the members that a flattened field is opened into (`accessors_listed`).

All of this is said over one memo, the one that is reached in the end; what was asked on the way has the
same answer in it.
-/

set_option autoImplicit false

namespace LuaGlue

/-! ## Roles -/

/-- A variadic callback. Scripts have no access to such fields. -/
def Memo.leavesOut (m : Memo) (f : Field) : Bool :=
  (m.find? f.type).any fun c => c.isCallback && !c.isBindable

/-- The access that the role of a field calls for. Being a callback goes before the field's part in an
owned buffer, and being a buffer before being a count. -/
inductive Role (m : Memo) (s : StructDecl) (f : Field) : Access → Prop where
  | callback {c} (hc : m.find? f.type = some c) (hb : c.isBindable = true) : Role m s f .callback
  | ownedBuffer {c bit buffer access} (hc : m.find? f.type = some c) (hn : c.isCallback = false)
      (hbuffer : s.bufferAt? f.name = some (bit, buffer))
      (haccess : ownedAccess s f bit buffer = .ok access) : Role m s f access
  | ownedCount {c buffer} (hc : m.find? f.type = some c) (hn : c.isCallback = false)
      (hbuffer : s.bufferAt? f.name = none) (hcount : s.ownedCount? f.name = some buffer) :
      Role m s f (.ownedCount buffer.pointerField)
  | value {c} (hc : m.find? f.type = some c) (hn : c.isCallback = false)
      (hbuffer : s.bufferAt? f.name = none) (hcount : s.ownedCount? f.name = none) : Role m s f .value

/-! ## Members -/

/-- The accessor of a field of a struct that the field `outer` holds. -/
def Field.memberOf (outer : String) (f : Field) : Accessor :=
  ⟨f.name, f.type, outer ++ "." ++ f.name, .value⟩

/-- A field of a nested struct that is neither a callback nor has a part in an owned buffer. -/
def Memo.opens (m : Memo) (nested : StructDecl) (f : Field) : Bool :=
  (m.find? f.type).any (!·.isCallback) && (nested.ownedBuffer? f.name).isNone &&
    (nested.ownedCount? f.name).isNone

/-- The struct of this interface that a category is the values of. -/
def structOf? (ctx : Context) : Category → Option StructDecl
  | .structValue name _ => ctx.interface.struct? name
  | _ => none

/-- The fields that a flattened field offers as members: those of its struct that can be opened. -/
def Memo.offered (ctx : Context) (m : Memo) (s : StructDecl) (f : Field) : List Field :=
  if (ctx.manifest.flattenedFields s.name).contains f.name then
    match (m.find? f.type).bind (structOf? ctx) with
    | some nested => nested.fields.filter (m.opens nested)
    | none => []
  else []

theorem Memo.offered_none {ctx : Context} {m : Memo} {s : StructDecl} {f : Field} {c : Category}
    (hflattened : (ctx.manifest.flattenedFields s.name).contains f.name = true)
    (hc : m.find? f.type = some c) (hnested : structOf? ctx c = none) : m.offered ctx s f = [] := by
  rw [Memo.offered, if_pos hflattened, hc, Option.bind_some, hnested]

theorem Memo.offered_some {ctx : Context} {m : Memo} {s nested : StructDecl} {f : Field} {c : Category}
    (hflattened : (ctx.manifest.flattenedFields s.name).contains f.name = true)
    (hc : m.find? f.type = some c) (hnested : structOf? ctx c = some nested) :
    m.offered ctx s f = nested.fields.filter (m.opens nested) := by
  rw [Memo.offered, if_pos hflattened, hc, Option.bind_some, hnested]

/-- The members that some fields are made: in order, only those whose name is not taken, and every one
whose name is not. -/
structure MadeMembers (outer : String) (fields : List Field) (taken : List String)
    (members : List Accessor) : Prop where
  sublist : members.Sublist (fields.map (Field.memberOf outer))
  fresh : ∀ a ∈ members, a.key ∉ taken
  complete : ∀ f ∈ fields, f.name ∈ taken ∨ f.name ∈ members.map (·.key)

theorem MadeMembers.none (outer : String) (taken : List String) : MadeMembers outer [] taken [] :=
  ⟨.slnil, by simp, by simp⟩

section

variable {ctx : Context} {final : Memo}

theorem flattenedMembers_made {outer : String} {nested : StructDecl} :
    ∀ {fields : List Field} {taken : List String} {members : List Accessor} {taken' : List String}
      {m m' : Memo}, (flattenedMembers ctx outer nested taken fields).run m = ((members, taken'), m') →
      m'.Grows final → MadeMembers outer (fields.filter (final.opens nested)) taken members := by
  intro fields
  induction fields with
  | nil =>
    intro taken members taken' m m' h _
    obtain ⟨heq, -⟩ := Classifying.run_pure_eq.mp h
    cases heq
    exact .none outer taken
  | cons f rest ih =>
    intro taken members taken' m m' h hm
    obtain ⟨c, m₁, hanswer, step⟩ := flattenedMembers_cons h
    -- what the rest asks for leaves the answer about this field as it is
    have hopens (hgrows : m₁.Grows final) : final.opens nested f =
        (!c.isCallback && (nested.ownedBuffer? f.name).isNone &&
          (nested.ownedCount? f.name).isNone) := by
      simp [Memo.opens, hgrows _ _ hanswer]
    rcases step with ⟨hskip, hrest⟩ | ⟨hn, hbuffer, hcount, hfresh, members', hrest, rfl⟩
    · have hgrows := ((flattenedMembers_lasts ctx outer nested rest taken).grows.of_run hrest).trans hm
      have made := ih hrest hm
      rw [List.filter_cons, hopens hgrows]
      split
      · -- the field could be opened, so its name was taken
        rename_i hopen
        simp only [Bool.and_eq_true, Bool.not_eq_true', Option.isNone_iff_eq_none] at hopen
        obtain ⟨⟨hn, hbuffer⟩, hcount⟩ := hopen
        exact ⟨made.sublist.cons _, made.fresh,
          List.forall_mem_cons.mpr ⟨.inl (hskip hn hbuffer hcount), made.complete⟩⟩
      · exact made
    · have hgrows := ((flattenedMembers_lasts ctx outer nested rest _).grows.of_run hrest).trans hm
      have made := ih hrest hm
      have hopen : final.opens nested f = true := by
        rw [hopens hgrows, hn, hbuffer, hcount]
        rfl
      rw [List.filter_cons_of_pos hopen]
      refine ⟨made.sublist.cons_cons _, List.forall_mem_cons.mpr ⟨hfresh, fun a ha htaken =>
        made.fresh a ha (List.mem_cons_of_mem _ htaken)⟩, List.forall_mem_cons.mpr
          ⟨.inr List.mem_cons_self, fun g hg => ?_⟩⟩
      rcases made.complete g hg with hg | hg
      · rcases List.mem_cons.mp hg with hg | hg
        · exact .inr (by rw [hg]; exact List.mem_cons_self)
        · exact .inl hg
      · exact .inr (List.mem_cons_of_mem _ hg)

end

/-! ## Entries -/

/-- What stands for one field. -/
structure FieldEntry where
  field : Field
  access : Access
  members : List Accessor

/-- An accessor under the field's own name, and the members directly after it. -/
def FieldEntry.accessors (e : FieldEntry) : List Accessor := e.field.accessor e.access :: e.members

/-- The fields that an entry may be opened into. Only a plain field is opened. -/
def FieldEntry.offered (ctx : Context) (m : Memo) (s : StructDecl) (e : FieldEntry) : List Field :=
  if e.access = .value then m.offered ctx s e.field else []

/-- The entry is right for its field when some names are taken. -/
structure FieldEntry.Right (ctx : Context) (m : Memo) (s : StructDecl) (taken : List String)
    (e : FieldEntry) : Prop where
  entered : m.leavesOut e.field = false
  role : Role m s e.field e.access
  members : MadeMembers e.field.name (e.offered ctx m s) taken e.members

section

variable {ctx : Context} {s : StructDecl} {final : Memo}

theorem ownedAccess_ne_value {f : Field} {bit : Nat} {buffer : OwnedBuffer} :
    ownedAccess s f bit buffer ≠ .ok .value := by
  unfold ownedAccess
  split <;> simp

/-- For a field whose category is known, nothing has to be asked to find its struct. -/
theorem nestedStruct?_known {f : Field} {c : Category} {m m' : Memo} {nested : Option StructDecl}
    (hc : m.find? f.type = some c) (h : (nestedStruct? ctx f).run m = (nested, m')) :
    nested = structOf? ctx c ∧ m' = m := by
  obtain ⟨c', m₁, hask, hreturn⟩ := Classifying.run_bind_eq.mp h
  have hsame : (ctx.classify f.type).run m = (c, m) := classify_known hc
  rw [hsame] at hask
  cases hask
  cases c <;> (obtain ⟨rfl, rfl⟩ := Classifying.run_pure_eq.mp hreturn; exact ⟨rfl, rfl⟩)

/-- An entry without members, for a field that offers none. -/
theorem FieldEntry.Right.alone {taken : List String} {f : Field} {access : Access}
    (hentered : final.leavesOut f = false) (hrole : Role final s f access)
    (hnone : access = .value → final.offered ctx s f = []) :
    (FieldEntry.mk f access []).Right ctx final s taken where
  entered := hentered
  role := hrole
  members := by
    unfold FieldEntry.offered
    split
    · rename_i hvalue
      rw [hnone hvalue]
      exact .none f.name taken
    · exact .none f.name taken

/-- One field: it is left out, or has an entry. -/
theorem fieldAccessors_entered {taken : List String} {f : Field} {as : List Accessor}
    {taken' : List String} {m m' : Memo}
    (h : (fieldAccessors ctx s taken f).run m = (.ok (as, taken'), m')) (hm : m'.Grows final) :
    (as = [] ∧ taken' = taken ∧ final.leavesOut f = true) ∨
      ∃ e : FieldEntry, e.field = f ∧ as = e.accessors ∧ e.Right ctx final s taken ∧
        ∀ name, name ∈ taken' ↔ name ∈ taken ∨ name ∈ e.members.map (·.key) := by
  obtain ⟨c, m₁, answered, accessed⟩ := fieldAccessors_accessed h
  have known (hgrows : m₁.Grows final) : final.find? f.type = some c := hgrows _ _ answered
  have entered (hgrows : m₁.Grows final) (hn : c.isCallback = false) :
      final.leavesOut f = false := by
    simp [Memo.leavesOut, known hgrows, hn]
  -- an accessor by itself
  have alone {access : Access} (hentered : final.leavesOut f = false) (hrole : Role final s f access)
      (hnone : access = .value → final.offered ctx s f = []) :
      ∃ e : FieldEntry, e.field = f ∧ [f.accessor access] = e.accessors ∧ e.Right ctx final s taken ∧
        ∀ name, name ∈ taken ↔ name ∈ taken ∨ name ∈ e.members.map (·.key) :=
    ⟨⟨f, access, []⟩, rfl, rfl, .alone hentered hrole hnone, by simp⟩
  cases accessed with
  | leftOut hcallback hb =>
    refine .inl ⟨rfl, rfl, ?_⟩
    simp [Memo.leavesOut, known hm, hb, hcallback]
  | callback hb =>
    refine .inr (alone ?_ (.callback (known hm) hb) (by simp))
    simp [Memo.leavesOut, known hm, hb]
  | ownedBuffer hn hbuffer haccess =>
    refine .inr (alone (entered hm hn) (.ownedBuffer (known hm) hn hbuffer haccess) fun hvalue => ?_)
    rw [hvalue] at haccess
    exact absurd haccess ownedAccess_ne_value
  | ownedCount hn hno hcount =>
    exact .inr (alone (entered hm hn) (.ownedCount (known hm) hn hno hcount) (by simp))
  | plain hn hno hcount hflattened =>
    exact .inr (alone (entered hm hn) (.value (known hm) hn hno hcount) fun _ => if_neg hflattened)
  | unopened hn hno hcount hflattened hnested =>
    obtain ⟨hnone, rfl⟩ := nestedStruct?_known answered hnested
    exact .inr (alone (entered hm hn) (.value (known hm) hn hno hcount) fun _ =>
      Memo.offered_none hflattened (known hm) hnone.symm)
  | opened hn hno hcount hflattened hnested hmembers =>
    obtain ⟨hsome, rfl⟩ := nestedStruct?_known answered hnested
    have hgrows := ((flattenedMembers_lasts ctx f.name _ _ _).grows.of_run hmembers).trans hm
    refine .inr ⟨⟨f, .value, _⟩, rfl, rfl,
      ⟨entered hgrows hn, .value (known hgrows) hn hno hcount, ?_⟩,
      (flattenedMembers_flattened hmembers).taken_iff⟩
    rw [FieldEntry.offered, if_pos rfl, Memo.offered_some hflattened (known hgrows) hsome.symm]
    exact flattenedMembers_made hmembers hm

/-! ## All fields -/

/-- The entries of some fields when some names are taken. -/
structure Listing (ctx : Context) (m : Memo) (s : StructDecl) (taken : List String)
    (fields : List Field) (entries : List FieldEntry) : Prop where
  /-- There is one for every field that is not left out, in the order of the fields. -/
  fields : entries.map (·.field) = fields.filter (!m.leavesOut ·)
  roles : ∀ e ∈ entries, Role m s e.field e.access
  /-- Members come in order from the struct that is opened. -/
  members : ∀ e ∈ entries,
    e.members.Sublist ((e.offered ctx m s).map (Field.memberOf e.field.name))
  fresh : ∀ e ∈ entries, ∀ a ∈ e.members, a.key ∉ taken
  /-- What is not made a member has a name that was taken or is given. -/
  complete : ∀ e ∈ entries, ∀ f ∈ e.offered ctx m s,
    f.name ∈ taken ∨ f.name ∈ (entries.flatMap FieldEntry.accessors).map (·.key)

theorem accessorsFrom_listed :
    ∀ {fields : List Field} {taken : List String} {as : List Accessor} {m m' : Memo},
      (accessorsFrom ctx s taken fields).run m = (.ok as, m') → m'.Grows final →
      ∃ entries, as = entries.flatMap FieldEntry.accessors ∧
        Listing ctx final s taken fields entries := by
  intro fields
  induction fields with
  | nil =>
    intro taken as m m' h _
    obtain ⟨heq, -⟩ := Classifying.run_pure_eq.mp h
    cases heq
    exact ⟨[], rfl, rfl, by simp, by simp, by simp, by simp⟩
  | cons f rest ih =>
    intro taken as m m' h hm
    obtain ⟨own, taken', m₁, others, hfield, hrest, rfl⟩ := accessorsFrom_cons h
    have hgrows := ((accessorsFrom_lasts ctx s rest taken').grows.of_run hrest).trans hm
    obtain ⟨entries, rfl, listed⟩ := ih hrest hm
    rcases fieldAccessors_entered hfield hgrows with ⟨rfl, rfl, hout⟩ | ⟨e, rfl, rfl, right, htaken⟩
    · refine ⟨entries, rfl, ?_, listed.roles, listed.members, listed.fresh, listed.complete⟩
      rw [listed.fields, List.filter_cons_of_neg (by simp [hout])]
    · refine ⟨e :: entries, rfl, ?_, List.forall_mem_cons.mpr ⟨right.role, listed.roles⟩,
        List.forall_mem_cons.mpr ⟨right.members.sublist, listed.members⟩,
        List.forall_mem_cons.mpr ⟨right.members.fresh, fun e' he' a ha hmem =>
          listed.fresh e' he' a ha ((htaken _).mpr (.inl hmem))⟩,
        List.forall_mem_cons.mpr ⟨fun g hg => ?_, fun e' he' g hg => ?_⟩⟩
      · rw [List.map_cons, listed.fields, List.filter_cons_of_pos (by simp [right.entered])]
      · rw [List.flatMap_cons, List.map_append]
        exact (right.members.complete g hg).imp_right fun hmem =>
          List.mem_append_left _ (List.mem_cons_of_mem _ hmem)
      · -- a name that was taken in between is that of a member made here
        rw [List.flatMap_cons, List.map_append]
        rcases listed.complete e' he' g hg with hmem | hmem
        · exact ((htaken _).mp hmem).imp_right fun hmem =>
            List.mem_append_left _ (List.mem_cons_of_mem _ hmem)
        · exact .inr (List.mem_append_right _ hmem)

/-- **The accessors of a struct** are the entries of its fields. -/
theorem accessors_listed {as : List Accessor} {m m' : Memo}
    (h : (accessors ctx s).run m = (.ok as, m')) (hm : m'.Grows final) :
    ∃ entries, as = entries.flatMap FieldEntry.accessors ∧
      Listing ctx final s (s.fields.map (·.name)) s.fields entries :=
  accessorsFrom_listed h hm

end

end LuaGlue
