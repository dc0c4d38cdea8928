import LuaGlue.Callback
import LuaGlue.Proofs.Classifier.Memo
import LuaGlue.Userdata.Accessor

/-!
# The accessors of a struct

How a field comes by its accessors is said once, with one rule for each way (`Accessed`), and so is what
becomes of one field of a struct that is flattened (`flattenedMembers_cons`). A field contributes at most
an accessor under its own name, followed by members of the struct it flattens (`fieldAccessors_ok`).

From that come the two facts that naming and linkage rest on: no key is given twice if no field name is
(`accessors_keys_nodup`), and a callback is accessed only where the memo says that it can be bound
(`accessors_callback`). The slots of some structs are among their fields, in order, and have every callback
that can be bound (`collectSlots_spec`).
-/

set_option autoImplicit false

namespace LuaGlue

variable {ctx : Context}

/-! ## What is asked -/

theorem nestedStruct?_lasts (ctx : Context) (f : Field) : (nestedStruct? ctx f).Lasts := by
  refine (classify_lasts ctx.index f.type).bind fun c => ?_
  split <;> exact .pure _

theorem flattenedMembers_lasts (ctx : Context) (outer : String) (nested : StructDecl) :
    ∀ (fields : List Field) (taken : List String),
      (flattenedMembers ctx outer nested taken fields).Lasts := by
  intro fields
  induction fields with
  | nil => intro _; exact .pure _
  | cons f rest ih =>
    intro taken
    refine (classify_lasts ctx.index f.type).bind fun c => ?_
    split
    · exact ih taken
    · exact (ih _).bind fun _ => .pure _

theorem fieldAccessors_lasts (ctx : Context) (s : StructDecl) (taken : List String) (f : Field) :
    (fieldAccessors ctx s taken f).Lasts := by
  refine (classify_lasts ctx.index f.type).bind fun c => ?_
  split
  · exact .pure _
  · split
    · exact .pure _
    · split
      · exact .pure _
      · split
        · refine (nestedStruct?_lasts ctx f).bind fun nested => ?_
          cases nested with
          | some nested => exact (flattenedMembers_lasts ctx f.name nested _ _).bind fun _ => .pure _
          | none => exact .pure _
        · exact .pure _

theorem accessorsFrom_lasts (ctx : Context) (s : StructDecl) :
    ∀ (fields : List Field) (taken : List String), (accessorsFrom ctx s taken fields).Lasts := by
  intro fields
  induction fields with
  | nil => intro _; exact .pure _
  | cons f rest ih =>
    intro taken
    refine (fieldAccessors_lasts ctx s taken f).bind fun answer => ?_
    cases answer with
    | error fault => exact .pure _
    | ok given => exact (ih given.2).bind fun _ => .pure _

theorem accessors_lasts (ctx : Context) (s : StructDecl) : (accessors ctx s).Lasts :=
  accessorsFrom_lasts ctx s s.fields _

/-! ## One field -/

/-- One field of a nested struct: it is no member, or it is one and its name is taken from then on. -/
theorem flattenedMembers_cons {outer : String} {nested : StructDecl} {f : Field} {rest : List Field}
    {taken taken' : List String} {members : List Accessor} {m m' : Memo}
    (h : (flattenedMembers ctx outer nested taken (f :: rest)).run m = ((members, taken'), m')) :
    ∃ c m₁, m₁.find? f.type = some c ∧
      ((c.isCallback = false → nested.ownedBuffer? f.name = none → nested.ownedCount? f.name = none →
          f.name ∈ taken) ∧
        (flattenedMembers ctx outer nested taken rest).run m₁ = ((members, taken'), m') ∨
      c.isCallback = false ∧ nested.ownedBuffer? f.name = none ∧ nested.ownedCount? f.name = none ∧
        f.name ∉ taken ∧ ∃ members',
          (flattenedMembers ctx outer nested (f.name :: taken) rest).run m₁ = ((members', taken'), m') ∧
          members = ⟨f.name, f.type, outer ++ "." ++ f.name, .value⟩ :: members') := by
  obtain ⟨c, m₁, hask, h₁⟩ := Classifying.run_bind_eq.mp h
  refine ⟨c, m₁, classify_answered hask, ?_⟩
  split at h₁
  · rename_i hskip
    refine .inl ⟨fun hn hbuffer hcount => ?_, h₁⟩
    simpa [hn, hbuffer, hcount] using hskip
  · rename_i hkept
    obtain ⟨⟨members', taken''⟩, m₂, hrest, hreturn⟩ := Classifying.run_bind_eq.mp h₁
    obtain ⟨heq, rfl⟩ := Classifying.run_pure_eq.mp hreturn
    cases heq
    simp only [Bool.or_eq_true, not_or, Bool.not_eq_true, Option.isSome_eq_false_iff,
      Option.isNone_iff_eq_none, List.contains_eq_mem, decide_eq_false_iff_not] at hkept
    obtain ⟨⟨⟨hn, hbuffer⟩, hcount⟩, htaken⟩ := hkept
    exact .inr ⟨hn, hbuffer, hcount, htaken, members', hrest, rfl⟩

/-- What a field whose type has the category `c` comes to, with one rule for each way in which a field is
accessed: its accessors, the names that are taken then, and what is known then. -/
inductive Accessed (ctx : Context) (s : StructDecl) (taken : List String) (f : Field) (c : Category)
    (m : Memo) : List Accessor → List String → Memo → Prop where
  | leftOut (hcallback : c.isCallback = true) (hb : c.isBindable = false) :
      Accessed ctx s taken f c m [] taken m
  | callback (hb : c.isBindable = true) : Accessed ctx s taken f c m [f.accessor .callback] taken m
  | ownedBuffer {bit : Nat} {buffer : OwnedBuffer} {access : Access} (hn : c.isCallback = false)
      (hbuffer : s.bufferAt? f.name = some (bit, buffer))
      (haccess : ownedAccess s f bit buffer = .ok access) :
      Accessed ctx s taken f c m [f.accessor access] taken m
  | ownedCount {buffer : OwnedBuffer} (hn : c.isCallback = false) (hno : s.bufferAt? f.name = none)
      (hcount : s.ownedCount? f.name = some buffer) :
      Accessed ctx s taken f c m [f.accessor (.ownedCount buffer.pointerField)] taken m
  | plain (hn : c.isCallback = false) (hno : s.bufferAt? f.name = none)
      (hcount : s.ownedCount? f.name = none)
      (hflattened : ¬ (ctx.manifest.flattenedFields s.name).contains f.name = true) :
      Accessed ctx s taken f c m [f.accessor .value] taken m
  /-- The field is to be flattened, and is no struct. -/
  | unopened {m' : Memo} (hn : c.isCallback = false) (hno : s.bufferAt? f.name = none)
      (hcount : s.ownedCount? f.name = none)
      (hflattened : (ctx.manifest.flattenedFields s.name).contains f.name = true)
      (hnested : (nestedStruct? ctx f).run m = (none, m')) :
      Accessed ctx s taken f c m [f.accessor .value] taken m'
  | opened {nested : StructDecl} {members : List Accessor} {taken' : List String} {m₁ m' : Memo}
      (hn : c.isCallback = false) (hno : s.bufferAt? f.name = none)
      (hcount : s.ownedCount? f.name = none)
      (hflattened : (ctx.manifest.flattenedFields s.name).contains f.name = true)
      (hnested : (nestedStruct? ctx f).run m = (some nested, m₁))
      (hmembers : (flattenedMembers ctx f.name nested taken nested.fields).run m₁ =
        ((members, taken'), m')) :
      Accessed ctx s taken f c m (f.accessor .value :: members) taken' m'

/-- **A field is accessed by one of the rules**, if it does not fail. -/
theorem fieldAccessors_accessed {s : StructDecl} {taken : List String} {f : Field} {as : List Accessor}
    {taken' : List String} {m m' : Memo}
    (h : (fieldAccessors ctx s taken f).run m = (.ok (as, taken'), m')) :
    ∃ c m₁, m₁.find? f.type = some c ∧ Accessed ctx s taken f c m₁ as taken' m' := by
  obtain ⟨c, m₁, hask, h₁⟩ := Classifying.run_bind_eq.mp h
  refine ⟨c, m₁, classify_answered hask, ?_⟩
  split at h₁
  · rename_i hcallback
    obtain ⟨heq, rfl⟩ := Classifying.run_pure_eq.mp h₁
    cases hb : c.isBindable with
    | true =>
      rw [hb] at heq
      cases heq
      exact .callback hb
    | false =>
      rw [hb] at heq
      cases heq
      exact .leftOut hcallback hb
  · rename_i hcallback
    have hn : c.isCallback = false := Bool.of_not_eq_true hcallback
    split at h₁
    · rename_i bit buffer hbuffer
      obtain ⟨heq, rfl⟩ := Classifying.run_pure_eq.mp h₁
      cases haccess : ownedAccess s f bit buffer with
      | error fault =>
        rw [haccess] at heq
        cases heq
      | ok access =>
        rw [haccess] at heq
        cases heq
        exact .ownedBuffer hn hbuffer haccess
    · rename_i hno
      split at h₁
      · rename_i buffer hcount
        obtain ⟨heq, rfl⟩ := Classifying.run_pure_eq.mp h₁
        cases heq
        exact .ownedCount hn hno hcount
      · rename_i hcount
        split at h₁
        · rename_i hflattened
          obtain ⟨nested, m₂, hnested, h₂⟩ := Classifying.run_bind_eq.mp h₁
          cases nested with
          | some nested =>
            obtain ⟨⟨members, taken''⟩, m₃, hmembers, hreturn⟩ := Classifying.run_bind_eq.mp h₂
            obtain ⟨heq, rfl⟩ := Classifying.run_pure_eq.mp hreturn
            cases heq
            exact .opened hn hno hcount hflattened hnested hmembers
          | none =>
            obtain ⟨heq, rfl⟩ := Classifying.run_pure_eq.mp h₂
            cases heq
            exact .unopened hn hno hcount hflattened hnested
        · rename_i hflattened
          obtain ⟨heq, rfl⟩ := Classifying.run_pure_eq.mp h₁
          cases heq
          exact .plain hn hno hcount hflattened

/-! ## Keys and callbacks of one field -/

/-- Members of a flattened field: plain fields under keys that are not taken, which are taken then. -/
structure Flattened (taken : List String) (members : List Accessor) (taken' : List String) : Prop where
  plain : ∀ a ∈ members, a.access = .value
  fresh : ∀ a ∈ members, a.key ∉ taken
  nodup : (members.map (·.key)).Nodup
  taken_iff : ∀ name, name ∈ taken' ↔ name ∈ taken ∨ name ∈ members.map (·.key)

theorem Flattened.nil (taken : List String) : Flattened taken [] taken :=
  ⟨by simp, by simp, List.nodup_nil, by simp⟩

theorem flattenedMembers_flattened {outer : String} {nested : StructDecl} :
    ∀ {fields : List Field} {taken : List String} {members : List Accessor} {taken' : List String}
      {m m' : Memo}, (flattenedMembers ctx outer nested taken fields).run m = ((members, taken'), m') →
      Flattened taken members taken' := by
  intro fields
  induction fields with
  | nil =>
    intro taken members taken' m m' h
    obtain ⟨heq, -⟩ := Classifying.run_pure_eq.mp h
    cases heq
    exact .nil taken
  | cons f rest ih =>
    intro taken members taken' m m' h
    obtain ⟨c, m₁, -, ⟨-, hrest⟩ | ⟨-, -, -, hf, members', hrest, rfl⟩⟩ := flattenedMembers_cons h
    · exact ih hrest
    · obtain ⟨plain, fresh, nodup, taken_iff⟩ := ih hrest
      refine ⟨List.forall_mem_cons.mpr ⟨rfl, plain⟩, List.forall_mem_cons.mpr ⟨hf, ?_⟩, ?_, ?_⟩
      · exact fun a ha htaken => fresh a ha (List.mem_cons_of_mem _ htaken)
      · refine List.nodup_cons.mpr ⟨?_, nodup⟩
        intro hmem
        obtain ⟨a, ha, hkey⟩ := List.mem_map.mp hmem
        exact fresh a ha (by rw [hkey]; exact List.mem_cons_self)
      · intro name
        rw [taken_iff, List.map_cons, List.mem_cons, List.mem_cons, or_assoc, or_left_comm]

/-- What a field contributes: nothing, or an accessor of its own and members of its struct. -/
structure Contributes (m : Memo) (taken : List String) (f : Field) (as : List Accessor)
    (taken' : List String) : Prop where
  split : (as = [] ∧ taken' = taken) ∨
    ∃ access members, as = f.accessor access :: members ∧ Flattened taken members taken'
  bindable : ∀ a ∈ as, a.access = .callback →
    a.key = f.name ∧ ∃ c, m.find? f.type = some c ∧ c.isBindable = true

/-- A field that is accessed under its own name and is no callback. -/
theorem Contributes.own {m : Memo} {taken taken' : List String} {f : Field} {access : Access}
    {members : List Accessor} (hmembers : Flattened taken members taken')
    (ha : access ≠ .callback) :
    Contributes m taken f (f.accessor access :: members) taken' where
  split := .inr ⟨access, members, rfl, hmembers⟩
  bindable := by
    intro a hmem hcallback
    rcases List.mem_cons.mp hmem with rfl | hmem
    · exact absurd hcallback ha
    · rw [hmembers.plain a hmem] at hcallback
      exact absurd hcallback (by decide)

theorem ownedAccess_ne_callback {s : StructDecl} {f : Field} {bit : Nat} {buffer : OwnedBuffer}
    {access : Access} (h : ownedAccess s f bit buffer = .ok access) : access ≠ .callback := by
  unfold ownedAccess at h
  split at h
  · cases h
    simp
  · exact absurd h (by simp)

theorem fieldAccessors_ok {s : StructDecl} {taken : List String} {f : Field} {as : List Accessor}
    {taken' : List String} {m m' : Memo}
    (h : (fieldAccessors ctx s taken f).run m = (.ok (as, taken'), m')) :
    Contributes m' taken f as taken' := by
  obtain ⟨c, m₁, hc, accessed⟩ := fieldAccessors_accessed h
  cases accessed with
  | leftOut => exact ⟨.inl ⟨rfl, rfl⟩, by simp⟩
  | callback hb =>
    refine ⟨.inr ⟨_, [], rfl, .nil taken⟩, fun a ha _ => ?_⟩
    rw [List.mem_singleton.mp ha]
    exact ⟨rfl, c, hc, hb⟩
  | ownedBuffer _ _ haccess => exact .own (.nil taken) (ownedAccess_ne_callback haccess)
  | ownedCount => exact .own (.nil taken) (by simp)
  | plain => exact .own (.nil taken) (by simp)
  | unopened => exact .own (.nil taken) (by simp)
  | opened _ _ _ _ _ hmembers => exact .own (flattenedMembers_flattened hmembers) (by simp)

/-! ## All fields -/

theorem accessorsFrom_cons {s : StructDecl} {taken : List String} {f : Field} {rest : List Field}
    {as : List Accessor} {m m' : Memo}
    (h : (accessorsFrom ctx s taken (f :: rest)).run m = (.ok as, m')) :
    ∃ own taken' m₁ others, (fieldAccessors ctx s taken f).run m = (.ok (own, taken'), m₁) ∧
      (accessorsFrom ctx s taken' rest).run m₁ = (.ok others, m') ∧ as = own ++ others := by
  obtain ⟨answer, m₁, hfield, h₁⟩ := Classifying.run_bind_eq.mp h
  cases answer with
  | error fault =>
    obtain ⟨heq, -⟩ := Classifying.run_pure_eq.mp h₁
    exact absurd heq (by simp)
  | ok given =>
    obtain ⟨own, taken'⟩ := given
    obtain ⟨answer', m₂, hrest, hreturn⟩ := Classifying.run_bind_eq.mp h₁
    obtain ⟨heq, rfl⟩ := Classifying.run_pure_eq.mp hreturn
    cases answer' with
    | error fault => exact absurd heq (by simp [Except.map])
    | ok others =>
      cases heq
      exact ⟨own, taken', m₁, others, hfield, hrest, rfl⟩

/-- **A callback is accessed only if it can be bound**, by what the memo says of its type. -/
theorem accessors_callback {s : StructDecl} :
    ∀ {fields : List Field} {taken : List String} {as : List Accessor} {m m' : Memo},
      (accessorsFrom ctx s taken fields).run m = (.ok as, m') →
      ∀ a ∈ as, a.access = .callback →
        ∃ f ∈ fields, a.key = f.name ∧ ∃ c, m'.find? f.type = some c ∧ c.isBindable = true := by
  intro fields
  induction fields with
  | nil =>
    intro taken as m m' h a ha
    obtain ⟨heq, -⟩ := Classifying.run_pure_eq.mp h
    cases heq
    exact absurd ha List.not_mem_nil
  | cons f rest ih =>
    intro taken as m m' h a ha hcallback
    obtain ⟨own, taken', m₁, others, hfield, hrest, rfl⟩ := accessorsFrom_cons h
    rcases List.mem_append.mp ha with ha | ha
    · obtain ⟨hkey, c, hc, hb⟩ := (fieldAccessors_ok hfield).bindable a ha hcallback
      have hgrows := (accessorsFrom_lasts ctx s rest taken').grows.of_run hrest
      exact ⟨f, List.mem_cons_self, hkey, c, hgrows _ _ hc, hb⟩
    · obtain ⟨f', hf', hkey, hc⟩ := ih hrest a ha hcallback
      exact ⟨f', List.mem_cons_of_mem _ hf', hkey, hc⟩

/-- Keys are given once. What the induction carries: a key is the name of one of the fields still to
come, or it was not taken before. -/
theorem accessorsFrom_keys {s : StructDecl} :
    ∀ {fields : List Field} {taken : List String} {as : List Accessor} {m m' : Memo},
      (accessorsFrom ctx s taken fields).run m = (.ok as, m') →
      (fields.map (·.name)).Nodup → (∀ f ∈ fields, f.name ∈ taken) →
      (as.map (·.key)).Nodup ∧ ∀ a ∈ as, a.key ∈ fields.map (·.name) ∨ a.key ∉ taken := by
  intro fields
  induction fields with
  | nil =>
    intro taken as m m' h _ _
    obtain ⟨heq, -⟩ := Classifying.run_pure_eq.mp h
    cases heq
    exact ⟨List.nodup_nil, by simp⟩
  | cons f rest ih =>
    intro taken as m m' h hnodup htaken
    obtain ⟨own, taken', m₁, others, hfield, hrest, rfl⟩ := accessorsFrom_cons h
    rw [List.map_cons, List.nodup_cons] at hnodup
    have hrestTaken : ∀ g ∈ rest, g.name ∈ taken := fun g hg => htaken g (List.mem_cons_of_mem _ hg)
    -- names of fields stay taken, and keys of the others keep away from what is taken
    have widen (htaken' : ∀ name ∈ taken, name ∈ taken') :
        (others.map (·.key)).Nodup ∧
          ∀ a ∈ others, a.key ∈ rest.map (·.name) ∨ a.key ∉ taken' :=
      ih hrest hnodup.2 fun g hg => htaken' _ (hrestTaken g hg)
    rcases (fieldAccessors_ok hfield).split with ⟨rfl, rfl⟩ | ⟨access, members, rfl, hmembers⟩
    · obtain ⟨hkeys, hothers⟩ := widen fun _ h => h
      exact ⟨hkeys, fun a ha => (hothers a ha).imp_left (List.mem_cons_of_mem _)⟩
    · obtain ⟨hkeys, hothers⟩ := widen fun name h => (hmembers.taken_iff name).mpr (.inl h)
      have hf : f.name ∈ taken := htaken f List.mem_cons_self
      constructor
      · rw [List.map_append, List.map_cons, List.cons_append, List.nodup_cons]
        refine ⟨?_, List.nodup_append.mpr ⟨hmembers.nodup, hkeys, ?_⟩⟩
        · intro hmem
          rcases List.mem_append.mp hmem with hmem | hmem
          · obtain ⟨a, ha, hkey⟩ := List.mem_map.mp hmem
            exact hmembers.fresh a ha (by rw [hkey]; exact hf)
          · obtain ⟨a, ha, hkey⟩ := List.mem_map.mp hmem
            rcases hothers a ha with h' | h'
            · rw [hkey] at h'
              exact hnodup.1 h'
            · rw [hkey] at h'
              exact h' ((hmembers.taken_iff _).mpr (.inl hf))
        · rintro key hmember _ hother rfl
          obtain ⟨a, ha, rfl⟩ := List.mem_map.mp hmember
          obtain ⟨b, hb, hkey⟩ := List.mem_map.mp hother
          rcases hothers b hb with h' | h'
          · obtain ⟨g, hg, hname⟩ := List.mem_map.mp h'
            exact hmembers.fresh a ha (by rw [← hkey, ← hname]; exact hrestTaken g hg)
          · rw [hkey] at h'
            exact h' ((hmembers.taken_iff _).mpr (.inr hmember))
      · intro a ha
        rcases List.mem_append.mp ha with ha | ha
        · rcases List.mem_cons.mp ha with rfl | ha
          · exact .inl List.mem_cons_self
          · exact .inr (hmembers.fresh a ha)
        · rcases hothers a ha with h' | h'
          · exact .inl (List.mem_cons_of_mem _ h')
          · exact .inr fun hmem => h' ((hmembers.taken_iff _).mpr (.inl hmem))

/-- **No key is given twice** to a struct whose fields have different names. -/
theorem accessors_keys_nodup {s : StructDecl} {as : List Accessor} {m m' : Memo}
    (h : (accessors ctx s).run m = (.ok as, m')) (hs : (s.fields.map (·.name)).Nodup) :
    (as.map (·.key)).Nodup :=
  (accessorsFrom_keys h hs fun f hf => List.mem_map.mpr ⟨f, hf, rfl⟩).1

/-! ## Slots -/

/-- A field as the owner of a pool of slots. -/
def Field.asSlot (owner : String) (f : Field) : CallbackSlot := ⟨owner, f.name⟩

theorem bindableFields_grows (ctx : Context) (owner : String) (fields : List Field) :
    (bindableFields ctx owner fields).Grows := by
  induction fields with
  | nil => exact .pure _
  | cons f rest ih => exact (classify_grows ctx.index f.type).bind fun _ => ih.bind fun _ => .pure _

theorem bindableFields_spec {owner : String} :
    ∀ {fields : List Field} {slots : List CallbackSlot} {m m' : Memo},
      (bindableFields ctx owner fields).run m = (slots, m') →
      slots.Sublist (fields.map (Field.asSlot owner)) ∧
        ∀ f ∈ fields, ∀ c, m.find? f.type = some c → c.isBindable = true → f.asSlot owner ∈ slots := by
  intro fields
  induction fields with
  | nil =>
    intro slots m m' h
    obtain ⟨rfl, -⟩ := Classifying.run_pure_eq.mp h
    exact ⟨.slnil, by simp⟩
  | cons f rest ih =>
    intro slots m m' h
    obtain ⟨c, m₁, hask, h₁⟩ := Classifying.run_bind_eq.mp h
    obtain ⟨slots', m₂, hrest, hreturn⟩ := Classifying.run_bind_eq.mp h₁
    obtain ⟨rfl, -⟩ := Classifying.run_pure_eq.mp hreturn
    obtain ⟨hsublist, hmem⟩ := ih hrest
    have hgrows : m.Grows m₁ := (classify_grows ctx.index f.type).of_run hask
    constructor
    · cases c.isBindable with
      | true => exact hsublist.cons_cons _
      | false => exact hsublist.cons _
    · intro g hg c' hc' hb'
      rcases List.mem_cons.mp hg with rfl | hg
      · have hsame : (ctx.classify g.type).run m = (c', m) := classify_known hc'
        rw [hsame] at hask
        cases hask
        rw [hb']
        exact List.mem_cons_self
      · have hslot := hmem g hg c' (hgrows _ _ hc') hb'
        split
        · exact List.mem_cons_of_mem _ hslot
        · exact hslot

/-- The slots are those of the structs in order, and among the fields of each. -/
theorem collectSlots_spec {structs : List StructDecl} :
    ∀ {slots : List CallbackSlot} {m m' : Memo}, (collectSlots ctx structs).run m = (slots, m') →
      slots.Sublist (structs.flatMap fun s => s.fields.map (Field.asSlot s.name)) ∧
        ∀ s ∈ structs, ∀ f ∈ s.fields, ∀ c, m.find? f.type = some c → c.isBindable = true →
          f.asSlot s.name ∈ slots := by
  induction structs with
  | nil =>
    intro slots m m' h
    obtain ⟨rfl, -⟩ := Classifying.run_pure_eq.mp h
    exact ⟨.slnil, by simp⟩
  | cons s rest ih =>
    intro slots m m' h
    obtain ⟨own, m₁, hown, h₁⟩ := Classifying.run_bind_eq.mp h
    obtain ⟨others, m₂, hothers, hreturn⟩ := Classifying.run_bind_eq.mp h₁
    obtain ⟨rfl, -⟩ := Classifying.run_pure_eq.mp hreturn
    obtain ⟨hsublist, hmem⟩ := bindableFields_spec hown
    obtain ⟨hsublist', hmem'⟩ := ih hothers
    have hgrows := (bindableFields_grows ctx s.name s.fields).of_run hown
    refine ⟨hsublist.append hsublist', fun s' hs' f hf c hc hb => ?_⟩
    rcases List.mem_cons.mp hs' with rfl | hs'
    · exact List.mem_append_left _ (hmem f hf c hc hb)
    · exact List.mem_append_right _ (hmem' s' hs' f hf c (hgrows _ _ hc) hb)

end LuaGlue
