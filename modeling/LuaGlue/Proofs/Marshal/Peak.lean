import LuaGlue.Proofs.Code.Peak
import LuaGlue.Proofs.Marshal.Balance
import LuaGlue.Proofs.Marshal.Parts

/-!
# How high pushing builds

A value is pushed in place unless it is an array or a tuple: then its table is there while its elements
or members are pushed on top. So pushing a type with `j` tables inside one another (`TablesDeep`) has
`j + 1` values on the stack at one point, and never more (`Pushes.below`, `Pushes.reaches`). What a
single call of the API puts on the stack and takes off again itself is not counted.
-/

set_option autoImplicit false

namespace LuaGlue

/-- By the categories in the memo, pushing what is so spelled builds `j` tables inside one another, or
more. -/
inductive TablesDeep (ctx : Context) (m : Memo) : Nat → String → Prop where
  | here {spelling} : TablesDeep ctx m 0 spelling
  | element {spelling c elem j} (hc : m.find? spelling = some c) (ha : c.isArray = true)
      (he : elementType? spelling = some elem) (inside : TablesDeep ctx m j elem) :
      TablesDeep ctx m (j + 1) spelling
  | member {spelling c name members member j} (hc : m.find? spelling = some c)
      (ht : c.tuple? .push = some name) (hm : ctx.tupleMembers name = .ok members)
      (hmem : member ∈ members) (inside : TablesDeep ctx m j member.type) :
      TablesDeep ctx m (j + 1) spelling

namespace TablesDeep

variable {ctx : Context} {m : Memo} {j : Nat} {spelling : String} {c : Category}

theorem leaf_iff (hc : m.find? spelling = some c) (ha : c.isArray = false)
    (ht : c.tuple? .push = none) : TablesDeep ctx m j spelling ↔ j = 0 := by
  constructor
  · intro h
    cases h with
    | here => rfl
    | element hc' ha' _ _ =>
      rw [hc] at hc'
      cases hc'
      rw [ha] at ha'
      cases ha'
    | member hc' ht' _ _ _ =>
      rw [hc] at hc'
      cases hc'
      rw [ht] at ht'
      cases ht'
  · rintro rfl
    exact .here

theorem array_iff {elem : String} (hc : m.find? spelling = some c) (ha : c.isArray = true)
    (he : elementType? spelling = some elem) :
    TablesDeep ctx m (j + 1) spelling ↔ TablesDeep ctx m j elem := by
  constructor
  · intro h
    cases h with
    | element _ _ he' inside =>
      rw [he] at he'
      cases he'
      exact inside
    | member hc' ht _ _ _ =>
      rw [hc] at hc'
      cases hc'
      rw [Category.tuple?_of_isArray ha] at ht
      cases ht
  · exact .element hc ha he

theorem tuple_iff {name : String} {members : List TupleMember} (hc : m.find? spelling = some c)
    (ht : c.tuple? .push = some name) (hm : ctx.tupleMembers name = .ok members) :
    TablesDeep ctx m (j + 1) spelling ↔ ∃ member ∈ members, TablesDeep ctx m j member.type := by
  constructor
  · intro h
    cases h with
    | element hc' ha _ _ =>
      rw [hc] at hc'
      cases hc'
      rw [Category.tuple?_of_isArray ha] at ht
      cases ht
    | member hc' ht' hm' hmem inside =>
      rw [hc] at hc'
      cases hc'
      rw [ht] at ht'
      cases ht'
      rw [hm] at hm'
      cases hm'
      exact ⟨_, hmem, inside⟩
  · rintro ⟨member, hmem, inside⟩
    exact .member hc ht hm hmem inside

/-- The same from what can be computed of the memo and the context. -/
theorem of_member (name type : String)
    (hc : (m.find? spelling).any (fun c => c.tuple? .push == some name) = true)
    (hm : (ctx.tupleMembers name).toOption.any (fun members => members.any (·.type == type)) = true)
    (inside : TablesDeep ctx m j type) : TablesDeep ctx m (j + 1) spelling := by
  obtain ⟨c, hc, ht⟩ := (Option.any_eq_true _ _).mp hc
  obtain ⟨members, hmembers, hany⟩ := (Option.any_eq_true _ _).mp hm
  obtain ⟨member, hmem, htype⟩ := List.any_eq_true.mp hany
  have hok : ctx.tupleMembers name = .ok members := by
    cases hall : ctx.tupleMembers name <;> simp_all [Except.toOption]
  exact .member hc (by simpa using ht) hok hmem (by rwa [beq_iff_eq.mp htype])

end TablesDeep

/-! ## The templates below a ceiling -/

section

variable {h top : Int}

theorem declare_below (x : Local) (p : Place) :
    (Code.line (.declare x (.value p)) .done).Climbs (Below h) h h :=
  .pass (.declare (.value p)) (Int.le_refl h) .done

theorem createtable_below (size : Nat) :
    (Code.line (.call (Api.createtable.on [.number size, .number 0])) .done).Climbs (Below (h + 1)) h
      (h + 1) :=
  .put rfl (Int.le_refl _) .done

theorem pushNil_below (ht : h + 1 ≤ top) :
    (Code.line pushNil .done).Climbs (Below top) h (h + 1) :=
  .put rfl ht .done

theorem pushLines?_below {spelling : String} {source : Place} {c : Category} {ls : List Line}
    (hl : pushLines? spelling source c = some ls) (ht : h + 1 ≤ top) :
    (Code.ofLines ls).Climbs (Below top) h (h + 1) := by
  unfold pushLines? at hl
  split at hl <;> cases hl
  iterate 5 exact .put rfl ht .done
  iterate 2 exact .pass (.of_runs rfl) (by omega) (pushNil_below ht)

theorem copyCode_below (ctx : Context) (name : String) (source : Place) (copy : String)
    (ht : h + 1 ≤ top) : (copyCode ctx name source copy).Climbs (Below top) h (h + 1) := by
  have create : ∀ r ∈ (Line.declare (.plain (name ++ "*") copy) (.cast (name ++ "*")
      (.call (Api.newuserdata.on [.sizeof name, .text "TETHER_UV_COUNT"])))).runs,
      r.Climbs (Below top) h (h + 1) :=
    fun r hr => List.mem_singleton.mp hr ▸ .call ht rfl
  refine .block rfl (.line create (.pass (.assign (.value _)) ht ?_)) .done
  exact .pass (.call (Api.on_still rfl (by simp))) ht .done

theorem unlessNullCode_below {some : Code} (hs : some.Climbs (Below top) h (h + 1)) (ctx : Context)
    (pointer : Local) {source : Expr} (he : source.Still h) (ht : h + 1 ≤ top) :
    (unlessNullCode ctx pointer source some).Climbs (Below top) h (h + 1) :=
  .block rfl
    (.pass (.declare he) (by omega)
      (.fork (by simp [Cond.Still, Cond.calls]) (by omega) hs (pushNil_below ht) .done))
    .done

/-- The value on top goes into the table below it. -/
theorem rawseti_below {position : Arg} {next : Code} {h' : Int} (ht : h + 1 ≤ top)
    (hn : next.Climbs (Below top) (h + 1) h') :
    (Code.line (.call (Api.rawseti.on [.at .belowTop, position])) next).Climbs (Below top)
      (h + 1 + 1) h' :=
  .call (show h + 1 + 1 + -1 ≤ top by omega) (Int.add_neg_cancel_right (h + 1) 1) hn

theorem arrayCode_below {inside : Code} (hin : inside.Climbs (Below top) (h + 1) (h + 1 + 1))
    (k : String) (size : Nat) (ht : h + 1 ≤ top) :
    (arrayCode k size inside).Climbs (Below top) h (h + 1) :=
  .put rfl ht (.loop rfl (hin.append (rawseti_below ht .done)) .done)

theorem tupleCode_below {inside : Code} (hin : inside.Climbs (Below top) (h + 1) (h + 1))
    (name value : String) (source : Place) (size : Nat) (ht : h + 1 ≤ top) :
    (tupleCode name value source size inside).Climbs (Below top) h (h + 1) :=
  .block rfl (.pass (.declare (.value _)) (by omega) (.put rfl ht hin)) .done

end

/-- How many tables a job has begun already: the one that a tuple's members go into. -/
def PushJob.tables : PushJob → Nat
  | .value .. => 0
  | .tuple .. | .members .. => 1

section

variable {ctx : Context} {m : Memo}

/-- A tuple has members. -/
theorem tupleMembers_ne_nil {name : String} {members : List TupleMember}
    (h : ctx.tupleMembers name = .ok members) : members ≠ [] := by
  unfold Context.tupleMembers at h
  split at h
  · cases h
  · cases h
  · rename_i entries hne _
    cases entries with
    | nil => exact absurd rfl hne
    | cons entry rest =>
      rw [List.mapM_cons] at h
      cases hentry : ctx.tupleMember name entry with
      | error e =>
        rw [hentry] at h
        cases h
      | ok member =>
        cases hrest : rest.mapM (ctx.tupleMember name) with
        | error e =>
          rw [hentry, hrest] at h
          cases h
        | ok later =>
          rw [hentry, hrest] at h
          cases h
          exact List.cons_ne_nil _ _

/-- The tables of a job, those it has begun included, are at most `d` inside one another. -/
def PushJob.Within (ctx : Context) (m : Memo) (d : Nat) (job : PushJob) : Prop :=
  ∀ part, job.Concerns ctx part → ∀ j, TablesDeep ctx m j part → job.tables + j ≤ d

theorem PushJob.within_value {spelling : String} {source : Place} {d : Nat} :
    (PushJob.value spelling source).Within ctx m d ↔ ∀ j, TablesDeep ctx m j spelling → j ≤ d := by
  simp [PushJob.Within, PushJob.Concerns, PushJob.tables]

theorem PushJob.within_members {value : String} {position : Nat} {rest : List TupleMember} {d : Nat} :
    (PushJob.members value position rest).Within ctx m d ↔
      ∀ member ∈ rest, ∀ j, TablesDeep ctx m j member.type → 1 + j ≤ d := by
  constructor
  · exact fun h member hmem => h _ ⟨member, hmem, rfl⟩
  · rintro h _ ⟨member, hmem, rfl⟩
    exact h member hmem

/-- The members of a tuple are begun with its table. -/
theorem PushJob.Within.members {name value : String} {source : Place} {members : List TupleMember}
    {d : Nat} (h : (PushJob.tuple name source).Within ctx m d) (hm : ctx.tupleMembers name = .ok members)
    (position : Nat) : (PushJob.members value position members).Within ctx m d :=
  PushJob.within_members.mpr fun member hmem => h _ ⟨members, hm, member, hmem, rfl⟩

/-- A tuple is a table at least. -/
theorem one_le_of_tuple {spelling name : String} {c : Category} {source : Place} {d n n' : Nat}
    {place : Place} {code : Code} (h : (PushJob.value spelling source).Within ctx m d)
    (hc : m.find? spelling = some c) (ht : c.tuple? .push = some name)
    (hp : Pushes ctx m (.tuple name place) n code n') : 1 ≤ d := by
  cases hp with
  | tuple hm _ =>
    obtain ⟨member, hmem⟩ := List.exists_mem_of_ne_nil _ (tupleMembers_ne_nil hm)
    exact PushJob.within_value.mp h 1 (.member hc ht hm hmem .here)

/-- What bounds the tables of a value that is or points to a tuple bounds those of the tuple. -/
theorem PushJob.Within.tuple {spelling name : String} {c : Category} {source source' : Place} {d : Nat}
    (h : (PushJob.value spelling source).Within ctx m d) (hc : m.find? spelling = some c)
    (ht : c.tuple? .push = some name) : (PushJob.tuple name source').Within ctx m d := by
  rintro _ ⟨members, hm, member, hmem, rfl⟩ j hj
  have := PushJob.within_value.mp h (j + 1) ((TablesDeep.tuple_iff hc ht hm).mpr ⟨member, hmem, hj⟩)
  simpa [PushJob.tables, Nat.add_comm] using this

/-- **Pushing stays below what the tables inside one another come to.** -/
theorem Pushes.ceiling {job : PushJob} {n n' : Nat} {code : Code} (hp : Pushes ctx m job n code n') :
    ∀ {h : Int} {d : Nat}, job.Within ctx m d → job.tables ≤ d →
      code.Climbs (Below (h + d + 1)) (h + job.base) (h + 1) := by
  have zero : ∀ {h top : Int} {code : Code}, code.Climbs (Below top) h (h + 1) →
      code.Climbs (Below top) (h + 0) (h + 1) := fun hc => by rwa [Int.add_zero]
  have zero' : ∀ {h top : Int} {code : Code}, code.Climbs (Below top) (h + 0) (h + 1) →
      code.Climbs (Below top) h (h + 1) := fun {h} _ _ hc => by rwa [Int.add_zero] at hc
  induction hp with
  | direct _ hl => intro h d _ _; exact zero (pushLines?_below hl (by omega))
  | copy _ _ => intro h d _ _; exact zero (copyCode_below _ _ _ _ (by omega))
  | pointerTuple hc inside ih =>
    intro h d hd _
    have hin := ih (h := h) (hd.tuple hc rfl) (one_le_of_tuple hd hc rfl inside)
    exact zero (unlessNullCode_below (zero' hin) _ _ (.value _) (by omega))
  | pointerCopy _ _ =>
    intro h d _ _
    exact zero (unlessNullCode_below (copyCode_below _ _ _ _ (by omega)) _ _ (.value _) (by omega))
  | pointerLight _ _ =>
    intro h d _ _
    exact zero (unlessNullCode_below (.put rfl (by omega) .done) _ _ (.value _) (by omega))
  | rawPointer _ _ =>
    intro h d _ _
    exact zero (unlessNullCode_below (.put rfl (by omega) .done) _ _ (.cast (.value _)) (by omega))
  | array hc he _ ih =>
    intro h d hd _
    have hdeep := PushJob.within_value.mp hd
    have hone : 1 ≤ d := hdeep 1 (.element hc rfl he .here)
    obtain ⟨d, rfl⟩ : ∃ e, d = e + 1 := ⟨d - 1, by omega⟩
    have hin := ih (h := h + 1) (d := d)
      (PushJob.within_value.mpr fun j hj => by
        have := hdeep (j + 1) (.element hc rfl he hj)
        omega)
      (Nat.zero_le d)
    rw [show h + 1 + (d : Int) + 1 = h + ((d + 1 : Nat) : Int) + 1 by omega] at hin
    exact zero (arrayCode_below (zero' hin) _ _ (by omega))
  | tupleValue hc inside ih =>
    intro h d hd _
    exact ih (hd.tuple hc rfl) (one_le_of_tuple hd hc rfl inside)
  | tuple hm _ ih =>
    intro h d hd hone
    exact zero (tupleCode_below (ih (hd.members hm 0) hone) _ _ _ _ (by omega))
  | nil => intro h d _ _; exact .done
  | cons _ _ ih ih' =>
    intro h d hd hone
    have hdeep := PushJob.within_members.mp hd
    obtain ⟨d, rfl⟩ : ∃ e, d = e + 1 := ⟨d - 1, by simp only [PushJob.tables] at hone; omega⟩
    have hhead := ih (h := h + 1) (d := d)
      (PushJob.within_value.mpr fun j hj => by
        have := hdeep _ List.mem_cons_self j hj
        omega)
      (Nat.zero_le d)
    have htail := ih' (h := h) (d := d + 1)
      (PushJob.within_members.mpr fun member hmem => hdeep member (List.mem_cons_of_mem _ hmem)) hone
    rw [show h + 1 + (d : Int) + 1 = h + ((d + 1 : Nat) : Int) + 1 by omega] at hhead
    exact (zero' hhead).append (rawseti_below (by omega) htail)

/-- A value that is pushed is on the stack in the end. -/
theorem Pushes.reaches_value {spelling : String} {source : Place} {n n' : Nat} {code : Code}
    (hp : Pushes ctx m (.value spelling source) n code n') {h : Int} (h₀ : 0 ≤ h) :
    code.Reaches h (h + 1) := by
  have hclimbs := hp.climbs h₀
  rw [PushJob.base, Int.add_zero] at hclimbs
  exact hclimbs.reaches

/-- A value without a table comes to no more than that. -/
theorem Pushes.reaches_leaf {spelling : String} {source : Place} {n n' : Nat} {code : Code}
    {c : Category} {j : Nat} (hp : Pushes ctx m (.value spelling source) n code n')
    (hc : m.find? spelling = some c) (ha : c.isArray = false) (ht : c.tuple? .push = none)
    (hj : TablesDeep ctx m j spelling) {h : Int} (h₀ : 0 ≤ h) :
    code.Reaches h (h + (0 : Nat) + j + 1) := by
  obtain rfl := (TablesDeep.leaf_iff hc ha ht).mp hj
  simpa using hp.reaches_value h₀

/-- A value that is or points to a tuple comes to what one of its members comes to. -/
theorem Pushes.reaches_tuple {spelling name : String} {source place : Place} {n n' k k' : Nat}
    {code inner : Code} {c : Category} {j : Nat}
    (hp : Pushes ctx m (.value spelling source) n code n') (hc : m.find? spelling = some c)
    (ht : c.tuple? .push = some name) (hin : Pushes ctx m (.tuple name place) k inner k')
    (ih : ∀ {h : Int} {part : String} {j : Nat}, 0 ≤ h → (PushJob.tuple name place).Concerns ctx part →
      TablesDeep ctx m j part → inner.Reaches (h + 0) (h + (1 : Nat) + j + 1))
    (outer : ∀ {h top : Int}, inner.Reaches h top → code.Reaches h top)
    (hj : TablesDeep ctx m j spelling) {h : Int} (h₀ : 0 ≤ h) :
    code.Reaches h (h + (0 : Nat) + j + 1) := by
  cases j with
  | zero => simpa using hp.reaches_value h₀
  | succ j =>
    cases hin with
    | tuple hm _ =>
      obtain ⟨member, hmem, hdeep⟩ := (TablesDeep.tuple_iff hc ht hm).mp hj
      have := outer (ih h₀ ⟨_, hm, member, hmem, rfl⟩ hdeep)
      rw [Int.add_zero] at this
      rwa [show h + (0 : Nat) + ((j + 1 : Nat) : Int) + 1 = h + (1 : Nat) + j + 1 by omega]

/-- **Pushing comes to the height that its tables inside one another take.** -/
theorem Pushes.reaches {job : PushJob} {n n' : Nat} {code : Code} (hp : Pushes ctx m job n code n') :
    ∀ {h : Int} {part : String} {j : Nat}, 0 ≤ h → job.Concerns ctx part → TablesDeep ctx m j part →
      code.Reaches (h + job.base) (h + job.tables + j + 1) := by
  have zero : ∀ {h top : Int} {code : Code}, code.Reaches h top → code.Reaches (h + 0) top :=
    fun hc => by rwa [Int.add_zero]
  induction hp with
  | direct hc hl =>
    rintro h _ j h₀ rfl hj
    obtain ⟨ha, ht⟩ := pushLines?_leaf hl
    exact zero (Pushes.reaches_leaf (.direct (n := 0) hc hl) hc ha ht hj h₀)
  | copy hc hs =>
    rintro h _ j h₀ rfl hj
    exact zero (Pushes.reaches_leaf (.copy hc hs) hc rfl (Category.tuple?_structValue hs) hj h₀)
  | pointerTuple hc inside ih =>
    rintro h _ j h₀ rfl hj
    refine zero (Pushes.reaches_tuple (.pointerTuple hc inside) hc rfl inside ih ?_ hj h₀)
    intro h top hin
    exact .block (.line (declare_below _ _) (hin.arm rfl _ _)) _
  | pointerCopy hc hs =>
    rintro h _ j h₀ rfl hj
    exact zero (Pushes.reaches_leaf (.pointerCopy hc hs) hc rfl (Category.tuple?_structPointer hs) hj h₀)
  | pointerLight hc hs =>
    rintro h _ j h₀ rfl hj
    exact zero (Pushes.reaches_leaf (.pointerLight hc hs) hc rfl (Category.tuple?_structPointer hs) hj h₀)
  | @rawPointer _ _ c _ hc hp =>
    rintro h _ j h₀ rfl hj
    refine zero (Pushes.reaches_leaf (.rawPointer hc hp) hc ?_ ?_ hj h₀) <;>
      cases c <;> first | rfl | cases hp
  | array hc he inside ih =>
    rintro h _ j h₀ rfl hj
    refine zero ?_
    cases j with
    | zero => simpa [PushJob.tables] using Pushes.reaches_value (.array hc he inside) h₀
    | succ j =>
      have hin := ih (h := h + 1) (by omega) rfl ((TablesDeep.array_iff hc rfl he).mp hj)
      simp only [PushJob.base, PushJob.tables, Int.add_zero] at hin ⊢
      rw [show h + (0 : Nat) + ((j + 1 : Nat) : Int) + 1 = h + 1 + (0 : Nat) + j + 1 by omega]
      exact .line (createtable_below _) (.block (hin.first _) _)
  | tupleValue hc inside ih =>
    rintro h _ j h₀ rfl hj
    exact zero (Pushes.reaches_tuple (.tupleValue hc inside) hc rfl inside ih id hj h₀)
  | tuple hm _ ih =>
    rintro h part j h₀ ⟨_, hm', hmem⟩ hj
    rw [hm] at hm'
    cases hm'
    have hin := ih h₀ hmem hj
    exact zero (.block (.line (declare_below _ _) (.line (createtable_below _) hin)) _)
  | nil =>
    rintro h _ j _ ⟨_, hmem, _⟩ _
    cases hmem
  | cons head _ ih ih' =>
    rintro h _ j h₀ ⟨member, hmem, rfl⟩ hj
    cases hmem with
    | head =>
      have hin := ih (h := h + 1) (by omega) rfl hj
      simp only [PushJob.base, PushJob.tables, Int.add_zero] at hin ⊢
      rw [show h + (1 : Nat) + (j : Int) + 1 = h + 1 + (0 : Nat) + j + 1 by omega]
      exact hin.first _
    | tail _ hrest =>
      have hin := ih' h₀ ⟨member, hrest, rfl⟩ hj
      have hhead := head.climbs (h := h + 1) (by omega)
      rw [PushJob.base, Int.add_zero] at hhead
      refine .second hhead (.line (rawseti_below (Int.le_refl _) .done) hin)

end

end LuaGlue
