import LuaGlue.Proofs.Marshal.Parts
import LuaGlue.Proofs.Userdata.Setters

/-!
# What a struct keeps alive

A field may come to point into memory that belongs to the script: into a string, a userdata, or whatever
a struct that was copied points to. The setter must then anchor the value in the userdata, or else the
collector may take it while the struct still points there.

Whether memory of the script is stored can be read off the setter's text (`Code.storesScriptMemory`), and
so can whether the setter ends by anchoring the value (`Code.endsAnchored`). What is stored is decided
part by part, by the category of each (`Reads.stores_iff`); whether it is anchored, by the category of
the field as a whole and by the keep table. For a tuple the two come apart, since a tuple by itself
points nowhere: `setter_anchors_iff` says exactly when a setter stores such memory without anchoring it,
and `tuple_not_anchored` is the smallest struct with such a setter.
-/

set_option autoImplicit false

namespace LuaGlue

/-! ## What a text stores, and what it anchors -/

/-- Whether a place lies in the struct a setter works on. -/
def Place.isInSelf : Place → Bool
  | through base _ => base == "self"
  | element p _ | member p _ | memberOf p _ => p.isInSelf
  | name _ | target _ => false

/-- The functions that give out a pointer into memory of the script. -/
def Callee.givesPointer : Callee → Bool
  | api .checkstring | api .tostring | api .tolstring | api .touserdata | support .topointer => true
  | _ => false

/-- Whether a value is a pointer into memory of the script, or a struct copied out of a userdata. -/
def Expr.isScriptMemory : Expr → Bool
  | value (.target _) => true
  | e => e.calls.any (·.callee.givesPointer)

/-- Whether a call has a converter fill a place in the struct. -/
def Call.fillsSelf (c : Call) : Bool :=
  match c.callee with
  | .generated (.converter _) => c.args.any fun
    | .addressOf p => p.isInSelf
    | _ => false
  | _ => false

/-- The assignments in a line. -/
def Line.assignments : Line → List (Place × Expr)
  | assign p e => [(p, e)]
  | onlyIf _ l => l.assignments
  | _ => []

/-- Whether an assignment puts memory of the script into the struct. -/
def storesIntoSelf (assignment : Place × Expr) : Bool :=
  assignment.1.isInSelf && assignment.2.isScriptMemory

namespace Code

/-- The assignments in code. -/
def assignments : Code → List (Place × Expr)
  | done => []
  | line l next => l.assignments ++ next.assignments
  | block _ body _ next => body.assignments ++ next.assignments
  | branch _ yes no next => yes.assignments ++ (no.assignments ++ next.assignments)

/-- Whether code puts memory of the script into the struct, by an assignment or by a converter. -/
def storesScriptMemory (code : Code) : Bool :=
  code.assignments.any storesIntoSelf || code.calls.any Call.fillsSelf

/-- The lines that stand in no block and in no branch. -/
def topLines : Code → List Line
  | done => []
  | line l next => l :: next.topLines
  | block _ _ _ next | branch _ _ _ next => next.topLines

/-- Whether code ends by anchoring the value under the key, by itself or in the keep table. -/
def endsAnchored (key : String) (code : Code) : Bool :=
  [anchor key valueIndex].isSuffixOf code.topLines || (anchorKeep key).isSuffixOf code.topLines

section

variable {l : Line} {head : Head} {ending : Ending} {c : Cond} {a b next yes no : Code}

@[simp] theorem assignments_append (a b : Code) :
    (a ++ b).assignments = a.assignments ++ b.assignments := by
  induction a with
  | done => rfl
  | line l next ih => simp [assignments, ih]
  | block head body ending next _ ih => simp [assignments, ih]
  | branch c yes no next _ _ ih => simp [assignments, ih]

@[simp] theorem topLines_append (a b : Code) : (a ++ b).topLines = a.topLines ++ b.topLines := by
  induction a with
  | done => rfl
  | line l next ih => simp [topLines, ih]
  | block head body ending next _ ih => simp [topLines, ih]
  | branch c yes no next _ _ ih => simp [topLines, ih]

@[simp] theorem topLines_ofLines (ls : List Line) : (ofLines ls).topLines = ls := by
  induction ls with
  | nil => rfl
  | cons l rest ih => simp [ofLines, topLines, ih]

@[simp] theorem storesScriptMemory_done : done.storesScriptMemory = false := rfl

@[simp] theorem storesScriptMemory_append :
    (a ++ b).storesScriptMemory = (a.storesScriptMemory || b.storesScriptMemory) := by
  simp only [storesScriptMemory, assignments_append, calls_append, List.any_append]
  cases a.assignments.any storesIntoSelf <;> cases a.calls.any Call.fillsSelf <;> simp

/-- What one line stores. -/
theorem storesScriptMemory_line : (line l next).storesScriptMemory =
    (l.assignments.any storesIntoSelf || l.calls.any Call.fillsSelf || next.storesScriptMemory) := by
  simp only [storesScriptMemory, assignments, calls, List.any_append]
  cases l.assignments.any storesIntoSelf <;> cases l.calls.any Call.fillsSelf <;> simp

theorem storesScriptMemory_block :
    (block head a ending next).storesScriptMemory =
      (a.storesScriptMemory || next.storesScriptMemory) := by
  simp only [storesScriptMemory, assignments, calls, List.any_append]
  cases a.assignments.any storesIntoSelf <;> cases a.calls.any Call.fillsSelf <;> simp

theorem storesScriptMemory_branch (hc : c.calls.any Call.fillsSelf = false) :
    (branch c yes no next).storesScriptMemory =
      (yes.storesScriptMemory || (no.storesScriptMemory || next.storesScriptMemory)) := by
  simp only [storesScriptMemory, assignments, calls, List.any_append, hc]
  cases yes.assignments.any storesIntoSelf <;> cases no.assignments.any storesIntoSelf <;>
    cases yes.calls.any Call.fillsSelf <;> cases no.calls.any Call.fillsSelf <;> simp

end

end Code

/-! ## What reading stores -/

/-- Whether a value of the category that is read in one piece points into memory of the script. -/
def Category.pointsToScript (c : Category) : Bool := c.needsAnchor && !c.isArray

/-- By the categories in the memo, a part of what is so spelled points into memory of the script. -/
def ReachesScript (ctx : Context) (m : Memo) (spelling : String) : Prop :=
  ∃ k part c, PartOf ctx m .read k spelling part ∧ m.find? part = some c ∧ c.pointsToScript = true

section

variable {ctx : Context} {m : Memo} {spelling : String} {c : Category}

theorem ReachesScript.leaf_iff (hc : m.find? spelling = some c) (ha : c.isArray = false)
    (ht : c.tuple? .read = none) : ReachesScript ctx m spelling ↔ c.needsAnchor = true := by
  have hkind : c.pointsToScript = c.needsAnchor := by simp [Category.pointsToScript, ha]
  rw [← hkind]
  exact HasPart.leaf_iff hc ha ht

theorem ReachesScript.array_iff {elem : String} (hc : m.find? spelling = some c)
    (ha : c.isArray = true) (he : elementType? spelling = some elem) :
    ReachesScript ctx m spelling ↔ ReachesScript ctx m elem :=
  HasPart.array_iff hc ha (by simp [Category.pointsToScript, ha]) he

theorem ReachesScript.tuple_iff {name : String} {members : List TupleMember}
    (hc : m.find? spelling = some (.structValue name .tuple))
    (hm : ctx.tupleMembers name = .ok members) :
    ReachesScript ctx m spelling ↔ ∃ member ∈ members, ReachesScript ctx m member.type :=
  HasPart.tuple_iff hc rfl rfl hm

end

/-- What a job has to reach for its code to store memory of the script. -/
def ReadJob.ReachesScript (ctx : Context) (m : Memo) : ReadJob → Prop
  | .value _ spelling _ _ => LuaGlue.ReachesScript ctx m spelling
  | .tuple _ name _ _ => ∃ members, ctx.tupleMembers name = .ok members ∧
      ∃ member ∈ members, LuaGlue.ReachesScript ctx m member.type
  | .members _ _ _ rest => ∃ member ∈ rest, LuaGlue.ReachesScript ctx m member.type

/-- Where a job puts what it reads. -/
def ReadJob.place : ReadJob → Place
  | .value _ _ place _ | .tuple _ _ place _ | .members _ place _ _ => place

section

variable {ctx : Context} {m : Memo} {mode : ReadMode} {spelling : String} {place : Place}
  {index : StackIndex}

theorem readLine?_stores {c : Category} {l : Line} (hp : place.isInSelf = true)
    (hl : readLine? ctx mode spelling place index c = some l) :
    (Code.line l .done).storesScriptMemory = c.needsAnchor := by
  rw [Code.storesScriptMemory_line, Code.storesScriptMemory_done, Bool.or_false]
  unfold readLine? at hl
  split at hl <;> cases hl
  iterate 5
    cases mode <;> simp [assignCast, Line.assignments, storesIntoSelf, hp, Expr.isScriptMemory,
      Line.calls, Expr.calls, Api.on, Callee.givesPointer, Call.fillsSelf, Category.needsAnchor,
      ReadMode.integerApi, ReadMode.numberApi, ReadMode.stringApi]
  · split <;> simp [assignCast, Line.assignments, storesIntoSelf, hp, Expr.isScriptMemory,
      Line.calls, Expr.calls, Api.on, Support.on, Callee.givesPointer, Category.needsAnchor]
  iterate 2
    unfold readPointer
    split <;> simp [Line.assignments, storesIntoSelf, hp, Expr.isScriptMemory, Line.calls, Expr.calls,
      Cond.calls, Api.on, Callee.givesPointer, Category.needsAnchor]
  iterate 2 rfl

theorem readBound_stores (hp : place.isInSelf = true) (name : String) :
    (Code.line (readBound ctx name place index mode) .done).storesScriptMemory = true := by
  have convert : Call.fillsSelf ⟨.generated (.converter name),
      [.state, .at index, .addressOf place, .value (.name keepLocal)]⟩ = true := by
    simp [Call.fillsSelf, hp]
  rw [Code.storesScriptMemory_line]
  cases mode <;> simp [readBound, Line.calls, Cond.calls, convert]

theorem copyUserdata_stores (hp : place.isInSelf = true) (name pointer : String) :
    (Code.ofLines (copyUserdata ctx name place index mode pointer)).storesScriptMemory = true := by
  simp [copyUserdata, Code.ofLines, Code.storesScriptMemory_line, Line.assignments, storesIntoSelf, hp,
    Expr.isScriptMemory]

theorem rangeCode_stores (hp : place.isInSelf = true) (name : String) (range : ByteRange)
    (pointer length : String) :
    (rangeCode ctx name range place index mode pointer length).storesScriptMemory = true := by
  rw [rangeCode, Code.blockOf, Code.storesScriptMemory_block, Code.branchOf,
    Code.storesScriptMemory_branch rfl, copyUserdata_stores hp]
  simp

theorem tableCode_stores (table : String) (inside : Code) :
    (tableCode mode table index inside).storesScriptMemory = inside.storesScriptMemory := by
  cases mode <;>
    simp [tableCode, Code.blockOf, Code.branchOf, Code.storesScriptMemory_block,
      Code.storesScriptMemory_line, Code.storesScriptMemory_branch, Line.assignments, Line.calls,
      Expr.calls, Cond.calls, Api.on, Call.fillsSelf]

theorem elementsCode_stores (table k : String) (size : Nat) (inside : Code) :
    (elementsCode table k size inside).storesScriptMemory = inside.storesScriptMemory := by
  simp [elementsCode, Code.blockOf, Code.storesScriptMemory_block, Code.storesScriptMemory_line,
    Code.storesScriptMemory_branch, Line.assignments, Line.calls, Cond.calls, popOne, Api.on,
    Call.fillsSelf]

theorem memberCode_stores (table : String) (position : Nat) (inside : Code) :
    (memberCode table position inside).storesScriptMemory = inside.storesScriptMemory := by
  simp [memberCode, Code.storesScriptMemory_line, Line.assignments, Line.calls, popOne, Api.on,
    Call.fillsSelf]

/-- A struct that is copied points into memory of the script. -/
theorem reachesScript_struct {name : String} {shape : Shape}
    (hc : m.find? spelling = some (.structValue name shape)) (hs : shape ≠ .tuple) :
    ReachesScript ctx m spelling :=
  (ReachesScript.leaf_iff hc rfl (Category.tuple?_structValue hs)).mpr
    (by simp [Category.needsAnchor, hs])

end

/-- **Reading into the struct stores memory of the script if and only if a part of the type points
there.** -/
theorem Reads.stores_iff {ctx : Context} {m : Memo} {job : ReadJob} {n n' : Nat} {code : Code}
    (h : Reads ctx m job n code n') :
    job.place.isInSelf = true → (code.storesScriptMemory = true ↔ job.ReachesScript ctx m) := by
  induction h with
  | @oneLine mode spelling _ _ c _ _ hc hl =>
    intro hp
    obtain ⟨ha, ht⟩ := readLine?_leaf hl
    rw [readLine?_stores hp hl]
    exact (ReachesScript.leaf_iff hc ha ht).symm
  | bound hc hs _ =>
    exact fun hp => iff_of_true (readBound_stores hp _) (reachesScript_struct hc hs)
  | foreign hc hs _ _ =>
    intro hp
    refine iff_of_true ?_ (reachesScript_struct hc hs)
    rw [Code.blockOf, Code.storesScriptMemory_block, Bool.or_eq_true]
    exact .inl (copyUserdata_stores hp _ _)
  | foreignRange hc hs _ _ =>
    exact fun hp => iff_of_true (rangeCode_stores hp _ _ _ _) (reachesScript_struct hc hs)
  | array hc he _ ih =>
    intro hp
    rw [tableCode_stores, elementsCode_stores, ih hp]
    exact (ReachesScript.array_iff hc rfl he).symm
  | @tupleValue _ spelling _ _ name _ _ _ hc inside ih =>
    intro hp
    rw [ih hp]
    cases inside with
    | tuple hm _ =>
      refine Iff.trans ?_ (ReachesScript.tuple_iff hc hm).symm
      simp only [ReadJob.ReachesScript, hm, Except.ok.injEq, exists_eq_left']
  | tuple hm _ ih =>
    intro hp
    rw [tableCode_stores, ih hp]
    simp only [ReadJob.ReachesScript, hm, Except.ok.injEq, exists_eq_left']
  | nil => exact fun _ => by simp [ReadJob.ReachesScript]
  | cons _ _ ih ih' =>
    intro hp
    rw [Code.storesScriptMemory_append, memberCode_stores, Bool.or_eq_true, ih hp, ih' hp]
    simp only [ReadJob.ReachesScript, List.mem_cons, exists_eq_or_imp]

/-! ## What a setter does -/

section

variable {key : String} {category : Category} {keep anchored : Bool} {inside : Code}

theorem keepLines_stores : (Code.ofLines (keepLines keep)).storesScriptMemory = false := by
  cases keep <;> rfl

theorem anchorLines_stores : (Code.ofLines (anchorLines keep anchored key)).storesScriptMemory =
    false := by
  cases keep <;> cases anchored <;>
    simp [anchorLines, anchorKeep, anchor, popOne, Code.ofLines, Code.storesScriptMemory_line,
      Line.assignments, Line.calls, Support.on, Api.on, Call.fillsSelf]

theorem valueSetterCode_stores :
    (valueSetterCode key category keep inside).storesScriptMemory = inside.storesScriptMemory := by
  have hunused : ∀ {u : Bool}, (Code.ofLines
      (if u then [.unused "self", .unused "value"] else [])).storesScriptMemory = false := by
    intro u
    cases u <;> rfl
  simp only [valueSetterCode, Code.storesScriptMemory_append, keepLines_stores, hunused,
    anchorLines_stores, Bool.false_or, Bool.or_false]

/-- Lines after which something else comes last do not end the text. -/
theorem not_isSuffixOf_of_last {ls before : List Line} {l last : Line} (hl : ls.getLast? = some l)
    (hne : l ≠ last) : ls.isSuffixOf (before ++ [last]) = false := by
  rw [← Bool.not_eq_true, List.isSuffixOf_iff_suffix]
  rintro ⟨ds, hds⟩
  have hlast := congrArg List.getLast? hds
  rw [List.getLast?_append, List.getLast?_append, hl] at hlast
  exact hne (by simpa using hlast)

/-- A setter anchors the value if there is a keep table, or if the category of the field says so. -/
theorem valueSetterCode_anchored : (valueSetterCode key category keep inside).endsAnchored key =
    (keep || category.needsAnchor) := by
  have ends {ls before : List Line} : ls.isSuffixOf (before ++ ls) = true :=
    List.isSuffixOf_iff_suffix.mpr (List.suffix_append before ls)
  simp only [Code.endsAnchored, valueSetterCode, Code.topLines_append, Code.topLines_ofLines,
    ← List.append_assoc]
  cases keep with
  | true =>
    rw [Bool.true_or]
    exact Bool.or_eq_true_iff.mpr (.inr ends)
  | false =>
    cases hn : category.needsAnchor with
    | true =>
      rw [Bool.or_true]
      exact Bool.or_eq_true_iff.mpr (.inl ends)
    | false =>
      -- the last line says that nothing is done with the userdata
      change ([anchor key valueIndex].isSuffixOf (_ ++ [Line.unused "ud"]) ||
        (anchorKeep key).isSuffixOf (_ ++ [Line.unused "ud"])) = false
      rw [not_isSuffixOf_of_last (l := anchor key valueIndex) rfl (by simp [anchor]),
        not_isSuffixOf_of_last (l := popOne) rfl (by simp [popOne])]
      rfl

end

/-- **When a setter of a plain field anchors what it stores.** Whatever the field's type is, the setter
stores memory of the script if a part of the type points there; and if it does, it anchors the value —
except for a tuple that has no bound struct in reach of `needsKeep`. -/
theorem Sets.anchors_iff {ctx : Context} {m : Memo} {struct : String} {a : Accessor} {body : Code}
    (h : Sets ctx m struct a body) (ha : a.access = .value) :
    (body.storesScriptMemory = true ↔ ReachesScript ctx m a.type) ∧
    ((body.storesScriptMemory = true → body.endsAnchored a.key = true) ↔
      ∀ name, m.find? a.type = some (.structValue name .tuple) → ReachesScript ctx m a.type →
        ∃ k, k < maxNesting ∧ ReachesBound ctx m k a.type) := by
  cases h with
  | callback ha' => rw [ha] at ha'; cases ha'
  | ownedBuffer ha' _ _ => rw [ha] at ha'; cases ha'
  | @value category keep _ code _ _ hc hk inside =>
    have hstores : (valueSetterCode a.key category keep code).storesScriptMemory = true ↔
        ReachesScript ctx m a.type := by
      rw [valueSetterCode_stores]
      exact inside.stores_iff rfl
    refine ⟨hstores, ?_⟩
    rw [hstores, valueSetterCode_anchored, Bool.or_eq_true,
      Classifying.DecidesAt.of_answered (fun _ => needsKeep_decides) hk]
    constructor
    · intro h name htuple hreach
      rw [hc] at htuple
      cases htuple
      exact (h hreach).resolve_right (by simp [Category.needsAnchor])
    · intro h hreach
      -- only what is no tuple answers for itself
      cases hn : category.needsAnchor with
      | true => exact .inr rfl
      | false =>
        refine .inl ?_
        cases category with
        | structValue name shape =>
          cases shape with
          | tuple => exact h name hc hreach
          | userdata | byteRange => cases hn
        | fixedArray | structPointer | cstring | handle | pointer => cases hn
        | _ =>
          have := (ReachesScript.leaf_iff hc rfl rfl).mp hreach
          cases this

/-- **Which setters of a struct anchor what they store.** A setter of a plain field or of a flattened
member stores memory of the script exactly if a part of the field's type points there, and then ends by
anchoring the value, by itself or in the keep table — unless the field is a tuple in which no bound
struct is reached within the levels that are looked at. -/
theorem setter_anchors_iff {ctx : Context} {struct : StructDecl} {s s' : Scratch}
    {binding : StructBinding} {code : Code}
    (h : bindStruct ctx struct s = (.written binding code, s')) :
    ∃ (fields : List Accessor) (setters : List (Accessor × Code)),
      ((accessors ctx struct).run s.memo).1 = .ok fields ∧
      setters.map (·.1) = fields.filter (·.writable) ∧
      code.setters = setters.map (fun (a, body) => (.setter struct.name a.key, body)) ∧
      ∀ p ∈ setters, p.1.access = .value →
        (p.2.storesScriptMemory = true ↔ ReachesScript ctx s'.memo p.1.type) ∧
        ((p.2.storesScriptMemory = true → p.2.endsAnchored p.1.key = true) ↔
          ∀ name, s'.memo.find? p.1.type = some (.structValue name .tuple) →
            ReachesScript ctx s'.memo p.1.type →
              ∃ k, k < maxNesting ∧ ReachesBound ctx s'.memo k p.1.type) := by
  obtain ⟨fields, setters, hfields, hsetters⟩ := bindStruct_written h
  exact ⟨fields, setters, hfields, hsetters.accessors, hsetters.defined,
    fun p hp ha => (hsetters.bodies p hp).anchors_iff ha⟩

/-! ## A tuple with a string in it -/

/-- A struct with a string, and a field that is a tuple of one. -/
def holder : StructDecl := ⟨"Holder", [⟨"title", "const char*"⟩, ⟨"named", "Named"⟩], []⟩

/-- The struct and the tuple. -/
def holderContext : Context :=
  Classifying.fresh (Context.build { decls := [.struct holder] }
    { types := { tuples := [("Named", ["text:const char*"])] } })

/-- The setter of the string anchors it, and so the setters of the struct are two, of which only the
tuple's is in question. -/
theorem setter_anchors_title : ∃ binding code s',
    bindStruct holderContext holder {} = (.written binding code, s') ∧
      ∃ fields : List Accessor, ((accessors holderContext holder).run {}).1 = .ok fields ∧
        code.setters.length = (fields.filter (·.writable)).length ∧
        ∀ p ∈ code.setters, p.1 = .setter "Holder" "title" →
          p.2.storesScriptMemory = true ∧ p.2.endsAnchored "title" = true := by
  obtain ⟨binding, code, s', h, htest⟩ := Draft.exists_written (bindStruct holderContext holder) {}
    (fun code => code.setters.all fun p => p.1 != .setter "Holder" "title" ||
      (p.2.storesScriptMemory && p.2.endsAnchored "title")) (by decide +kernel)
  obtain ⟨fields, setters, hfields, haccessors, hdefined, -⟩ := setter_anchors_iff h
  refine ⟨binding, code, s', h, fields, hfields, ?_, fun p hp htitle => ?_⟩
  · rw [hdefined, ← haccessors, List.length_map, List.length_map]
  · have := List.all_eq_true.mp htest p hp
    simpa [htitle] using this

/-- The setter of the tuple stores the string and anchors nothing. -/
theorem tuple_not_anchored : ∃ binding code s',
    bindStruct holderContext holder {} = (.written binding code, s') ∧
      ∃ p ∈ code.setters, p.1 = .setter "Holder" "named" ∧ p.2.storesScriptMemory = true ∧
        p.2.endsAnchored "named" = false ∧ ∀ c ∈ p.2.calls, c.callee ≠ .support .anchor := by
  obtain ⟨binding, code, s', h, htest⟩ := Draft.exists_written (bindStruct holderContext holder) {}
    (fun code => code.setters.any fun p => p.1 == .setter "Holder" "named" &&
      p.2.storesScriptMemory && !p.2.endsAnchored "named" &&
      p.2.calls.all fun c => c.callee != .support .anchor) (by decide +kernel)
  obtain ⟨p, hp, hall⟩ := List.any_eq_true.mp htest
  simp only [Bool.and_eq_true, beq_iff_eq, Bool.not_eq_true', List.all_eq_true, bne_iff_ne] at hall
  exact ⟨binding, code, s', h, p, hp, hall.1.1.1, hall.1.1.2, hall.1.2, hall.2⟩

end LuaGlue
