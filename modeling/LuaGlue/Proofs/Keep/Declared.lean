import LuaGlue.Proofs.Keep.Arguments
import LuaGlue.Proofs.Userdata.Setters

/-!
# Where the keep table is declared

Whether code hands the keep table on, and whether the code around it has put a keep table on the stack,
are decided by two recursions over the same types, and they do not stop at the same depth: what is
asked beforehand counts arrays and tuples alike and gives up at the limit, what is written counts
tuples only and goes on until its own limit. `keep_declared_iff` says exactly when the two agree — in
wrappers, in setters, and for a value by itself — and `keep_undeclared` is a function and a struct for
which they do not.
-/

set_option autoImplicit false

namespace LuaGlue

variable {ctx : Context} {m : Memo}

/-! ## Setters -/

/-- The spelling of the value that a setter reads, if it reads one. -/
def Accessor.read? (a : Accessor) : Option String :=
  match a.access with
  | .value => some a.type
  | .ownedBuffer _ _ _ elem => some elem
  | .callback | .ownedCount _ => none

theorem Code.keepInScope_line {l : Line} {next : Code} (hl : l.calls.any Call.passesKeep = false)
    (hd : l.declaresKeep = false) : (Code.line l next).keepInScope false = next.keepInScope false := by
  simp [keepInScope, hl, hd]

theorem keepInScope_keepLines {keep : Bool} {rest : Code}
    (h : keep = false → rest.AsksNoHeight) :
    (Code.ofLines (keepLines keep) ++ rest).keepInScope false = (keep || !rest.passesKeep) := by
  cases keep with
  | true => exact Code.keepInScope_keepTable [] (by simp) rest
  | false => exact Code.keepInScope_eq (h rfl)

theorem Reads.asksNoHeight {job : ReadJob} {n n' : Nat} {code : Code}
    (h : Reads ctx m job n code n') : code.AsksNoHeight :=
  Code.All.asksNoHeight (h.readsFrom.mono fun _ hc => hc.plain)

/-- What a setter does at its end, if there is no keep table. -/
theorem anchorLines_noKeep (anchored : Bool) (key : String) :
    (Code.ofLines (anchorLines false anchored key)).passesKeep = false ∧
      (Code.ofLines (anchorLines false anchored key)).AsksNoHeight := by
  cases anchored with
  | true =>
    refine ⟨rfl, .line (fun c hc => ?_) .done⟩
    rw [List.mem_singleton.mp hc]
    exact fun h => by cases h
  | false => exact ⟨rfl, .line (fun c hc => absurd hc List.not_mem_nil) .done⟩

section

variable {key : String} {category : Category} {keep : Bool} {inside : Code} {a : Accessor} {bit : Nat}
  {countField countType elem : String}

theorem valueSetterCode_keepInScope (h : inside.AsksNoHeight) :
    (valueSetterCode key category keep inside).keepInScope false = (keep || !inside.passesKeep) := by
  have hunused : ∀ {ls : List Line}, ls = (if category.isUnknown then
      [.unused "self", .unused "value"] else []) → (Code.ofLines ls).calls = [] := by
    rintro ls rfl
    split <;> rfl
  rw [valueSetterCode, keepInScope_keepLines fun hk => ?_]
  · cases keep with
    | true => rfl
    | false =>
      obtain ⟨hanchor, -⟩ := anchorLines_noKeep category.needsAnchor key
      simp only [Code.passesKeep_append, hanchor, Bool.or_false]
      simp only [Code.passesKeep, hunused rfl, List.any_nil, Bool.or_false]
  · rw [hk]
    refine .append h (.append (fun c hc => ?_) (anchorLines_noKeep _ _).2)
    rw [hunused rfl] at hc
    exact absurd hc List.not_mem_nil

theorem refillCode_noKeep (h : inside.AsksNoHeight) :
    (refillCode ctx a bit countField countType elem false inside).passesKeep = inside.passesKeep ∧
      (refillCode ctx a bit countField countType elem false inside).AsksNoHeight := by
  obtain ⟨hanchor, hlast⟩ := anchorLines_noKeep true a.key
  constructor
  · rw [refillCode, Code.passesKeep_append, Code.passesKeep_branch, hanchor]
    simp [releaseLines, allocateLines, fillCode, freeIfOwned, popOne, Code.ofLines, Code.blockOf,
      Line.calls, Expr.calls, Cond.calls, Api.on, Support.on, Call.passesKeep]
  · refine .append (.ofLines ?_) (.branch (by simp [Cond.calls])
      (.append (.ofLines ?_) (.block (.line ?_ (.append h (.line ?_ .done))) .done)) .done hlast)
    · simp [releaseLines, freeIfOwned, Line.calls, Expr.calls, Cond.calls, Api.on, Support.on]
    · simp [allocateLines, Line.calls, Expr.calls, Cond.calls, Api.on, Support.on]
    · simp [Line.calls, Api.on]
    · simp [popOne, Line.calls, Api.on]

theorem bufferSetterCode_keepInScope (h : inside.AsksNoHeight) :
    (bufferSetterCode ctx a bit countField countType elem keep inside).keepInScope false =
      (keep || !inside.passesKeep) := by
  rw [bufferSetterCode, Code.keepInScope_line rfl rfl, keepInScope_keepLines fun hk => ?_]
  · cases keep with
    | true => rfl
    | false => rw [(refillCode_noKeep h).1]
  · rw [hk]
    exact (refillCode_noKeep h).2

end

/-- What is handed on if a bound struct is reached, and declared if one is reached early enough. -/
theorem keep_or_not_iff {keep passes : Bool} {early somewhere : Prop} (hk : keep = true ↔ early)
    (hp : passes = true ↔ somewhere) : (keep || !passes) = true ↔ (somewhere → early) := by
  rw [← hk, ← hp]
  cases keep <;> cases passes <;> simp

/-- **In a setter, the keep table is handed on only where it is declared if and only if the value has
no bound struct that is reached too late.** -/
theorem Sets.keepInScope_iff {struct : String} {a : Accessor} {body : Code}
    (h : Sets ctx m struct a body) :
    body.keepInScope false = true ↔ ∀ spelling, a.read? = some spelling →
      (∃ k, ReachesBound ctx m k spelling) → ∃ k, k < maxNesting ∧ ReachesBound ctx m k spelling := by
  -- a plain field and an owned buffer differ only in what is read
  have value {spelling : String} {keep : Bool} {mode : ReadMode} {place : Place} {index : StackIndex}
      {n n' : Nat} {inside : Code} (ha : a.read? = some spelling)
      (hk : (needsKeep ctx spelling).Answered keep m)
      (hin : Reads ctx m (.value mode spelling place index) n inside n')
      (hbody : body.keepInScope false = (keep || !inside.passesKeep)) :
      body.keepInScope false = true ↔ ∀ spelling, a.read? = some spelling →
        (∃ k, ReachesBound ctx m k spelling) →
          ∃ k, k < maxNesting ∧ ReachesBound ctx m k spelling := by
    rw [hbody, ha, keep_or_not_iff (Classifying.DecidesAt.of_answered (fun _ => needsKeep_decides) hk)
      hin.passesKeep_iff]
    simp only [Option.some.injEq, forall_eq']
    rfl
  cases h with
  | value ha _ hk hin =>
    exact value (by rw [Accessor.read?, ha]) hk hin (valueSetterCode_keepInScope hin.asksNoHeight)
  | callback ha =>
    refine iff_of_true rfl fun spelling hs => ?_
    rw [Accessor.read?, ha] at hs
    cases hs
  | ownedBuffer ha hk hin =>
    exact value (by rw [Accessor.read?, ha]) hk hin (bufferSetterCode_keepInScope hin.asksNoHeight)

/-! ## The two recursions side by side -/

/-- **When the keep table is declared where it is handed on.** In a wrapper, if and only if some unit
has asked for it in case some unit uses it; in a setter, if and only if a bound struct that its value
reaches is reached within the levels that are looked at; and what was asked about a value beforehand
agrees with what is written to read it under the same condition. -/
theorem keep_declared_iff (ctx : Context) :
    (∀ f names s binding code s', wrapFunction ctx f names s = (.written binding code, s') →
      let units := ((pairParams ctx f.name f.params).run s.memo).1
      (code.keepInScope false = true ↔
        ((∃ u ∈ units, u.UsesKeep ctx s'.memo) → ∃ u ∈ units, u.AsksKeep ctx s'.memo))) ∧
    (∀ struct s binding code s', bindStruct ctx struct s = (.written binding code, s') →
      ∃ (fields : List Accessor) (setters : List (Accessor × Code)),
        ((accessors ctx struct).run s.memo).1 = .ok fields ∧
        setters.map (·.1) = fields.filter (·.writable) ∧
        code.setters = setters.map (fun (a, body) => (.setter struct.name a.key, body)) ∧
        ∀ p ∈ setters, (p.2.keepInScope false = true ↔ ∀ spelling, p.1.read? = some spelling →
          (∃ k, ReachesBound ctx s'.memo k spelling) →
            ∃ k, k < maxNesting ∧ ReachesBound ctx s'.memo k spelling)) ∧
    (∀ mode spelling place index s u code s' asked m,
      read ctx mode spelling place index s = (.written u code, s') →
      (needsKeep ctx spelling).Answered asked m → s'.memo.Grows m →
      ((code.passesKeep = true → asked = true) ↔
        ((∃ k, ReachesBound ctx m k spelling) →
          ∃ k, k < maxNesting ∧ ReachesBound ctx m k spelling))) := by
  refine ⟨fun f names s binding code s' h => wrapper_keepInScope_iff h, ?_, ?_⟩
  · intro struct s binding code s' h
    obtain ⟨fields, setters, hfields, hsetters⟩ := bindStruct_written h
    exact ⟨fields, setters, hfields, hsetters.accessors, hsetters.defined,
      fun p hp => (hsetters.bodies p hp).keepInScope_iff⟩
  · intro mode spelling place index s u code s' asked m h hasked hm
    have huses := ((read_reads h).mono hm).passesKeep_iff
    have hasks := Classifying.DecidesAt.of_answered (fun _ => needsKeep_decides) hasked
    rw [huses, hasks]
    rfl

/-! ## A struct that is too deep -/

/-- A struct that is bound. -/
def node : StructDecl := ⟨"Node", [⟨"x", "int"⟩], []⟩

/-- A struct with a field of eight dimensions. -/
def grid : StructDecl := ⟨"Grid", [⟨"deep", "Node[1][1][1][1][1][1][1][1]"⟩], []⟩

/-- Two structs, and eight tuples around one of them. -/
def nestContext : Context :=
  Classifying.fresh (Context.build { decls := [.struct node, .struct grid] } { types := { tuples :=
    [("T1", ["m:T2"]), ("T2", ["m:T3"]), ("T3", ["m:T4"]), ("T4", ["m:T5"]), ("T5", ["m:T6"]),
     ("T6", ["m:T7"]), ("T7", ["m:T8"]), ("T8", ["m:Node"])] } })

/-- A function of one value. -/
def probe (type : String) : FunctionDecl where
  name := "probe"
  type := "void (" ++ type ++ ")"
  returnType := "void"
  params := [⟨"p", type, false, false, false⟩]
  variadic := false

/-- Eight tuples or eight dimensions around a bound struct are one too many: it is reached in the
course of reading, and nothing has declared `keep`. -/
theorem keep_undeclared :
    (∃ binding code s', wrapFunction nestContext (probe "T1") ⟨"l_probe", "probe"⟩ {} =
      (.written binding code, s') ∧ code.keepInScope false = false) ∧
    (∃ binding code s', bindStruct nestContext grid {} = (.written binding code, s') ∧
      ∃ p ∈ code.setters, p.2.keepInScope false = false) ∧
    (∃ code s', read nestContext .lenient "Node[1][1][1][1][1][1][1][1]" (.name "v") (.slot 1) {} =
      (.written () code, s') ∧ code.passesKeep = true) ∧
    Classifying.fresh (needsKeep nestContext "Node[1][1][1][1][1][1][1][1]") = false := by
  refine ⟨?_, ?_, ?_, by decide +kernel⟩
  · obtain ⟨binding, code, s', h, hscope⟩ := Draft.exists_written
      (wrapFunction nestContext (probe "T1") ⟨"l_probe", "probe"⟩) {}
      (fun code => !code.keepInScope false) (by decide +kernel)
    exact ⟨binding, code, s', h, by simpa using hscope⟩
  · obtain ⟨binding, code, s', h, hscope⟩ := Draft.exists_written
      (bindStruct nestContext grid) {}
      (fun code => code.setters.any fun p => !p.2.keepInScope false) (by decide +kernel)
    obtain ⟨p, hp, hfalse⟩ := List.any_eq_true.mp hscope
    exact ⟨binding, code, s', h, p, hp, by simpa using hfalse⟩
  · obtain ⟨_, code, s', h, hpasses⟩ := Draft.exists_written
      (read nestContext .lenient "Node[1][1][1][1][1][1][1][1]" (.name "v") (.slot 1)) {}
      Code.passesKeep (by decide +kernel)
    exact ⟨code, s', h, hpasses⟩

/-- One tuple less around it, and `keep` is declared in time; the struct itself and two of them in a
row are no trouble either. -/
theorem keep_declared_shallow :
    (∃ binding code s', wrapFunction nestContext (probe "T2") ⟨"l_probe", "probe"⟩ {} =
        (.written binding code, s') ∧
      let units := ((pairParams nestContext "probe" (probe "T2").params).run {}).1
      ((∃ u ∈ units, u.UsesKeep nestContext s'.memo) →
        ∃ u ∈ units, u.AsksKeep nestContext s'.memo)) ∧
    (∃ binding code s', bindStruct nestContext node {} = (.written binding code, s') ∧
      ∃ fields : List Accessor, ((accessors nestContext node).run {}).1 = .ok fields ∧
        code.setters.length = (fields.filter (·.writable)).length) ∧
    (∃ code s', read nestContext .checked "Node[2]" (.name "v") (.slot 1)
        { memo := ((needsKeep nestContext "Node[2]").run {}).2 } = (.written () code, s') ∧
      ((∃ k, ReachesBound nestContext s'.memo k "Node[2]") →
        ∃ k, k < maxNesting ∧ ReachesBound nestContext s'.memo k "Node[2]")) := by
  refine ⟨?_, ?_, ?_⟩
  · obtain ⟨binding, code, s', h, hscope⟩ := Draft.exists_written
      (wrapFunction nestContext (probe "T2") ⟨"l_probe", "probe"⟩) {}
      (Code.keepInScope false) (by decide +kernel)
    exact ⟨binding, code, s', h, ((keep_declared_iff nestContext).1 _ _ _ _ _ _ h).mp hscope⟩
  · obtain ⟨binding, code, s', h, -⟩ := Draft.exists_written
      (bindStruct nestContext node) {} (fun _ => true) (by decide +kernel)
    obtain ⟨fields, setters, hfields, haccessors, hdefined, -⟩ :=
      (keep_declared_iff nestContext).2.1 _ _ _ _ _ h
    refine ⟨binding, code, s', h, fields, hfields, ?_⟩
    rw [hdefined, ← haccessors, List.length_map, List.length_map]
  · obtain ⟨_, code, s', h, -⟩ := Draft.exists_written
      (read nestContext .checked "Node[2]" (.name "v") (.slot 1))
      { memo := ((needsKeep nestContext "Node[2]").run {}).2 } (fun _ => true) (by decide +kernel)
    have hasked : ((needsKeep nestContext "Node[2]").run {}).1 = true := by decide +kernel
    have hgrows := (read_grows _ _ _ _ _).of_written h
    exact ⟨code, s', h, ((keep_declared_iff nestContext).2.2 _ _ _ _ _ _ _ _ _ _ h ⟨{}, rfl, hgrows⟩
      (Memo.Grows.refl _)).mp fun _ => hasked⟩

end LuaGlue
