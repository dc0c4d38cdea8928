import LuaGlue.Proofs.Generate.Progress

/-!
# What became of each declaration

A declaration is entered into the bindings of a module once, as its glue and what the glue binds or as
a problem (`ModuleEntry`), or not at all. Which one it is, depends on the declaration and on the names that
declarations before it have claimed (`Declaration.isEntered`); so the positions that are entered can be
told beforehand (`enteredPositions`), and going through the declarations enters exactly these
(`Accounted.run`).
-/

set_option autoImplicit false

namespace LuaGlue

open Draft

/-! ## Entries -/

/-- What a declaration was entered as: its glue and what the glue binds, or a problem. -/
inductive ModuleEntry where
  | function (binding : FunctionBinding) (glue : Code)
  | struct (binding : StructBinding) (glue : Code)
  | enum (binding : EnumBinding) (glue : Code)
  | consts (binding : ConstBinding) (glue : Code)
  | leftOut (problem : Problem)

namespace ModuleEntry

/-- The chunk of the file: the glue, or a comment on the problem. -/
def chunk : ModuleEntry → Code
  | function _ glue | struct _ glue | enum _ glue | consts _ glue => glue
  | leftOut p => problemComment p

def function? : ModuleEntry → Option FunctionBinding
  | function binding _ => some binding
  | _ => none

def struct? : ModuleEntry → Option StructBinding
  | struct binding _ => some binding
  | _ => none

def enum? : ModuleEntry → Option EnumBinding
  | enum binding _ => some binding
  | _ => none

def consts? : ModuleEntry → Option ConstBinding
  | consts binding _ => some binding
  | _ => none

def problem? : ModuleEntry → Option Problem
  | leftOut p => some p
  | _ => none

end ModuleEntry

namespace Bindings

/-- The bindings with one entry more. -/
def enter (b : Bindings) : ModuleEntry → Bindings
  | .function binding glue => b.add addFunction binding glue
  | .struct binding glue => b.add addStruct binding glue
  | .enum binding glue => b.add addEnum binding glue
  | .consts binding glue => b.add addConsts binding glue
  | .leftOut p => b.leaveOut p.name p.fault

/-- The bindings are these entries and nothing else: every entry has one chunk, in this order, and
either one binding of its sort or one problem. -/
structure Accounts (b : Bindings) (entries : List ModuleEntry) : Prop where
  chunks : b.chunks = entries.map ModuleEntry.chunk
  functions : b.functions = entries.filterMap ModuleEntry.function?
  structs : b.structs = entries.filterMap ModuleEntry.struct?
  enums : b.enums = entries.filterMap ModuleEntry.enum?
  consts : b.consts = entries.filterMap ModuleEntry.consts?
  problems : b.problems = entries.filterMap ModuleEntry.problem?

theorem Accounts.nil : ({} : Bindings).Accounts [] := ⟨rfl, rfl, rfl, rfl, rfl, rfl⟩

theorem Accounts.enter {b : Bindings} {entries : List ModuleEntry} (h : b.Accounts entries)
    (e : ModuleEntry) :
    (b.enter e).Accounts (entries ++ [e]) := by
  obtain ⟨hchunks, hfunctions, hstructs, henums, hconsts, hproblems⟩ := h
  cases e <;>
    constructor <;>
    simp [Bindings.enter, Bindings.add, addFunction, addStruct, addEnum, addConsts, leaveOut,
      ModuleEntry.chunk, ModuleEntry.function?, ModuleEntry.struct?, ModuleEntry.enum?,
      ModuleEntry.consts?, ModuleEntry.problem?, *]

end Bindings

/-- The name a declaration is reported under; a group of constants is called by its position. -/
def Declaration.label (position : Nat) (d : Declaration) : String :=
  d.name?.getD ("consts#" ++ toString position)

/-- What the declaration at a position may be entered as: the glue that is written for it, or a
problem under its name. -/
inductive ModuleEntry.Of (ctx : Context) (plan : OverloadPlan) (position : Nat) :
    Declaration → ModuleEntry → Prop where
  | function {f names binding glue s s'} (hplan : plan.names? position = some (.ok names))
      (hwritten : wrapFunction ctx f names s = (.written binding glue, s')) :
      Of ctx plan position (.function f) (.function binding glue)
  | struct {decl binding glue s s'} (hwritten : bindStruct ctx decl s = (.written binding glue, s')) :
      Of ctx plan position (.struct decl) (.struct binding glue)
  | enum {e binding glue s s'} (hwritten : bindEnum ctx e s = (.written binding glue, s')) :
      Of ctx plan position (.enum e) (.enum binding glue)
  | consts {g binding glue s s'}
      (hwritten : bindConsts ctx g position s = (.written binding glue, s')) :
      Of ctx plan position (.consts g) (.consts binding glue)
  | leftOut {d} (fault : Fault) : Of ctx plan position d (.leftOut ⟨d.label position, fault⟩)

/-- What the problem of an enum or of a group of constants says is why the glue could not be written. -/
def ModuleEntry.Reports (ctx : Context) (position : Nat) : Declaration → ModuleEntry → Prop
  | .enum e, .leftOut p => ∃ s, (bindEnum ctx e s).1.fault? = some p.fault
  | .consts g, .leftOut p => ∃ s, (bindConsts ctx g position s).1.fault? = some p.fault
  | _, _ => True

/-! ## Who is entered -/

/-- A struct that has a userdata type of its own. -/
def Category.isOwnStruct : Category → Bool
  | .structValue _ .userdata | .structValue _ .byteRange => true
  | _ => false

/-- Whether a declaration is to have glue: the functions, enums and structs that the manifest does not
leave out, of functions those that are not variadic, and of structs those that have a userdata type by
the categories in a memo; and all constants. -/
def Declaration.isDue (m : Manifest) (memo : Memo) : Declaration → Bool
  | .function f => isWrapped m f
  | .struct s => !m.isStructSkipped s.name && (memo.find? s.name).any Category.isOwnStruct
  | .enum e => !m.isExcluded e.name
  | .consts _ => true

/-- The name that a declaration takes from the structs and enums after it. -/
def Declaration.claims? (m : Manifest) : Declaration → Option String
  | .struct s => some s.name
  | .enum e => if m.isExcluded e.name then none else some e.name
  | .function _ | .consts _ => none

/-- Whether one of some declarations claims a name. -/
def isClaimed (m : Manifest) (decls : List Declaration) (name : String) : Bool :=
  decls.any fun d => d.claims? m == some name

/-- Whether a declaration is entered after some others. -/
def Declaration.isEntered (m : Manifest) (memo : Memo) (before : List Declaration)
    (d : Declaration) : Bool :=
  d.isDue m memo && !(d.claims? m).any (isClaimed m before)

/-- The positions of the declarations that are to have glue. -/
def duePositions (m : Manifest) (memo : Memo) (decls : List Declaration) : List Nat :=
  (List.range decls.length).filter fun k => decls[k]?.any (Declaration.isDue m memo)

/-- The positions of the declarations that are entered. -/
def enteredPositions (m : Manifest) (memo : Memo) (decls : List Declaration) (upTo : Nat) :
    List Nat :=
  (List.range upTo).filter fun k => decls[k]?.any (Declaration.isEntered m memo (decls.take k))

/-! ## One declaration -/

/-- What is known when going through the declarations begins. -/
structure Prepared (i : Interface) (m : Manifest) (memo : Memo) (ctx : Context) (settled : Settled)
    (plan : OverloadPlan) : Prop where
  manifest_eq : ctx.manifest = m
  written : ∀ s ∈ i.structs, ∀ binding glue, settled.written.lookup s.name = some (binding, glue) →
    ∃ t t', bindStruct ctx s t = (.written binding glue, t')
  /-- The structs that are to have glue are those that were written or failed. -/
  due : ∀ s ∈ i.structs, (Declaration.struct s).isDue m memo = true ↔
    (settled.failed.lookup s.name).isSome ∨ (settled.written.lookup s.name).isSome
  planned : ∀ position f, i.decls[position]? = some (.function f) →
    ((plan.names? position).isSome ↔ isWrapped m f = true)

section

variable {i : Interface} {m : Manifest} {memo m₀ m₁ : Memo} {ctx : Context} {settled : Settled}
  {plan : OverloadPlan} {position : Nat} {p p' : Progress}

/-- A chunk is entered: as glue if it was written, and as a problem if it was not. -/
theorem conclude_enter {α : Type} {draft : Draft α} {answer : Except Fault (α × Code)}
    (hchunk : (chunk draft).run m₀ = (answer, m₁)) (d : Declaration) (entry : α → Code → ModuleEntry)
    (record : α → Bindings → Bindings)
    (hrecord : ∀ a glue, p.bindings.add record a glue = p.bindings.enter (entry a glue))
    (hof : ∀ a glue s s', draft s = (.written a glue, s') →
      (entry a glue).Of ctx plan position d ∧ (entry a glue).Reports ctx position d)
    (hreports : ∀ fault s, (draft s).1.fault? = some fault →
      (ModuleEntry.leftOut ⟨d.label position, fault⟩).Reports ctx position d) :
    ∃ e : ModuleEntry, (e.Of ctx plan position d ∧ e.Reports ctx position d) ∧
      (p.conclude (d.label position) record answer).bindings = p.bindings.enter e := by
  cases answer with
  | ok given =>
    obtain ⟨a, glue⟩ := given
    obtain ⟨s', hdraft, -⟩ := chunk_ok.mp hchunk
    exact ⟨entry a glue, hof a glue _ s' hdraft, hrecord a glue⟩
  | error fault => exact ⟨_, ⟨.leftOut fault, hreports fault _ (chunk_error hchunk)⟩, rfl⟩

theorem conclude_seen {α : Type} (name : String) (record : α → Bindings → Bindings)
    (answer : Except Fault (α × Code)) : (p.conclude name record answer).seen = p.seen := by
  cases answer <;> rfl

/-- What going through one declaration does to the bindings and to the names that are seen. -/
structure Progress.Enters (m : Manifest) (memo : Memo) (ctx : Context) (plan : OverloadPlan)
    (position : Nat) (before : List Declaration) (d : Declaration) (p p' : Progress) : Prop where
  bindings : if d.isEntered m memo before then
      ∃ e : ModuleEntry, (e.Of ctx plan position d ∧ e.Reports ctx position d) ∧
        p'.bindings = p.bindings.enter e
    else p'.bindings = p.bindings
  seen : ∀ name, name ∈ p'.seen ↔ name ∈ p.seen ∨ d.claims? m = some name

theorem Prepared.addStruct (h : Prepared i m memo ctx settled plan) {before : List Declaration}
    (hseen : ∀ name, name ∈ p.seen ↔ isClaimed m before name = true) {s : StructDecl}
    (hs : s ∈ i.structs) :
    Progress.Enters m memo ctx plan position before (.struct s) p (p.addStruct settled s) := by
  have hmet : p.seen.contains s.name = isClaimed m before s.name := by
    rw [Bool.eq_iff_iff, List.contains_iff_mem, hseen]
  have hentered : (Declaration.struct s).isEntered m memo before =
      ((Declaration.struct s).isDue m memo && !p.seen.contains s.name) := by
    rw [hmet]
    rfl
  constructor
  · rw [hentered]
    unfold Progress.addStruct Progress.meet
    cases p.seen.contains s.name with
    | true => simp
    | false =>
      rw [Bool.not_false, Bool.and_true]
      dsimp only
      cases hfailed : settled.failed.lookup s.name with
      | some fault =>
        rw [if_pos ((h.due s hs).mpr (.inl (by rw [hfailed]; rfl)))]
        exact ⟨_, ⟨.leftOut fault, trivial⟩, rfl⟩
      | none =>
        cases hwritten : settled.written.lookup s.name with
        | some given =>
          rw [if_pos ((h.due s hs).mpr (.inr (by rw [hwritten]; rfl)))]
          obtain ⟨t, t', hglue⟩ := h.written s hs _ _ hwritten
          exact ⟨_, ⟨.struct hglue, trivial⟩, rfl⟩
        | none =>
          rw [if_neg]
          rw [h.due s hs, hfailed, hwritten]
          simp
  · intro name
    have hnames : (p.addStruct settled s).seen = s.name :: p.seen := by
      unfold Progress.addStruct Progress.meet
      cases p.seen.contains s.name with
      | true => rfl
      | false =>
        dsimp only
        cases settled.failed.lookup s.name with
        | some fault => rfl
        | none => cases settled.written.lookup s.name <;> rfl
    rw [hnames, List.mem_cons, or_comm, eq_comm]
    simp [Declaration.claims?]

theorem Prepared.addEnum (h : Prepared i m memo ctx settled plan) {before : List Declaration}
    (hseen : ∀ name, name ∈ p.seen ↔ isClaimed m before name = true) {e : EnumDecl}
    (hrun : (p.addEnum ctx e).run m₀ = (p', m₁)) :
    Progress.Enters m memo ctx plan position before (.enum e) p p' := by
  have hmet : p.seen.contains e.name = isClaimed m before e.name := by
    rw [Bool.eq_iff_iff, List.contains_iff_mem, hseen]
  unfold Progress.addEnum at hrun
  rw [h.manifest_eq] at hrun
  by_cases hexcluded : m.isExcluded e.name = true
  · rw [if_pos hexcluded] at hrun
    obtain ⟨rfl, -⟩ := Classifying.run_pure_eq.mp hrun
    constructor
    · simp [Declaration.isEntered, Declaration.isDue, hexcluded]
    · simp [Declaration.claims?, hexcluded]
  · rw [if_neg hexcluded] at hrun
    have hclaims : (Declaration.enum e).claims? m = some e.name := if_neg hexcluded
    have hentered : (Declaration.enum e).isEntered m memo before = !p.seen.contains e.name := by
      rw [hmet, Declaration.isEntered, hclaims]
      simp [Declaration.isDue, hexcluded]
    have hnames (name : String) : name ∈ e.name :: p.seen ↔
        name ∈ p.seen ∨ (Declaration.enum e).claims? m = some name := by
      rw [List.mem_cons, or_comm, hclaims, Option.some.injEq, eq_comm (a := name)]
    unfold Progress.meet at hrun
    cases hcontains : p.seen.contains e.name with
    | true =>
      rw [hcontains] at hrun hentered
      obtain ⟨rfl, -⟩ := Classifying.run_pure_eq.mp hrun
      refine ⟨?_, hnames⟩
      rw [hentered]
      rfl
    | false =>
      rw [hcontains] at hrun hentered
      obtain ⟨answer, m₂, hchunk, hreturn⟩ := Classifying.run_bind_eq.mp hrun
      obtain ⟨rfl, -⟩ := Classifying.run_pure_eq.mp hreturn
      constructor
      · rw [hentered]
        exact conclude_enter hchunk (.enum e) .enum Bindings.addEnum (fun _ _ => rfl)
          (fun _ _ _ _ hwritten => ⟨.enum hwritten, trivial⟩) fun _ s hfault => ⟨s, hfault⟩
      · rw [conclude_seen]
        exact hnames

/-- **What one declaration is entered as.** -/
theorem Prepared.addDecl (h : Prepared i m memo ctx settled plan) {before : List Declaration}
    (hseen : ∀ name, name ∈ p.seen ↔ isClaimed m before name = true) {d : Declaration}
    (hd : i.decls[position]? = some d)
    (hrun : (p.addDecl ctx settled plan position d).run m₀ = (p', m₁)) :
    Progress.Enters m memo ctx plan position before d p p' := by
  cases d with
  | struct s =>
    obtain ⟨rfl, -⟩ := Classifying.run_pure_eq.mp hrun
    exact h.addStruct hseen (List.mem_filterMap.mpr ⟨_, List.mem_of_getElem? hd, rfl⟩)
  | enum e => exact h.addEnum hseen hrun
  | consts g =>
    obtain ⟨answer, m₂, hchunk, hreturn⟩ := Classifying.run_bind_eq.mp hrun
    obtain ⟨rfl, -⟩ := Classifying.run_pure_eq.mp hreturn
    constructor
    · exact conclude_enter hchunk (.consts g) .consts Bindings.addConsts (fun _ _ => rfl)
        (fun _ _ _ _ hwritten => ⟨.consts hwritten, trivial⟩) fun _ s hfault => ⟨s, hfault⟩
    · simp [conclude_seen, Declaration.claims?]
  | function f =>
    have hentered : (Declaration.function f).isEntered m memo before = isWrapped m f :=
      Bool.and_true _
    have hplanned := h.planned position f hd
    unfold Progress.addDecl at hrun
    dsimp only at hrun
    cases hplan : plan.names? position with
    | none =>
      rw [hplan] at hrun hplanned
      obtain ⟨rfl, -⟩ := Classifying.run_pure_eq.mp hrun
      refine ⟨?_, by simp [Declaration.claims?]⟩
      rw [hentered, if_neg fun hwrapped => absurd (hplanned.mpr hwrapped) (by simp)]
    | some planned =>
      rw [hplan] at hrun hplanned
      have hwrapped : isWrapped m f = true := hplanned.mp rfl
      cases planned with
      | error fault =>
        obtain ⟨rfl, -⟩ := Classifying.run_pure_eq.mp hrun
        refine ⟨?_, by simp [Declaration.claims?]⟩
        rw [hentered, if_pos hwrapped]
        exact ⟨_, ⟨.leftOut fault, trivial⟩, rfl⟩
      | ok names =>
        obtain ⟨answer, m₂, hchunk, hreturn⟩ := Classifying.run_bind_eq.mp hrun
        obtain ⟨rfl, -⟩ := Classifying.run_pure_eq.mp hreturn
        refine ⟨?_, by simp [conclude_seen, Declaration.claims?]⟩
        rw [hentered, if_pos hwrapped]
        exact conclude_enter hchunk (.function f) .function Bindings.addFunction (fun _ _ => rfl)
          (fun _ _ _ _ hwritten => ⟨.function hplan hwritten, trivial⟩) fun _ _ _ => trivial

/-! ## All declarations -/

/-- The declarations before a position, entered. -/
structure Accounted (m : Manifest) (memo : Memo) (ctx : Context) (plan : OverloadPlan)
    (decls : List Declaration) (upTo : Nat) (p : Progress) (account : List (Nat × ModuleEntry)) : Prop where
  accounts : p.bindings.Accounts (account.map (·.2))
  of : ∀ e ∈ account, ∃ d, decls[e.1]? = some d ∧ e.2.Of ctx plan e.1 d ∧ e.2.Reports ctx e.1 d
  positions : account.map (·.1) = enteredPositions m memo decls upTo
  seen : ∀ name, name ∈ p.seen ↔ isClaimed m (decls.take upTo) name = true

theorem Accounted.start {decls : List Declaration} : Accounted m memo ctx plan decls 0 {} [] where
  accounts := .nil
  of := by simp
  positions := rfl
  seen := by simp [isClaimed]

theorem Accounted.step {decls : List Declaration} {account : List (Nat × ModuleEntry)}
    (h : Accounted m memo ctx plan decls position p account) {d : Declaration}
    (hd : decls[position]? = some d)
    (henters : Progress.Enters m memo ctx plan position (decls.take position) d p p') :
    ∃ account', Accounted m memo ctx plan decls (position + 1) p' account' := by
  have hlt : position < decls.length := (List.getElem?_eq_some_iff.mp hd).1
  have hpositions : enteredPositions m memo decls (position + 1) =
      enteredPositions m memo decls position ++
        if d.isEntered m memo (decls.take position) then [position] else [] := by
    rw [enteredPositions, List.range_succ, List.filter_append, enteredPositions, List.filter_cons, hd,
      Option.any_some, List.filter_nil]
  have hseen : ∀ name, name ∈ p'.seen ↔ isClaimed m (decls.take (position + 1)) name = true := by
    intro name
    rw [henters.seen, h.seen, List.take_add_one, hd, Option.toList_some]
    simp [isClaimed]
  have hbindings := henters.bindings
  split at hbindings
  · rename_i hentered
    obtain ⟨e, hof, hp'⟩ := hbindings
    refine ⟨account ++ [(position, e)], ?_, ?_, ?_, hseen⟩
    · rw [hp', List.map_append]
      exact h.accounts.enter e
    · exact List.forall_mem_append.mpr ⟨h.of, by simpa using ⟨d, hd, hof⟩⟩
    · rw [hpositions, if_pos hentered, List.map_append, h.positions]
      rfl
  · rename_i hentered
    refine ⟨account, hbindings ▸ h.accounts, h.of, ?_, hseen⟩
    rw [hpositions, if_neg hentered, List.append_nil, h.positions]

/-- **Going through the declarations enters exactly those that are to be entered.** -/
theorem Accounted.run (hprepared : Prepared i m memo ctx settled plan) :
    ∀ {rest : List Declaration} {position : Nat} {p p' : Progress} {m₀ m₁ : Memo}
      {account : List (Nat × ModuleEntry)},
      Accounted m memo ctx plan i.decls position p account →
      (∀ k, rest[k]? = i.decls[position + k]?) →
      (Progress.addDecls ctx settled plan p position rest).run m₀ = (p', m₁) →
      ∃ account', Accounted m memo ctx plan i.decls (position + rest.length) p' account' := by
  intro rest
  induction rest with
  | nil =>
    intro position p p' m₀ m₁ account h _ hrun
    obtain ⟨rfl, -⟩ := Classifying.run_pure_eq.mp hrun
    exact ⟨account, h⟩
  | cons d rest ih =>
    intro position p p' m₀ m₁ account h hrest hrun
    obtain ⟨p₁, m₂, hstep, hlater⟩ := Classifying.run_bind_eq.mp hrun
    have hd : i.decls[position]? = some d := by simpa using (hrest 0).symm
    obtain ⟨account₁, h₁⟩ := h.step hd (hprepared.addDecl h.seen hd hstep)
    obtain ⟨account', h'⟩ := ih h₁ (fun k => by
      rw [show position + 1 + k = position + (k + 1) by omega, ← hrest, List.getElem?_cons_succ])
      hlater
    refine ⟨account', ?_⟩
    rwa [List.length_cons, Nat.add_comm rest.length, ← Nat.add_assoc]

end

end LuaGlue
