import LuaGlue.Proofs.Function.Plan
import LuaGlue.Proofs.Function.References
import LuaGlue.Proofs.Generate.Settle

/-!
# Going through the declarations

A declaration adds at most one chunk. What it adds is a `Piece`, which knows the outline of its chunk
and is listed among the bindings of its sort; where a piece may come from is `Origin`. One step is taken
apart once and for all (`addDecl_step`), and a run is steps in a row (`addDecls_run`), so what is kept
by every step holds at the end.
-/

set_option autoImplicit false

namespace LuaGlue

open Draft

/-! ## Registrars -/

section

variable {ctx : Context} {s s' : Scratch} {code : Code}

theorem memberLines_converting {known : String → Prop} (target : StackIndex)
    (name : String → String) (items : List EnumItem) :
    (memberLines target name items).OnlyConverts known := by
  induction items with
  | nil => exact .pure _
  | cons item rest ih =>
    exact (OnlyConverts.ofExcept _).bind fun _ => (OnlyConverts.lines rfl).bind fun _ =>
      ih.bind fun _ => .pure _

theorem registrar_outlined {α : Type} {known : String → Prop} {f : Symbol} {body : Draft α} {a : α}
    (hbody : body.OnlyConverts known) (h : registrar f body s = (.written a code, s')) :
    code.Outlined known [.defines f] := by
  obtain ⟨_, _, _, _, hblock, hrest, rfl⟩ := bind_written.mp h
  obtain ⟨_, hreturn, rfl⟩ := line_bind_written.mp hrest
  obtain ⟨rfl, rfl, rfl⟩ := pure_written.mp hreturn
  exact (hbody.define hblock).blank

theorem bindEnum_outlined {e : EnumDecl} {binding : EnumBinding}
    (h : bindEnum ctx e s = (.written binding code, s')) :
    code.Outlined ctx.Bound [.defines binding.registrar] ∧ binding.native = e.name ∧
      binding.registrar = .enumRegistrar e.name := by
  obtain ⟨members, _, _, _, hregistrar, hreturn, rfl⟩ := bind_written.mp h
  obtain ⟨rfl, rfl, rfl⟩ := pure_written.mp hreturn
  rw [Code.append_done]
  refine ⟨registrar_outlined ?_ hregistrar, rfl, rfl⟩
  exact (OnlyConverts.line rfl).bind fun _ => (memberLines_converting _ _ _).bind fun _ =>
    (OnlyConverts.line rfl).bind fun _ => .pure _

theorem bindConsts_outlined {g : ConstGroup} {position : Nat} {binding : ConstBinding}
    (h : bindConsts ctx g position s = (.written binding code, s')) :
    code.Outlined ctx.Bound [.defines binding.registrar] ∧
      binding.registrar = .constRegistrar position := by
  obtain ⟨members, _, _, _, hregistrar, hreturn, rfl⟩ := bind_written.mp h
  obtain ⟨rfl, rfl, rfl⟩ := pure_written.mp hreturn
  rw [Code.append_done]
  exact ⟨registrar_outlined (memberLines_converting _ _ _) hregistrar, rfl⟩

end

/-! ## Pieces -/

/-- What a chunk is. -/
inductive Piece where
  | function (f : FunctionBinding)
  | struct (s : StructBinding) (fields : List Accessor)
  | enum (e : EnumBinding)
  | consts (c : ConstBinding)
  /-- A comment in place of a declaration that is left out. -/
  | comment

namespace Piece

def outline : Piece → List Mention
  | function f => [.defines (.wrapper f.names.cName)]
  | struct s fields => structOutline s.native fields
  | enum e => [.defines e.registrar]
  | consts c => [.defines c.registrar]
  | comment => []

def function? : Piece → Option FunctionBinding
  | function f => some f
  | _ => none

def struct? : Piece → Option StructBinding
  | struct s _ => some s
  | _ => none

def enum? : Piece → Option EnumBinding
  | enum e => some e
  | _ => none

def consts? : Piece → Option ConstBinding
  | consts c => some c
  | _ => none

theorem function?_eq {p : Piece} {f : FunctionBinding} : p.function? = some f ↔ p = function f := by
  cases p <;> simp [function?]

theorem struct?_eq {p : Piece} {s : StructBinding} :
    p.struct? = some s ↔ ∃ fields, p = struct s fields := by
  cases p <;> simp [struct?]

theorem enum?_eq {p : Piece} {e : EnumBinding} : p.enum? = some e ↔ p = enum e := by
  cases p <;> simp [enum?]

theorem consts?_eq {p : Piece} {c : ConstBinding} : p.consts? = some c ↔ p = consts c := by
  cases p <;> simp [consts?]

end Piece

/-- The bindings `b'` are `b` and one more piece, with its chunk. -/
structure Bindings.Gains (b : Bindings) (code : Code) (piece : Piece) (b' : Bindings) : Prop where
  chunks : b'.chunks = b.chunks ++ [code]
  functions : b'.functions = b.functions ++ piece.function?.toList
  structs : b'.structs = b.structs ++ piece.struct?.toList
  enums : b'.enums = b.enums ++ piece.enum?.toList
  consts : b'.consts = b.consts ++ piece.consts?.toList

theorem gains_function (b : Bindings) (f : FunctionBinding) (code : Code) :
    b.Gains code (.function f) (b.add Bindings.addFunction f code) := by
  constructor <;> simp [Bindings.add, Bindings.addFunction, Piece.function?, Piece.struct?,
    Piece.enum?, Piece.consts?]

theorem gains_struct (b : Bindings) (s : StructBinding) (fields : List Accessor) (code : Code) :
    b.Gains code (.struct s fields) (b.add Bindings.addStruct s code) := by
  constructor <;> simp [Bindings.add, Bindings.addStruct, Piece.function?, Piece.struct?,
    Piece.enum?, Piece.consts?]

theorem gains_enum (b : Bindings) (e : EnumBinding) (code : Code) :
    b.Gains code (.enum e) (b.add Bindings.addEnum e code) := by
  constructor <;> simp [Bindings.add, Bindings.addEnum, Piece.function?, Piece.struct?,
    Piece.enum?, Piece.consts?]

theorem gains_consts (b : Bindings) (c : ConstBinding) (code : Code) :
    b.Gains code (.consts c) (b.add Bindings.addConsts c code) := by
  constructor <;> simp [Bindings.add, Bindings.addConsts, Piece.function?, Piece.struct?,
    Piece.enum?, Piece.consts?]

theorem gains_comment (b : Bindings) (name : String) (fault : Fault) :
    b.Gains (problemComment ⟨name, fault⟩) .comment (b.leaveOut name fault) := by
  constructor <;> simp [Bindings.leaveOut, Piece.function?, Piece.struct?, Piece.enum?,
    Piece.consts?]

theorem problemComment_outlined (p : Problem) (known : String → Prop) :
    (problemComment p).Outlined known [] :=
  .of_mentions rfl (by simp)

/-! ## One declaration -/

/-- The piece that a declaration at a position may add. -/
inductive Origin (ctx : Context) (m : Memo) (plan : OverloadPlan) (position : Nat) :
    Declaration → Piece → Prop where
  | function {f names binding} (hplan : plan.names? position = some (.ok names))
      (hnative : binding.native = f.name) (hnames : binding.names = names) :
      Origin ctx m plan position (.function f) (.function binding)
  | struct {s binding fields} (hnative : binding.native = s.name)
      (hmade : StructMade ctx m binding fields) :
      Origin ctx m plan position (.struct s) (.struct binding fields)
  | enum {e binding} (hnative : binding.native = e.name)
      (hregistrar : binding.registrar = .enumRegistrar e.name) :
      Origin ctx m plan position (.enum e) (.enum binding)
  | consts {g binding} (hregistrar : binding.registrar = .constRegistrar position) :
      Origin ctx m plan position (.consts g) (.consts binding)
  | comment {d} : Origin ctx m plan position d .comment

theorem Origin.made {ctx : Context} {m : Memo} {plan : OverloadPlan} {position : Nat}
    {d : Declaration} {binding : StructBinding} {fields : List Accessor}
    (h : Origin ctx m plan position d (.struct binding fields)) : StructMade ctx m binding fields := by
  cases h with
  | struct _ hmade => exact hmade

/-- The name a struct or an enum is met under. -/
def Declaration.tag? : Declaration → Option String
  | .struct s => some s.name
  | .enum e => some e.name
  | .function _ | .consts _ => none

/-- Whether a declaration must add a piece of its own when it is met for the first time. -/
def Declaration.IsBound (ctx : Context) : Declaration → Prop
  | .struct s => ctx.isBound s.name = true
  | _ => False

/-- One declaration is taken in: with a piece, or with nothing. A piece with a tag is only added when
the tag is new; a bound struct whose tag is new is always added. -/
inductive Progress.Step (ctx : Context) (m : Memo) (plan : OverloadPlan) (position : Nat)
    (d : Declaration) (p : Progress) : Progress → Prop where
  | added {code piece b'} (horigin : Origin ctx m plan position d piece)
      (hcode : code.Outlined ctx.Bound piece.outline) (hgains : p.bindings.Gains code piece b')
      (hnew : ∀ tag, d.tag? = some tag → tag ∉ p.seen)
      (hall : d.IsBound ctx → piece ≠ .comment) :
      Step ctx m plan position d p ⟨b', d.tag?.toList ++ p.seen⟩
  | passed {seen'} (hseen : seen' = p.seen ∨ seen' = d.tag?.toList ++ p.seen)
      (hall : d.IsBound ctx → ∀ tag, d.tag? = some tag → tag ∈ p.seen ∧ tag ∈ seen') :
      Step ctx m plan position d p ⟨p.bindings, seen'⟩

section

variable {ctx : Context} {m m' M : Memo} {settled : Settled} {plan : OverloadPlan} {position : Nat}
  {p p' : Progress}

/-- A chunk that is written is added, and one that is not is left out. -/
theorem conclude_step {α : Type} (piece : α → Piece) {d : Declaration} {name : String}
    {draft : Draft α} {record : α → Bindings → Bindings} {seen : List String}
    {answer : Except Fault (α × Code)}
    (hchunk : (chunk draft).run m = (answer, m'))
    (hwritten : ∀ a code s s', draft s = (.written a code, s') →
      Origin ctx M plan position d (piece a) ∧ code.Outlined ctx.Bound (piece a).outline)
    (hgains : ∀ a code, p.bindings.Gains code (piece a) (p.bindings.add record a code))
    (hseen : seen = d.tag?.toList ++ p.seen) (hnew : ∀ tag, d.tag? = some tag → tag ∉ p.seen)
    (hfree : ¬ d.IsBound ctx) :
    Progress.Step ctx M plan position d p
      (Progress.conclude ⟨p.bindings, seen⟩ name record answer) := by
  subst hseen
  cases answer with
  | ok given =>
    obtain ⟨a, code⟩ := given
    obtain ⟨s', hdraft, -⟩ := chunk_ok.mp hchunk
    obtain ⟨horigin, hcode⟩ := hwritten a code _ s' hdraft
    exact .added horigin hcode (hgains a code) hnew fun h => absurd h hfree
  | error fault =>
    exact .added .comment (problemComment_outlined _ _) (gains_comment _ name fault) hnew
      fun h => absurd h hfree

theorem lookup_mem {α : Type} {entries : List (String × α)} {name : String} {a : α}
    (h : entries.lookup name = some a) : (name, a) ∈ entries := by
  obtain ⟨before, after, rfl, -⟩ := List.lookup_eq_some_iff.mp h
  simp

theorem lookup_isSome {α : Type} {entries : List (String × α)} {name : String}
    (h : name ∈ entries.map (·.1)) : ∃ a, entries.lookup name = some a := by
  induction entries with
  | nil => exact absurd h List.not_mem_nil
  | cons e rest ih =>
    rw [List.lookup_cons]
    by_cases heq : name = e.1
    · exact ⟨e.2, by simp [heq]⟩
    · have hne : (name == e.1) = false := by simpa using heq
      rw [hne]
      exact ih ((List.mem_cons.mp h).resolve_left heq)

theorem addStruct_step (hsettled : IsSettled ctx M settled) (s : StructDecl)
    (hs : s ∈ ctx.interface.structs) :
    Progress.Step ctx M plan position (.struct s) p (p.addStruct settled s) := by
  unfold Progress.addStruct Progress.meet
  cases hmet : p.seen.contains s.name with
  | true =>
    have hmem : s.name ∈ p.seen := List.contains_iff_mem.mp hmet
    refine .passed (.inr rfl) fun _ tag htag => ?_
    cases htag
    exact ⟨hmem, List.mem_cons_self⟩
  | false =>
    have hnew : ∀ tag, (Declaration.struct s).tag? = some tag → tag ∉ p.seen := by
      intro tag htag hmem
      cases htag
      rw [List.contains_iff_mem.mpr hmem] at hmet
      exact absurd hmet (by simp)
    dsimp only
    cases hfailed : settled.failed.lookup s.name with
    | some fault =>
      have hfree : ctx.isBound s.name = false := hsettled.failed _ (lookup_mem hfailed)
      refine .added .comment (problemComment_outlined _ _) (gains_comment _ s.name fault) hnew ?_
      intro hb
      exact absurd hb (by simp [Declaration.IsBound, hfree])
    | none =>
      cases hlookup : settled.written.lookup s.name with
      | some given =>
        obtain ⟨binding, code⟩ := given
        obtain ⟨s', hs', hname, hb, hwritten⟩ := hsettled.written _ (lookup_mem hlookup)
        obtain ⟨fields, hmade, hnative, houtlined⟩ := hwritten.made hs' hb
        exact .added (.struct (hnative.trans hname) hmade) houtlined (gains_struct _ _ _ _) hnew
          fun _ => by simp
      | none =>
        -- a bound struct was written when structs were settled
        refine .passed (.inr rfl) fun hb => ?_
        obtain ⟨given, hgiven⟩ := lookup_isSome (hsettled.all s hs hb)
        rw [hlookup] at hgiven
        exact absurd hgiven (by simp)

theorem addEnum_step {e : EnumDecl} (h : (p.addEnum ctx e).run m = (p', m')) :
    Progress.Step ctx M plan position (.enum e) p p' := by
  have hfree : ¬ (Declaration.enum e).IsBound ctx := fun h => h
  unfold Progress.addEnum Progress.meet at h
  split at h
  · obtain ⟨rfl, -⟩ := Classifying.run_pure_eq.mp h
    exact .passed (.inl rfl) fun hb => absurd hb hfree
  · cases hmet : p.seen.contains e.name with
    | true =>
      rw [hmet] at h
      obtain ⟨rfl, -⟩ := Classifying.run_pure_eq.mp h
      exact .passed (.inr rfl) fun hb => absurd hb hfree
    | false =>
      rw [hmet] at h
      obtain ⟨answer, m₁, hchunk, hreturn⟩ := Classifying.run_bind_eq.mp h
      obtain ⟨rfl, -⟩ := Classifying.run_pure_eq.mp hreturn
      refine conclude_step Piece.enum hchunk ?_ (gains_enum _) rfl ?_ hfree
      · intro binding code s s' hwritten
        obtain ⟨houtlined, hnative, hregistrar⟩ := bindEnum_outlined hwritten
        exact ⟨.enum hnative hregistrar, houtlined⟩
      · intro tag htag hmem
        cases htag
        rw [List.contains_iff_mem.mpr hmem] at hmet
        exact absurd hmet (by simp)

/-- **What one declaration does.** -/
theorem addDecl_step {d : Declaration} (hsettled : IsSettled ctx M settled)
    (hd : ∀ s, d = .struct s → s ∈ ctx.interface.structs)
    (h : (p.addDecl ctx settled plan position d).run m = (p', m')) :
    Progress.Step ctx M plan position d p p' := by
  cases d with
  | struct s =>
    obtain ⟨rfl, -⟩ := Classifying.run_pure_eq.mp h
    exact addStruct_step hsettled s (hd s rfl)
  | enum e => exact addEnum_step h
  | consts g =>
    obtain ⟨answer, m₁, hchunk, hreturn⟩ := Classifying.run_bind_eq.mp h
    obtain ⟨rfl, -⟩ := Classifying.run_pure_eq.mp hreturn
    refine conclude_step Piece.consts hchunk ?_ (gains_consts _) rfl (by simp [Declaration.tag?])
      fun h => h
    intro binding code s s' hwritten
    obtain ⟨houtlined, hregistrar⟩ := bindConsts_outlined hwritten
    exact ⟨.consts hregistrar, houtlined⟩
  | function f =>
    have hnew : ∀ tag, (Declaration.function f).tag? = some tag → tag ∉ p.seen := by
      simp [Declaration.tag?]
    unfold Progress.addDecl at h
    dsimp only at h
    cases hplan : plan.names? position with
    | none =>
      rw [hplan] at h
      obtain ⟨rfl, -⟩ := Classifying.run_pure_eq.mp h
      exact .passed (.inl rfl) fun hb => False.elim hb
    | some planned =>
      rw [hplan] at h
      cases planned with
      | error fault =>
        obtain ⟨rfl, -⟩ := Classifying.run_pure_eq.mp h
        exact .added .comment (problemComment_outlined _ _) (gains_comment _ f.name fault) hnew
          fun hb => False.elim hb
      | ok names =>
        obtain ⟨answer, m₁, hchunk, hreturn⟩ := Classifying.run_bind_eq.mp h
        obtain ⟨rfl, -⟩ := Classifying.run_pure_eq.mp hreturn
        refine conclude_step Piece.function hchunk ?_ (gains_function _) rfl hnew fun h => h
        intro binding code s s' hwritten
        obtain ⟨hnative, hnames⟩ := wrapFunction_names ctx hwritten
        refine ⟨.function hplan hnative hnames, ?_⟩
        rw [Piece.outline, hnames]
        exact wrapFunction_outlined ctx hwritten

/-! ## All declarations -/

/-- Declarations are taken in one after another, the first of them from a position on. -/
inductive Progress.Run (ctx : Context) (m : Memo) (plan : OverloadPlan) :
    Nat → List Declaration → Progress → Progress → Prop where
  | nil {position : Nat} {p : Progress} : Run ctx m plan position [] p p
  | cons {position : Nat} {d : Declaration} {rest : List Declaration} {p p₁ p' : Progress}
      (step : Progress.Step ctx m plan position d p p₁)
      (run : Run ctx m plan (position + 1) rest p₁ p') : Run ctx m plan position (d :: rest) p p'

theorem addDecls_run (hsettled : IsSettled ctx M settled) :
    ∀ {decls : List Declaration} {position : Nat} {p p' : Progress} {m m' : Memo},
      (∀ d ∈ decls, ∀ s, d = .struct s → s ∈ ctx.interface.structs) →
      (Progress.addDecls ctx settled plan p position decls).run m = (p', m') →
      Progress.Run ctx M plan position decls p p' := by
  intro decls
  induction decls with
  | nil =>
    intro position p p' m m' _ h
    obtain ⟨rfl, -⟩ := Classifying.run_pure_eq.mp h
    exact .nil
  | cons d rest ih =>
    intro position p p' m m' hd h
    obtain ⟨p₁, m₁, hstep, hrest⟩ := Classifying.run_bind_eq.mp h
    refine .cons (addDecl_step hsettled (hd d List.mem_cons_self) hstep) ?_
    exact ih (fun d' hd' => hd d' (List.mem_cons_of_mem _ hd')) hrest

end

end LuaGlue
