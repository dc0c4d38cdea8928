import LuaGlue.Code.Event
import LuaGlue.Proofs.Code.Run

/-!
# The calls in a text

`code.calls` lists the calls that stand in a piece of code, in the order of the text. It is what
statements about the text are about — which native function is called with what, which stack
positions are mentioned — while runs are about what happens.
-/

set_option autoImplicit false

namespace LuaGlue

/-- A call of the library that is bound. -/
def Call.isNative (c : Call) : Bool :=
  match c.callee with
  | .native _ => true
  | _ => false

/-- A call that neither is of the library nor asks how high the stack is: those are the only ones
that are written nowhere in the course of marshaling. -/
def Call.isPlain (c : Call) : Bool :=
  match c.callee with
  | .native _ | .api .gettop => false
  | _ => true

/-- A plain call of the API. -/
def Call.isApi (c : Call) : Bool :=
  match c.callee with
  | .api .gettop => false
  | .api _ => true
  | _ => false

theorem Call.isPlain_of_isApi {c : Call} (h : c.isApi = true) : c.isPlain = true := by
  unfold Call.isApi at h
  unfold Call.isPlain
  split at h <;> simp_all

theorem Call.not_native_of_isPlain {c : Call} (h : c.isPlain = true) : c.isNative = false := by
  unfold Call.isPlain at h
  unfold Call.isNative
  split at h <;> simp_all

theorem Api.on_isApi {f : Api} (hf : f ≠ .gettop) (args : List Arg) : (f.on args).isApi = true := by
  cases f <;> first | rfl | exact absurd rfl hf

/-- The calls in an expression. -/
def Expr.calls : Expr → List Call
  | .call c => [c]
  | .cast _ e | .target e => e.calls
  | .choose c yes no => c.calls ++ (yes.calls ++ no.calls)
  | .value _ | .address _ | .entry .. | .text _ => []

/-- The calls in a line. -/
def Line.calls : Line → List Call
  | .call c | .discard c => [c]
  | .assign _ e | .declare _ e | .ret e => e.calls
  | .onlyIf c l => c.calls ++ l.calls
  | .unused _ | .retVoid | .disown _ | .prototype .. | .functionType .. | .item _
  | .registration .. | .placeholder _ | .directive _ | .blank | .text _ => []

namespace Code

theorem ofLines_append (ls ls' : List Line) : ofLines (ls ++ ls') = ofLines ls ++ ofLines ls' := by
  induction ls with
  | nil => rfl
  | cons l rest ih => simp [ofLines, ih]

/-- The calls in code. -/
def calls : Code → List Call
  | done => []
  | line l next => l.calls ++ next.calls
  | block _ body _ next => body.calls ++ next.calls
  | branch c yes no next => c.calls ++ (yes.calls ++ (no.calls ++ next.calls))

@[simp] theorem calls_append (a b : Code) : (a ++ b).calls = a.calls ++ b.calls := by
  induction a with
  | done => rfl
  | line l next ih => simp [calls, ih]
  | block head body ending next _ ih => simp [calls, ih]
  | branch c yes no next _ _ ih => simp [calls, ih]

@[simp] theorem calls_ofLines (ls : List Line) : (ofLines ls).calls = ls.flatMap Line.calls := by
  induction ls with
  | nil => rfl
  | cons l rest ih => simp [ofLines, calls, ih]

/-- Every call in the code satisfies `P`. -/
def All (P : Call → Prop) (code : Code) : Prop := ∀ c ∈ code.calls, P c

namespace All

variable {P Q : Call → Prop} {code next a b yes no : Code}

theorem mono (h : code.All P) (hPQ : ∀ c, P c → Q c) : code.All Q := fun c hc => hPQ c (h c hc)

theorem done : Code.done.All P := fun _ hc => absurd hc List.not_mem_nil

theorem line {l : Line} (hl : ∀ c ∈ l.calls, P c) (hn : next.All P) : (Code.line l next).All P :=
  fun c hc => (List.mem_append.mp hc).elim (hl c) (hn c)

theorem ofLines {ls : List Line} (hls : ∀ l ∈ ls, ∀ c ∈ l.calls, P c) : (Code.ofLines ls).All P := by
  intro c hc
  rw [calls_ofLines] at hc
  obtain ⟨l, hl, hcl⟩ := List.mem_flatMap.mp hc
  exact hls l hl c hcl

theorem append (ha : a.All P) (hb : b.All P) : (a ++ b).All P := by
  intro c hc
  rw [calls_append] at hc
  exact (List.mem_append.mp hc).elim (ha c) (hb c)

theorem block {head : Head} {ending : Ending} (hb : a.All P) (hn : next.All P) :
    (Code.block head a ending next).All P :=
  fun c hc => (List.mem_append.mp hc).elim (hb c) (hn c)

theorem branch {c : Cond} (hc : ∀ call ∈ c.calls, P call) (hy : yes.All P) (ho : no.All P)
    (hn : next.All P) : (Code.branch c yes no next).All P := by
  intro call hcall
  rcases List.mem_append.mp hcall with hm | hm
  · exact hc call hm
  · rcases List.mem_append.mp hm with hm | hm
    · exact hy call hm
    · exact (List.mem_append.mp hm).elim (ho call) (hn call)

/-- A property that no call in the code has picks nothing out of it. -/
theorem filter_eq_nil {p : Call → Bool} (h : code.All fun c => p c = false) :
    code.calls.filter p = [] :=
  List.filter_eq_nil_iff.mpr fun c hc => by rw [h c hc]; simp

end All

end Code

/-! ## Runs make the calls of the text -/

theorem Expr.mem_calls_of_way {e : Expr} :
    ∀ {calls : List Call} {c : Call}, calls ∈ e.ways → c ∈ calls → c ∈ e.calls := by
  induction e with
  | call call =>
    intro calls c hw hc
    obtain rfl := List.mem_singleton.mp hw
    exact hc
  | cast _ e ih | target e ih => exact ih
  | choose cond yes no ihy ihn =>
    intro calls c hw hc
    obtain ⟨arm, harm, rfl⟩ := List.mem_map.mp hw
    rcases List.mem_append.mp hc with hc | hc
    · exact List.mem_append_left _ hc
    · refine List.mem_append_right _ ?_
      rcases List.mem_append.mp harm with harm | harm
      · exact List.mem_append_left _ (ihy harm hc)
      · exact List.mem_append_right _ (ihn harm hc)
  | value _ | address _ | entry _ _ | text _ =>
    intro calls c hw hc
    obtain rfl := List.mem_singleton.mp hw
    cases hc

theorem Run.mem_andThen {r r' : Run} {c : Call} (h : c ∈ (r.andThen r').calls) :
    c ∈ r.calls ∨ c ∈ r'.calls := by
  cases hl : r.left with
  | true =>
    rw [Run.andThen_of_left hl] at h
    exact .inl h
  | false =>
    rw [Run.andThen_of_through hl] at h
    exact List.mem_append.mp h

theorem Line.mem_calls_of_run {l : Line} :
    ∀ {r : Run} {c : Call}, r ∈ l.runs → c ∈ r.calls → c ∈ l.calls := by
  induction l with
  | call call | discard call =>
    intro r c hr hc
    obtain rfl := List.mem_singleton.mp hr
    exact hc
  | assign _ e | declare _ e | ret e =>
    intro r c hr hc
    obtain ⟨calls, hw, rfl⟩ := List.mem_map.mp hr
    exact Expr.mem_calls_of_way hw hc
  | onlyIf cond l ih =>
    intro r c hr hc
    rcases List.mem_cons.mp hr with rfl | hr
    · exact List.mem_append_left _ hc
    · obtain ⟨r', hr', rfl⟩ := List.mem_map.mp hr
      rcases Run.mem_andThen hc with hc | hc
      · exact List.mem_append_left _ hc
      · exact List.mem_append_right _ (ih hr' hc)
  | _ =>
    intro r c hr hc
    obtain rfl := List.mem_singleton.mp hr
    cases hc

/-- A run makes no call that does not stand in the text. -/
theorem Code.Runs.mem_calls {code : Code} {r : Run} (h : code.Runs r) :
    ∀ {c : Call}, c ∈ r.calls → c ∈ code.calls := by
  induction h with
  | done => exact id
  | line hl _ ih =>
    intro c hc
    rcases Run.mem_andThen hc with hc | hc
    · exact List.mem_append_left _ (Line.mem_calls_of_run hl hc)
    · exact List.mem_append_right _ (ih hc)
  | block _ _ _ ihb ih =>
    intro c hc
    rcases Run.mem_andThen hc with hc | hc
    · exact List.mem_append_left _ (ihb hc)
    · exact List.mem_append_right _ (ih hc)
  | loopEnds _ _ ih => exact fun hc => List.mem_append_right _ (ih hc)
  | loopAgain _ _ _ ihb ih =>
    intro c hc
    rcases Run.mem_andThen hc with hc | hc
    · exact List.mem_append_left _ (ihb hc)
    · exact ih hc
  | yes _ _ ihy ih | no _ _ ihy ih =>
    intro c hc
    simp only [Code.calls, List.mem_append]
    rcases Run.mem_andThen hc with hc | hc
    · exact .inl hc
    · rcases Run.mem_andThen hc with hc | hc
      · simp [ihy hc]
      · simp [ih hc]

end LuaGlue
