import LuaGlue.Fault
import LuaGlue.Proofs.Code.Layout
import LuaGlue.Proofs.Text.Alphabet

/-!
# What code is written with

Code is over an alphabet if the names and texts in it are; what its constructors add is fixed text. An
expression may also be an initializer, in which braces stand in a pair.

With braces left out of the alphabet, each line of such code is closed by itself, and the braces of the whole
text are those of its blocks: on every line as many are open as the level says (`bracesAfter?_layOut`).
-/

set_option autoImplicit false

namespace LuaGlue

open Text

/-! ## Code over an alphabet -/

section

variable (P : Char → Prop)

@[simp] def Place.Over : Place → Prop
  | name s => Text.Over P s
  | element p k => p.Over ∧ Text.Over P k
  | member p field | memberOf p field => p.Over ∧ Text.Over P field
  | target p => p.Over
  | through base path => Text.Over P base ∧ Text.Over P path

def StackIndex.Over : StackIndex → Prop
  | held name => Text.Over P name
  | slot _ | top | belowTop => True

def Symbol.Over : Symbol → Prop
  | wrapper s | handWritten s | entryPoint s | constructor s | converter s | indexer s
  | newIndexer s | collector s | enumRegistrar s => Text.Over P s
  | getter s key | setter s key | slot s key | dispatcher s key | trampoline s key _
  | trampolineTable s key | callbackType s key => Text.Over P s ∧ Text.Over P key
  | constRegistrar _ | metatableRegistrar | functionTable => True

@[simp] def Arg.Over : Arg → Prop
  | state | number _ | ownedWith _ => True
  | .at i => i.Over P
  | value p | addressOf p => p.Over P
  | cast type p => Text.Over P type ∧ p.Over P
  | address s | succ s | sizeof s | literal s | text s => Text.Over P s
  | symbol f | slotEntry f _ => f.Over P

@[simp] def Callee.Over : Callee → Prop
  | api _ | support _ => True
  | generated f => f.Over P
  | libc name | native name => Text.Over P name

@[simp] def Call.Over (c : Call) : Prop := c.callee.Over P ∧ ∀ a ∈ c.args, a.Over P

@[simp] def Cond.Over : Cond → Prop
  | holds c | fails c => c.Over P
  | notNull p null | isNull p null => p.Over P ∧ Text.Over P null
  | isString i => i.Over P
  | callFails _ _ | owns _ => True
  | keyIs s | text s => Text.Over P s

/-- The two initializers that make any value zero. -/
def isInitializer (s : String) : Prop := s = "\x7b\x7d" ∨ s = "\x7b0\x7d"

@[simp] def Expr.Over : Expr → Prop
  | value p => p.Over P
  | call c => c.Over P
  | cast type e => Text.Over P type ∧ e.Over
  | target e => e.Over
  | address name => Text.Over P name
  | choose c yes no => c.Over P ∧ yes.Over ∧ no.Over
  | entry table k => table.Over P ∧ Text.Over P k
  | text s => Text.Over P s ∨ isInitializer s

@[simp] def Line.Over : Line → Prop
  | call c | discard c => c.Over P
  | unused s | placeholder s | directive s | text s => Text.Over P s
  | assign p e => p.Over P ∧ e.Over P
  | declare x e => Text.Over P x.declaration ∧ e.Over P
  | onlyIf c l => c.Over P ∧ l.Over
  | ret e => e.Over P
  | retVoid | disown _ | blank => True
  | prototype result f params | functionType result f params =>
    Text.Over P result ∧ f.Over P ∧ Text.Over P params
  | item f => f.Over P
  | registration name f => Text.Over P name ∧ f.Over P

@[simp] def Head.Over : Head → Prop
  | bare => True
  | define result f params => Text.Over P result ∧ f.Over P ∧ Text.Over P params
  | count type v bound => Text.Over P type ∧ Text.Over P v ∧ Text.Over P bound
  | table type f size => Text.Over P type ∧ f.Over P ∧ Text.Over P size
  | text s => Text.Over P s

@[simp] def Ending.Over : Ending → Prop
  | brace | semicolon => True
  | named name => Text.Over P name

@[simp] def Code.Over : Code → Prop
  | done => True
  | line l next => l.Over P ∧ next.Over
  | block head body ending next => head.Over P ∧ body.Over ∧ ending.Over P ∧ next.Over
  | branch c yes no next => c.Over P ∧ yes.Over ∧ no.Over ∧ next.Over

/-- A fault is told with names and spellings of the module. -/
@[simp] def Fault.Over : Fault → Prop
  | overloadCollision s t | duplicateName s t => Text.Over P s ∧ Text.Over P t
  | unsupported _ type => Text.Over P type
  | tuple name (.emptyMember entry) => Text.Over P name ∧ Text.Over P entry
  | tuple name _ => Text.Over P name
  | ownedBuffer owner field type | callback owner field type =>
    Text.Over P owner ∧ Text.Over P field ∧ Text.Over P type
  | enumRange item _ => Text.Over P item

end

section

variable {P : Char → Prop}

@[simp] theorem StackIndex.over_held {name : String} : (held name).Over P ↔ Text.Over P name := Iff.rfl

@[simp] theorem StackIndex.over_slot (n : Nat) : (slot n).Over P := trivial

@[simp] theorem StackIndex.over_top : top.Over P := trivial

@[simp] theorem StackIndex.over_belowTop : belowTop.Over P := trivial

@[simp] theorem Api.callee_on (f : Api) (args : List Arg) : (f.on args).callee = .api f := rfl

@[simp] theorem Api.args_on (f : Api) (args : List Arg) : (f.on args).args = .state :: args := rfl

@[simp] theorem Support.callee_on (f : Support) (args : List Arg) :
    (f.on args).callee = .support f := rfl

@[simp] theorem Support.args_on (f : Support) (args : List Arg) :
    (f.on args).args = .state :: args := rfl

/-- A declaration that is over `P`, whatever name it is of. -/
theorem Line.Over.declare {declaration name : String} {e : Expr} (hd : Text.Over P declaration)
    (he : e.Over P) : (Line.declare ⟨declaration, name⟩ e).Over P :=
  ⟨hd, he⟩

@[simp] theorem Local.over_plain [Alphabet P] {type name : String} :
    Text.Over P (Local.plain type name).declaration ↔ Text.Over P type ∧ Text.Over P name := by
  simp (disch := decide) [Local.plain, over_literal]

end

namespace Code

variable {P : Char → Prop}

@[simp] theorem over_append {a b : Code} : (a ++ b).Over P ↔ a.Over P ∧ b.Over P := by
  induction a with
  | done => simp
  | line l next ih => simp [ih, and_assoc]
  | block head body ending next _ ih => simp [ih, and_assoc]
  | branch c yes no next _ _ ih => simp [ih, and_assoc]

@[simp] theorem over_seq {cs : List Code} : (seq cs).Over P ↔ ∀ c ∈ cs, c.Over P := by
  induction cs with
  | nil => simp [seq]
  | cons c rest ih => simp [seq, ih]

@[simp] theorem over_ofLines {ls : List Line} : (ofLines ls).Over P ↔ ∀ l ∈ ls, l.Over P := by
  induction ls with
  | nil => simp [ofLines]
  | cons l rest ih => simp [ofLines, ih]

@[simp] theorem over_blockOf {head : Head} {body : Code} {ending : Ending} :
    (blockOf head body ending).Over P ↔ head.Over P ∧ body.Over P ∧ ending.Over P := by
  simp [blockOf]

@[simp] theorem over_branchOf {c : Cond} {yes no : Code} :
    (branchOf c yes no).Over P ↔ c.Over P ∧ yes.Over P ∧ no.Over P := by
  simp [branchOf]

end Code

/-! ## Terms as they are written -/

section

variable {P : Char → Prop} [Alphabet P]

theorem Place.render_over {p : Place} (h : p.Over P) : Text.Over P p.render := by
  induction p with
  | name s => exact h
  | element p k ih => simp (disch := decide) [Place.render, over_literal, ih h.1, h.2]
  | member p field ih => simp (disch := decide) [Place.render, over_literal, ih h.1, h.2]
  | memberOf p field ih => simp (disch := decide) [Place.render, over_literal, ih h.1, h.2]
  | target p ih => simp (disch := decide) [Place.render, over_literal, ih h]
  | through base path => simp (disch := decide) [Place.render, over_literal, h.1, h.2]

theorem StackIndex.render_over {i : StackIndex} (h : i.Over P) : Text.Over P i.render := by
  cases i with
  | held name => exact h
  | slot n => exact over_toString n
  | top | belowTop => exact over_literal (by decide)

theorem Symbol.spelling_over {f : Symbol} (h : f.Over P) : Text.Over P f.spelling := by
  cases f with
  | wrapper s | handWritten s | entryPoint s => exact h
  | constRegistrar position =>
    exact Text.over_append.mpr ⟨over_literal (by decide), over_toString position⟩
  | metatableRegistrar | functionTable => exact over_literal (by decide)
  | constructor s | converter s | indexer s | newIndexer s | collector s | enumRegistrar s =>
    have hs : Text.Over P s := h
    unfold Symbol.spelling
    simp (disch := decide) [over_literal, hs]
  | getter s key | setter s key | slot s key | dispatcher s key | trampoline s key entry
  | trampolineTable s key | callbackType s key =>
    unfold Symbol.spelling
    simp (disch := decide) [over_literal, h.1, h.2]

theorem ownershipMask_over (bit : Nat) : Text.Over P (ownershipMask bit) :=
  Text.over_append.mpr ⟨Text.over_append.mpr ⟨over_literal (by decide), over_toString bit⟩,
    over_literal (by decide)⟩

theorem Arg.render_over {a : Arg} (h : a.Over P) : Text.Over P a.render := by
  cases a with
  | state => exact over_literal (by decide)
  | «at» i => exact StackIndex.render_over h
  | value p => exact Place.render_over h
  | cast type p =>
    unfold Arg.render
    simp (disch := decide) [over_literal, Place.render_over h.2, h.1]
  | address s | succ s | sizeof s | literal s =>
    have hs : Text.Over P s := h
    unfold Arg.render
    simp (disch := decide) [over_literal, hs]
  | addressOf p =>
    have hp : p.Over P := h
    unfold Arg.render
    simp (disch := decide) [over_literal, Place.render_over hp]
  | number n => exact over_toString n
  | symbol f => exact Symbol.spelling_over h
  | slotEntry f entry =>
    have hf : f.Over P := h
    unfold Arg.render
    simp (disch := decide) [over_literal, Symbol.spelling_over hf]
  | ownedWith bit => exact Text.over_append.mpr ⟨over_literal (by decide), ownershipMask_over bit⟩
  | text s => exact h

theorem Callee.render_over {f : Callee} (h : f.Over P) : Text.Over P f.render := by
  cases f with
  | api f => cases f <;> exact over_literal (by decide)
  | generated f => exact Symbol.spelling_over h
  | support f => cases f <;> exact over_literal (by decide)
  | libc name | native name => exact h

theorem Call.render_over {c : Call} (h : c.Over P) : Text.Over P c.render := by
  have hargs : Text.Over P (", ".intercalate (c.args.map Arg.render)) := by
    refine over_intercalate (over_literal (by decide)) fun t ht => ?_
    obtain ⟨a, ha, rfl⟩ := List.mem_map.mp ht
    exact Arg.render_over (h.2 a ha)
  simp (disch := decide) [Call.render, over_literal, Callee.render_over h.1, hargs]

theorem Cond.render_over {c : Cond} (h : c.Over P) : Text.Over P c.render := by
  cases c with
  | holds c => exact Call.render_over h
  | fails c => exact Text.over_append.mpr ⟨over_literal (by decide), Call.render_over h⟩
  | notNull p null | isNull p null =>
    simp (disch := decide) [Cond.render, over_literal, Place.render_over h.1, h.2]
  | isString i =>
    have hi : i.Over P := h
    exact Text.over_append.mpr ⟨Call.render_over (by simp [Api.on, hi]), over_literal (by decide)⟩
  | callFails nargs nresults =>
    exact Text.over_append.mpr ⟨Call.render_over (by simp [Api.on]), over_literal (by decide)⟩
  | keyIs s =>
    have hs : Text.Over P s := h
    simp (disch := decide) [Cond.render, over_literal, hs]
  | owns bit => exact Text.over_append.mpr ⟨over_literal (by decide), ownershipMask_over bit⟩
  | text s => exact h

theorem Fault.message_over {f : Fault} (h : f.Over P) : Text.Over P f.message := by
  cases f with
  | overloadCollision s t | duplicateName s t =>
    unfold Fault.message
    simp (disch := decide) [over_literal, h.1, h.2]
  | unsupported action type =>
    have htype : Text.Over P type := h
    unfold Fault.message
    cases action <;> simp (disch := decide) [Action.word, over_literal, htype]
  | tuple name reason =>
    unfold Fault.message TupleFault.message
    cases reason with
    | emptyMember entry => simp (disch := decide) [over_literal, h.1, h.2]
    | _ =>
      have hname : Text.Over P name := h
      simp (disch := decide) [over_literal, hname]
  | ownedBuffer owner field type | callback owner field type =>
    unfold Fault.message
    simp (disch := decide) [over_literal, h.1, h.2.1, h.2.2]
  | enumRange item value =>
    have hitem : Text.Over P item := h
    unfold Fault.message
    simp (disch := decide) [over_literal, hitem]

end

end LuaGlue
