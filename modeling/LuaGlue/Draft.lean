import LuaGlue.Classifier
import LuaGlue.Code.Event
import LuaGlue.Fault

/-!
# Writing code that may break off

`Draft α` is a step of generation: it writes code, may give names to temporaries, may ask for the
category of a spelling, and yields a value or breaks off with a fault. What it carries along from
step to step (`Scratch`) is the classifier's memo and the number of temporaries named so far, and
both stay as they are when a step breaks off.

A step that succeeds has written `Code`, whose blocks are all closed. A step that breaks off has
written a list of events, which leaves open the blocks it was in. What a step writes never depends
on what was written before it; this is why `Outcome` holds only the step's own code, and `bind`
puts the pieces together.
-/

set_option autoImplicit false

namespace LuaGlue

/-- What generation carries along. -/
structure Scratch where
  memo : Memo := {}
  temporaries : Nat := 0

/-- What a step of generation came to. -/
inductive Outcome (α : Type) where
  | written (value : α) (code : Code)
  | torn (fault : Fault) (events : List Event)

namespace Outcome

variable {α β : Type}

/-- The outcome with code written before it. -/
def after (code : Code) : Outcome α → Outcome α
  | written value code' => written value (code ++ code')
  | torn fault events => torn fault (code.events ++ events)

/-- The events that write the outcome down. -/
def events : Outcome α → List Event
  | written _ code => code.events
  | torn _ events => events

/-- The fault, if the step broke off. -/
def fault? : Outcome α → Option Fault
  | written _ _ => none
  | torn fault _ => some fault

/-- The value and the code, or the fault. -/
def toExcept : Outcome α → Except Fault (α × Code)
  | written value code => .ok (value, code)
  | torn fault _ => .error fault

end Outcome

/-- A step of generation. -/
def Draft (α : Type) : Type := Scratch → Outcome α × Scratch

namespace Draft

variable {α β : Type}

/-- Runs a step. -/
def run (m : Draft α) (s : Scratch) : Outcome α × Scratch := m s

protected def pure (value : α) : Draft α := fun s => (.written value .done, s)

protected def bind (m : Draft α) (f : α → Draft β) : Draft β := fun s =>
  match m s with
  | (.written value code, s') =>
    let (o, s'') := f value s'
    (o.after code, s'')
  | (.torn fault events, s') => (.torn fault events, s')

instance : Monad Draft where
  pure := Draft.pure
  bind := Draft.bind

/-- Breaks off. -/
def fail (fault : Fault) : Draft α := fun s => (.torn fault [], s)

/-- Yields the value, or breaks off. -/
def ofExcept : Except Fault α → Draft α
  | .ok value => pure value
  | .error fault => fail fault

/-- Writes a line. -/
def line (l : Line) : Draft Unit := fun s => (.written () (.line l .done), s)

/-- Writes lines in a row. -/
def lines (ls : List Line) : Draft Unit := fun s => (.written () (Code.ofLines ls), s)

/-- Writes finished code. -/
def write (code : Code) : Draft Unit := fun s => (.written () code, s)

/-- Names a temporary. -/
def temp : Draft String := fun s =>
  (.written ("_tmp" ++ toString s.temporaries) .done, { s with temporaries := s.temporaries + 1 })

/-- Puts a question to the classifier. -/
def asking (q : Classifying α) : Draft α := fun s =>
  let (value, memo) := q.run s.memo
  (.written value .done, { s with memo := memo })

/-- Writes a block; the step writes what is inside. -/
def blockEnding (head : Head) (ending : Ending) (m : Draft α) : Draft α := fun s =>
  match m s with
  | (.written value code, s') => (.written value (.block head code ending .done), s')
  | (.torn fault events, s') => (.torn fault (.opening head.render :: events), s')

/-- Writes a block that ends with its brace. -/
def block (head : Head) (m : Draft α) : Draft α := blockEnding head .brace m

/-- Writes a branch; `otherwise` is the code of the `else`, or nothing. -/
def branch (c : Cond) (m : Draft α) (otherwise : Code := .done) : Draft α := fun s =>
  match m s with
  | (.written value code, s') => (.written value (.branch c code otherwise .done), s')
  | (.torn fault events, s') => (.torn fault (.opening (branchHead c) :: events), s')

/-- Writes an `else if` after a finished branch; the step writes what is inside. -/
def orElseIf (c : Cond) (yes : Code) (c' : Cond) (m : Draft α) : Draft α := fun s =>
  match m s with
  | (.written value code, s') =>
    (.written value (.branch c yes (.branch c' code .done .done) .done), s')
  | (.torn fault events, s') =>
    (.torn fault
      (.opening (branchHead c) :: (yes.events ++ .reopening ("else " ++ branchHead c') :: events)),
     s')

/-- Writes a branch only on a condition known beforehand; the step writes what is inside, or writes
it in place. -/
def branchWhen (wanted : Bool) (c : Cond) (m : Draft α) : Draft α := if wanted then branch c m else m

end Draft

end LuaGlue
