import LuaGlue.Code.Basic

/-!
# Laying code out

Code is written down as a sequence of events — a line, the opening of a block, its end — and the
text of an event depends only on how many blocks are open. `Page` is the text so far together with
that number; it takes one event at a time.

Events exist beside `Code` because generation may break off in the middle: what was written until
then is a sequence of events that leaves blocks open, and no `Code`. The events of a `Code` close
what they open.
-/

set_option autoImplicit false

namespace LuaGlue

inductive Event where
  | line (l : Line)
  /-- A block is opened under a head. -/
  | opening (head : String)
  /-- The innermost block is closed and another one opened on the same line. -/
  | reopening (head : String)
  | closing (ending : Ending)
  deriving DecidableEq, Repr

/-- The head of a branch. -/
def branchHead (c : Cond) : String := "if (" ++ c.render ++ ")"

namespace Code

mutual

/-- The events that write code down. -/
def events : Code → List Event
  | done => []
  | line l next => .line l :: next.events
  | block head body ending next =>
    .opening head.render :: (body.events ++ .closing ending :: next.events)
  | branch c yes no next =>
    .opening (branchHead c) :: (yes.events ++ no.elseEvents ++ .closing .brace :: next.events)

/-- The events that write down the code of an `else`, from the end of the branch before it: code
that is nothing but another branch becomes an `else if`. -/
def elseEvents : Code → List Event
  | done => []
  | branch c yes no done => .reopening ("else " ++ branchHead c) :: (yes.events ++ no.elseEvents)
  | line l next => .reopening "else" :: .line l :: next.events
  | block head body ending next =>
    .reopening "else" :: .opening head.render :: (body.events ++ .closing ending :: next.events)
  | branch c yes no next =>
    .reopening "else" :: .opening (branchHead c) ::
      (yes.events ++ no.elseEvents ++ .closing .brace :: next.events)

end

/-- How many gaps the code marks. -/
def placeholders : Code → Nat
  | done => 0
  | line (.placeholder _) next => next.placeholders + 1
  | line _ next => next.placeholders
  | block _ body _ next => body.placeholders + next.placeholders
  | branch _ yes no next => yes.placeholders + no.placeholders + next.placeholders

end Code

/-! ## Pages -/

/-- Text so far. -/
structure Page where
  /-- How many blocks are open. -/
  level : Nat := 0
  text : String := ""
  /-- How many gaps were marked. -/
  placeholders : Nat := 0
  deriving DecidableEq, Repr

namespace Page

def indentation (level : Nat) : String := String.join (List.replicate level "    ")

def indent (p : Page) : Page := { p with level := p.level + 1 }

def dedent (p : Page) : Page := { p with level := p.level - 1 }

/-- A line in column zero. -/
def flush (p : Page) (s : String) : Page := { p with text := p.text ++ s ++ "\n" }

/-- A line at the current indentation. -/
def write (p : Page) (s : String) : Page :=
  { p with text := p.text ++ indentation p.level ++ s ++ "\n" }

/-- Opens a block under a head, which may be empty. -/
def openBlock (p : Page) (head : String) : Page :=
  (p.write (if head.isEmpty then "\x7b" else head ++ " \x7b")).indent

/-- Closes the innermost block and opens another one on the same line. -/
def reopenBlock (p : Page) (head : String) : Page :=
  (p.dedent.write ("\x7d " ++ head ++ " \x7b")).indent

def closeBlock (p : Page) (ending : Ending) : Page := p.dedent.write ending.render

/-- A gap for a value that cannot cross the boundary. -/
def mark (p : Page) (what : String) : Page :=
  let q := p.write (Line.placeholder what).render
  { q with placeholders := q.placeholders + 1 }

/-- A line of code; directives and blank lines are not indented. -/
def putLine (p : Page) : Line → Page
  | .directive s => p.flush s
  | .blank => p.flush ""
  | .placeholder what => p.mark what
  | l => p.write l.render

def put (p : Page) : Event → Page
  | .line l => p.putLine l
  | .opening head => p.openBlock head
  | .reopening head => p.reopenBlock head
  | .closing ending => p.closeBlock ending

def putAll (p : Page) (events : List Event) : Page := events.foldl put p

/-- Text laid out elsewhere, with the gaps it marks. -/
def append (p q : Page) : Page :=
  { p with text := p.text ++ q.text, placeholders := p.placeholders + q.placeholders }

/-- The page without its text. -/
def taken (p : Page) : Page := { p with text := "" }

end Page

/-- The text of code that stands by itself. -/
def Code.text (c : Code) : String := ((({} : Page).putAll c.events)).text

/-- The banner comment that introduces a section. -/
def banner (title : String) : List Line :=
  let rule := "/* ========================================================================== */"
  [.text rule, .text ("/* " ++ title ++ " */"), .text rule, .blank]

end LuaGlue
