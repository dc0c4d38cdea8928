/-!
# Cutting a text at a mark

Cuts at one character or at a short mark, all by recursion on the text. The parts of a cut joined
by the mark again give the text, so nothing is lost.
-/

set_option autoImplicit false

namespace LuaGlue.Text

/-- The parts between the occurrences of `mark`; one more than there are occurrences. -/
def splitAtChar (mark : Char) : List Char → List (List Char)
  | [] => [[]]
  | c :: rest =>
    if c = mark then [] :: splitAtChar mark rest
    else
      match splitAtChar mark rest with
      | [] => [[c]]
      | part :: parts => (c :: part) :: parts

/-- What stands before and after the first occurrence of `mark`. -/
def cutAtChar? (mark : Char) : List Char → Option (List Char × List Char)
  | [] => none
  | c :: rest =>
    if c = mark then some ([], rest)
    else (cutAtChar? mark rest).map fun (before, after) => (c :: before, after)

/-- What stands before and after the first occurrence of the text `mark`. -/
def cutAt? (mark : List Char) : List Char → Option (List Char × List Char)
  | [] => if mark.isEmpty then some ([], []) else none
  | c :: rest =>
    match mark.isPrefixOf? (c :: rest) with
    | some after => some ([], after)
    | none => (cutAt? mark rest).map fun (before, after) => (c :: before, after)

/-- Whether the text `mark` stands anywhere in `cs`. -/
def holds (mark cs : List Char) : Bool := (cutAt? mark cs).isSome

/-- `stem` taken off the front of `cs`, unless it is not there or is all of `cs`. -/
def dropStem (stem cs : List Char) : List Char :=
  match stem.isPrefixOf? cs with
  | some [] => cs
  | some rest => rest
  | none => cs

/-- `tail` taken off the end of `cs`, if it is there. -/
def dropTail? (tail cs : List Char) : Option (List Char) :=
  (tail.reverse.isPrefixOf? cs.reverse).map List.reverse

end LuaGlue.Text
