/-!
# White space

The 25 code points of the property `White_Space`, and the three things done with them: cutting
them off the ends of a text, and cutting a text into words. The set is larger than ASCII's
(U+00A0 and U+3000 belong to it, U+200B does not), which is why core's `Char.isWhitespace` does
not serve here; `isBlank_of_isWhitespace` says that it is contained in ours.

Everything works on `List Char`, where a text is data one can recurse on. `trimEnd` is written as
a recursion from the left — a character stays if it is not blank *or* something after it stays —
so that no proof has to reverse a list.
-/

set_option autoImplicit false

namespace LuaGlue.Text

/-- White space in the sense of Unicode. -/
def isBlank (c : Char) : Bool :=
  let n := c.toNat
  (9 ≤ n && n ≤ 13) || n == 0x20 || n == 0x85 || n == 0xA0 || n == 0x1680 ||
    (0x2000 ≤ n && n ≤ 0x200A) || n == 0x2028 || n == 0x2029 || n == 0x202F || n == 0x205F ||
    n == 0x3000

/-- The text without the longest end whose characters all satisfy `p`. -/
def dropEndWhile (p : Char → Bool) : List Char → List Char
  | [] => []
  | c :: rest =>
    match dropEndWhile p rest with
    | [] => if p c then [] else [c]
    | kept => c :: kept

/-- The text without white space at its end. -/
def trimEnd (cs : List Char) : List Char := dropEndWhile isBlank cs

/-- The text without white space at either end. -/
def trim (cs : List Char) : List Char := trimEnd (cs.dropWhile isBlank)

/-- A string without white space at either end. -/
def trimmed (s : String) : String := String.ofList (trim s.toList)

/-- A name that holds nothing to call a thing by: empty, or white space only. -/
def isBlankText (s : String) : Bool := s.toList.all isBlank

/-- Collects the word in progress (`word`, back to front) and the words after it. -/
def wordsFrom (word : List Char) : List Char → List (List Char)
  | [] => if word.isEmpty then [] else [word.reverse]
  | c :: rest =>
    if isBlank c then
      if word.isEmpty then wordsFrom [] rest else word.reverse :: wordsFrom [] rest
    else wordsFrom (c :: word) rest

/-- The maximal runs of characters that are not white space. -/
def words (cs : List Char) : List (List Char) := wordsFrom [] cs

theorem isBlank_of_isWhitespace {c : Char} (h : c.isWhitespace = true) : isBlank c = true := by
  simp only [Char.isWhitespace, Bool.or_eq_true, decide_eq_true_eq] at h
  rcases h with ((rfl | rfl) | rfl) | rfl <;> decide

end LuaGlue.Text
