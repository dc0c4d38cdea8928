import LuaGlue.Text.CaseTable

/-!
# Letter case

Whether a letter is a capital or a small one, and its other form, for all scripts. A form may be
several letters (`ß` has the capital form `SS`), so forms are lists.

Names of C things are ASCII nearly always, and for ASCII every function below is core's function on
characters; the tables begin at U+0080.
-/

set_option autoImplicit false

namespace LuaGlue.Text

/-- Whether `n` is one of `first, first + step, …, last`. -/
def inRun (n : Nat) (run : Nat × Nat × Nat) : Bool :=
  run.1 ≤ n && n ≤ run.2.1 && (n - run.1) % run.2.2 == 0

/-- A capital letter. -/
def isCapital (c : Char) : Bool :=
  if c.toNat < 0x80 then c.isUpper else capitalRuns.any (inRun c.toNat)

/-- A small letter. -/
def isSmall (c : Char) : Bool :=
  if c.toNat < 0x80 then c.isLower else smallRuns.any (inRun c.toNat)

/-- The other form of a letter beyond ASCII: spelled out, or at a distance, or the letter itself. -/
def otherForm (spellings : List (Nat × List Nat)) (shifts : List (Nat × Nat × Nat × Int))
    (c : Char) : List Char :=
  match spellings.lookup c.toNat with
  | some letters => letters.map Char.ofNat
  | none =>
    match shifts.find? fun (first, last, step, _) => inRun c.toNat (first, last, step) with
    | some (_, _, _, distance) => [Char.ofNat (c.toNat + distance).toNat]
    | none => [c]

/-- The small form of a letter; other characters stay. -/
def small (c : Char) : List Char :=
  if c.toNat < 0x80 then [c.toLower] else otherForm smallSpellings smallShifts c

/-- The capital form of a letter; other characters stay. -/
def capital (c : Char) : List Char :=
  if c.toNat < 0x80 then [c.toUpper] else otherForm capitalSpellings capitalShifts c

/-- The text with its ASCII letters as capitals; letters of other scripts stay as they are. -/
def asciiCapitals (cs : List Char) : List Char := cs.map Char.toUpper

end LuaGlue.Text
