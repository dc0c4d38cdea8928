import Mathlib.Data.Int.Bitwise
import LuaGlue.Interface.EnumValue

/-!
# Arithmetic in words of 128 bits

Enumerator values are computed in words, and their meaning is in the integers. The two meet in `wrap`, the
integer that the lowest 128 bits of an integer stand for: each operation on words yields the wrapped result
of the same operation on integers (`wideOr_eq`, `wideShift?_eq`), so that only a result's own size decides
whether it is exact (`wrap_eq_self_iff`), never that of what it was computed from.
-/

set_option autoImplicit false

namespace LuaGlue

open Text

/-- What is left of an integer in a signed word of 128 bits. -/
def wrap (n : Int) : Int := n.bmod (2 ^ 128)

theorem isWide_iff {n : Int} : isWide n = true ↔ -2 ^ 127 ≤ n ∧ n < 2 ^ 127 := by
  have hbound : wideBound = 2 ^ 127 := by decide
  rw [isWide, hbound, Bool.and_eq_true, decide_eq_true_iff, decide_eq_true_iff]

theorem wrap_of_isWide {n : Int} (h : isWide n = true) : wrap n = n := by
  rw [isWide_iff] at h
  exact Int.bmod_eq_of_le (by omega) (by omega)

theorem isWide_wrap (n : Int) : isWide (wrap n) = true := by
  have hle := Int.le_bmod (x := n) (m := 2 ^ 128) (by omega)
  have hlt := Int.bmod_lt (x := n) (m := 2 ^ 128) (by omega)
  rw [isWide_iff, wrap]
  omega

/-- **An integer is kept exactly if it fits.** -/
theorem wrap_eq_self_iff {n : Int} : wrap n = n ↔ isWide n = true :=
  ⟨fun h => h ▸ isWide_wrap n, wrap_of_isWide⟩

theorem ofInt_wrap (n : Int) : BitVec.ofInt 128 (wrap n) = BitVec.ofInt 128 n := by
  rw [wrap, ← BitVec.toInt_ofInt, BitVec.ofInt_toInt]

/-! ## Bits -/

theorem ofNat_ldiff (w m n : Nat) :
    BitVec.ofNat w (m.ldiff n) = BitVec.ofNat w m &&& ~~~BitVec.ofNat w n := by
  apply BitVec.eq_of_getLsbD_eq
  intro i hi
  simp only [BitVec.getLsbD_and, BitVec.getLsbD_not, BitVec.getLsbD_ofNat, Nat.testBit_ldiff, hi,
    decide_true, Bool.true_and]

/-- The bits of a bitwise or, whatever the signs. -/
theorem ofInt_lor (w : Nat) (a b : Int) :
    BitVec.ofInt w (a.lor b) = BitVec.ofInt w a ||| BitVec.ofInt w b := by
  cases a with
  | ofNat m =>
    cases b with
    | ofNat n =>
      change BitVec.ofInt w ((m ||| n : Nat) : Int) = BitVec.ofInt w (m : Int) ||| BitVec.ofInt w (n : Int)
      simp [BitVec.ofInt_natCast, BitVec.ofNat_or]
    | negSucc n =>
      change BitVec.ofInt w (Int.negSucc (n.ldiff m)) =
        BitVec.ofInt w (m : Int) ||| BitVec.ofInt w (Int.negSucc n)
      rw [BitVec.ofInt_natCast, BitVec.ofInt_negSucc_eq_not_ofNat, BitVec.ofInt_negSucc_eq_not_ofNat,
        ofNat_ldiff, BitVec.not_and, BitVec.not_not, BitVec.or_comm]
  | negSucc m =>
    cases b with
    | ofNat n =>
      change BitVec.ofInt w (Int.negSucc (m.ldiff n)) =
        BitVec.ofInt w (Int.negSucc m) ||| BitVec.ofInt w (n : Int)
      rw [BitVec.ofInt_natCast, BitVec.ofInt_negSucc_eq_not_ofNat, BitVec.ofInt_negSucc_eq_not_ofNat,
        ofNat_ldiff, BitVec.not_and, BitVec.not_not]
    | negSucc n =>
      change BitVec.ofInt w (Int.negSucc (m &&& n)) =
        BitVec.ofInt w (Int.negSucc m) ||| BitVec.ofInt w (Int.negSucc n)
      simp only [BitVec.ofInt_negSucc_eq_not_ofNat, BitVec.ofNat_and, BitVec.not_and]

/-- **`|` on words is the integers' bitwise or, wrapped**, of wrapped integers as of the integers
themselves. -/
theorem wideOr_eq (a b : Int) : wideOr (wrap a) (wrap b) = wrap (a.lor b) := by
  rw [wideOr, ofInt_wrap, ofInt_wrap, ← ofInt_lor, BitVec.toInt_ofInt]
  rfl

theorem foldl_wideOr (v : Int) (vs : List Int) :
    (vs.map wrap).foldl wideOr (wrap v) = wrap (vs.foldl Int.lor v) := by
  induction vs generalizing v with
  | nil => rfl
  | cons w vs ih => rw [List.map_cons, List.foldl_cons, List.foldl_cons, wideOr_eq, ih]

/-- **`<<` on words is a multiplication by a power of two, wrapped.** -/
theorem wideShift?_eq {a count : Int} (hlow : 0 ≤ count) (hhigh : count < 128) :
    wideShift? a count = some (wrap (a * 2 ^ count.toNat)) := by
  have hin : (decide (0 ≤ count) && decide (count < 128)) = true := by simp [hlow, hhigh]
  have hpower : BitVec.ofInt 128 (2 ^ count.toNat : Int) = BitVec.twoPow 128 count.toNat := by
    have hcast : (2 ^ count.toNat : Int) = ((2 ^ count.toNat : Nat) : Int) := by push_cast; rfl
    rw [hcast, BitVec.ofInt_natCast]
    apply BitVec.eq_of_toNat_eq
    rw [BitVec.toNat_ofNat, BitVec.toNat_twoPow]
  rw [wideShift?, if_pos hin, BitVec.shiftLeft_eq_mul_twoPow, ← hpower, ← BitVec.ofInt_mul,
    BitVec.toInt_ofInt]
  rfl

theorem wideShift?_eq_none {a count : Int} (h : ¬(0 ≤ count ∧ count < 128)) :
    wideShift? a count = none := by
  have hout : (decide (0 ≤ count) && decide (count < 128)) = false := by
    rw [Bool.eq_false_iff, ne_eq, Bool.and_eq_true, decide_eq_true_eq, decide_eq_true_eq]
    exact h
  rw [wideShift?, hout]
  rfl

end LuaGlue
