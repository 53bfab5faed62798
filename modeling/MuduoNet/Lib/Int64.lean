import Mathlib.Algebra.Group.Int.Defs
import Mathlib.Algebra.Group.Nat.Defs
import Mathlib.Order.Defs.LinearOrder

/-!
# Signed 64-bit numbers

`Int64` wraps as the machine does. Here are its order, its readings as an unsigned number,
and the midpoint of two numbers, whose distance need not fit the signed type.
-/
namespace MuduoNet.Lib.Int64

instance linearOrder : LinearOrder Int64 where
  le_refl := Int64.le_refl
  le_trans _ _ _ := Int64.le_trans
  le_antisymm _ _ := Int64.le_antisymm
  le_total := Int64.le_total
  lt_iff_le_not_ge _ _ := by
    rw [Int64.not_le, Int64.lt_iff_le_and_ne]
    grind
  toDecidableLE := inferInstance
  toDecidableLT := inferInstance
  toDecidableEq := inferInstance

theorem bmod_emod (x : Int) : x.bmod (2 ^ 64) % 2 ^ 64 = x % 2 ^ 64 := Int.bmod_emod

theorem toInt_toInt64 (u : UInt64) : u.toInt64.toInt = (u.toNat : Int).bmod (2 ^ 64) :=
  BitVec.toInt_eq_toNat_bmod u.toBitVec

theorem toNat_toUInt64 (x : Int64) : (x.toUInt64.toNat : Int) = x.toInt % 2 ^ 64 := by
  have hbits : x.toInt = (x.toUInt64.toNat : Int).bmod (2 ^ 64) :=
    BitVec.toInt_eq_toNat_bmod x.toBitVec
  have hlt := x.toUInt64.toNat_lt
  rw [hbits, bmod_emod]
  omega

theorem toNatClampNeg_pos {x : Int64} : 0 < x.toNatClampNeg ↔ 0 < x := by
  rw [Int64.lt_iff_toInt_lt, Int64.toInt_zero, ← Int64.toNat_toInt]
  omega

/-- Between two ordered numbers the unsigned distance is the true one. -/
theorem toNat_sub {a b : Int64} (h : a ≤ b) :
    ((b - a).toUInt64.toNat : Int) = b.toInt - a.toInt := by
  have hle := Int64.le_iff_toInt_le.mp h
  have ha := a.le_toInt
  have hb := b.toInt_lt
  rw [toNat_toUInt64, Int64.toInt_sub, bmod_emod]
  omega

/-- The number halfway from `a` up to `b`. -/
def midpoint (a b : Int64) : Int64 := a + ((b - a).toUInt64 / 2).toInt64

theorem toInt_midpoint {a b : Int64} (h : a ≤ b) :
    (midpoint a b).toInt = a.toInt + (b.toInt - a.toInt) / 2 := by
  have hle := Int64.le_iff_toInt_le.mp h
  have ha := a.le_toInt
  have hb := b.toInt_lt
  have hsub := toNat_sub h
  have hdiv : (((b - a).toUInt64 / 2).toNat : Int) = (b.toInt - a.toInt) / 2 := by
    rw [UInt64.toNat_div, ← hsub]
    rfl
  have hhalf : ((b.toInt - a.toInt) / 2).bmod (2 ^ 64) = (b.toInt - a.toInt) / 2 := by
    apply Int.bmod_eq_of_le <;> omega
  rw [midpoint, Int64.toInt_add, toInt_toInt64, hdiv, hhalf]
  apply Int.bmod_eq_of_le <;> omega

theorem le_midpoint {a b : Int64} (h : a ≤ b) : a ≤ midpoint a b := by
  have hle := Int64.le_iff_toInt_le.mp h
  rw [Int64.le_iff_toInt_le, toInt_midpoint h]
  omega

theorem midpoint_le {a b : Int64} (h : a ≤ b) : midpoint a b ≤ b := by
  have hle := Int64.le_iff_toInt_le.mp h
  rw [Int64.le_iff_toInt_le, toInt_midpoint h]
  omega

/-- Below the largest number adding one does not wrap. -/
theorem toInt_succ {a : Int64} (h : a < Int64.maxValue) : (a + 1).toInt = a.toInt + 1 := by
  have hlt := Int64.lt_iff_toInt_lt.mp h
  have ha := a.le_toInt
  rw [Int64.toInt_maxValue] at hlt
  rw [Int64.toInt_add, Int64.toInt_one]
  apply Int.bmod_eq_of_le <;> omega

/-- Between `a + 1` and `a` lies half a turn of the machine word, and so does the midpoint. -/
theorem midpoint_succ (a : Int64) : midpoint (a + 1) a = a + Int64.minValue := by
  have hsub : a - (a + 1) = -1 := by grind
  have hhalf : ((-1 : Int64).toUInt64 / 2).toInt64 = Int64.maxValue := by decide
  have hturn : (1 : Int64) + Int64.maxValue = Int64.minValue := by decide
  rw [midpoint, hsub, hhalf, Int64.add_assoc, hturn]

theorem midpoint_succ_outside {a : Int64} (h : a < Int64.maxValue) :
    ¬ (a + 1 ≤ midpoint (a + 1) a ∧ midpoint (a + 1) a ≤ a) := by
  have hlt := Int64.lt_iff_toInt_lt.mp h
  rw [Int64.toInt_maxValue] at hlt
  have ha := a.le_toInt
  rw [midpoint_succ, Int64.le_iff_toInt_le, Int64.le_iff_toInt_le, toInt_succ h, Int64.toInt_add,
    Int64.toInt_minValue]
  rcases Int.lt_or_le a.toInt 0 with hneg | hpos
  · have hsum : (a.toInt + -2 ^ 63).bmod (2 ^ 64) = a.toInt + 2 ^ 63 := by
      rw [← Int.add_bmod_right, Int.bmod_eq_of_le] <;> omega
    omega
  · have hsum : (a.toInt + -2 ^ 63).bmod (2 ^ 64) = a.toInt - 2 ^ 63 := by
      apply Int.bmod_eq_of_le <;> omega
    omega

end MuduoNet.Lib.Int64
