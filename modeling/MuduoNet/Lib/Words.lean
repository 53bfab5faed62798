import Mathlib.Data.Int.Bitwise
import Mathlib.Algebra.Order.Ring.Int
import Mathlib.Data.List.Induction
import Mathlib.Tactic.Ring
import Mathlib.Tactic.NormNum

/-!
# Fixed-width integers over `Nat` and `Int`, and big-endian bytes

`wrap w n` is the unsigned value of `n` in `w` bits, `signed w x` the two's complement
one. Values stay ordinary numbers; every operation that may leave the range is wrapped
where it occurs. `toBE` and `ofBE` are the big-endian bytes of a number.
-/
namespace MuduoNet.Lib.Words

def wrap (w n : Nat) : Nat := n % 2 ^ w

/-- Unsigned subtraction in `w` bits. -/
def wsub (w a b : Nat) : Nat := (a + (2 ^ w - b % 2 ^ w)) % 2 ^ w

/-- Two's complement reading of an integer in `w` bits. -/
def signed (w : Nat) (x : Int) : Int := x.bmod (2 ^ w)

/-- Unsigned reading of an integer in `w` bits. -/
def unsigned (w : Nat) (x : Int) : Nat := (x % (2 ^ w : Nat)).toNat

theorem wrap_of_lt {w n : Nat} (h : n < 2 ^ w) : wrap w n = n := Nat.mod_eq_of_lt h

theorem wsub_of_le {w a b : Nat} (hab : b ≤ a) (ha : a < 2 ^ w) : wsub w a b = a - b := by
  unfold wsub
  rw [Nat.mod_eq_of_lt (Nat.lt_of_le_of_lt hab ha)]
  have h : a + (2 ^ w - b) = a - b + 2 ^ w := by omega
  rw [h, Nat.add_mod_right, Nat.mod_eq_of_lt (by omega)]

/-- Below the upper half the signed reading is the number itself. -/
theorem signed_of_lt {w n : Nat} (h : 2 * n < 2 ^ w) : signed w n = n := by
  unfold signed
  rw [Int.bmod_eq_of_le] <;> omega

/-- From the upper half on the signed reading is negative. -/
theorem signed_neg_of_ge {w n : Nat} (hlo : 2 ^ w ≤ 2 * n) (hhi : n < 2 ^ w) :
    signed w n = (n : Int) - (2 ^ w : Nat) := by
  unfold signed
  rw [Int.bmod_def, Int.emod_eq_of_lt (by omega) (by omega), if_neg (by omega)]

theorem unsigned_natCast {w n : Nat} (h : n < 2 ^ w) : unsigned w n = n := by
  unfold unsigned
  rw [Int.emod_eq_of_lt (by omega) (by omega), Int.toNat_natCast]

theorem unsigned_lt (w : Nat) (x : Int) : unsigned w x < 2 ^ w := by
  unfold unsigned
  have hpos : (0 : Int) < (2 ^ w : Nat) := by exact_mod_cast Nat.two_pow_pos w
  have hlt := Int.emod_lt_of_pos x hpos
  omega

/-- The two readings name the same bit pattern. -/
theorem unsigned_signed (w : Nat) (x : Int) : unsigned w (signed w x) = unsigned w x := by
  unfold unsigned signed
  rw [Int.bmod_emod]

theorem signed_unsigned (w : Nat) (x : Int) : signed w (unsigned w x) = signed w x := by
  have hpos : (0 : Int) < (2 ^ w : Nat) := by exact_mod_cast Nat.two_pow_pos w
  unfold signed unsigned
  rw [Int.toNat_of_nonneg (Int.emod_nonneg x (ne_of_gt hpos)), Int.emod_bmod]

/-- Numbers of `w` bits are told apart by their signed readings. -/
theorem signed_inj {w m n : Nat} (hm : m < 2 ^ w) (hn : n < 2 ^ w) :
    signed w m = signed w n ↔ m = n := by
  constructor
  · intro h
    rw [← unsigned_natCast hm, ← unsigned_natCast hn, ← unsigned_signed, h, unsigned_signed]
  · intro h
    rw [h]

-- `2 ^ w` must not be reached by unfolding: the checker would count down from it
attribute [irreducible] wrap wsub signed unsigned

/-- The `k` low bytes of `n`, the most significant first. -/
def toBE : Nat → Nat → List UInt8
  | 0, _ => []
  | k + 1, n => toBE k (n / 256) ++ [UInt8.ofNat n]

def ofBE (bs : List UInt8) : Nat := bs.foldl (fun acc b => acc * 256 + b.toNat) 0

@[simp] theorem length_toBE (k n : Nat) : (toBE k n).length = k := by
  induction k generalizing n with
  | zero => rfl
  | succ k ih => simp [toBE, ih]

@[simp] theorem ofBE_nil : ofBE [] = 0 := rfl

theorem ofBE_concat (bs : List UInt8) (b : UInt8) : ofBE (bs ++ [b]) = ofBE bs * 256 + b.toNat := by
  simp [ofBE]

/-- Reading back the bytes of a number gives the number modulo their width. -/
theorem ofBE_toBE (k n : Nat) : ofBE (toBE k n) = n % 256 ^ k := by
  induction k generalizing n with
  | zero => simp [toBE, Nat.mod_one]
  | succ k ih =>
    have hp : 256 ^ (k + 1) = 256 * 256 ^ k := Nat.pow_succ'
    rw [toBE, ofBE_concat, ih, UInt8.toNat_ofNat', hp, Nat.mod_mul]
    omega

theorem ofBE_lt (bs : List UInt8) : ofBE bs < 256 ^ bs.length := by
  induction bs using List.reverseRecOn with
  | nil => decide
  | append_singleton bs b ih =>
    have hb := b.toNat_lt
    rw [ofBE_concat, List.length_append, List.length_singleton, Nat.pow_succ]
    omega

/-- The bytes are determined by the number and its width. -/
theorem ofBE_inj {bs cs : List UInt8} (hlen : bs.length = cs.length) (h : ofBE bs = ofBE cs) :
    bs = cs := by
  induction bs using List.reverseRecOn generalizing cs with
  | nil => exact (List.length_eq_zero_iff.mp hlen.symm).symm
  | append_singleton bs b ih =>
    obtain rfl | ⟨cs, c, rfl⟩ := List.eq_nil_or_concat cs
    · simp at hlen
    · have hb := b.toNat_lt
      have hc := c.toNat_lt
      rw [List.concat_eq_append] at h hlen ⊢
      rw [ofBE_concat, ofBE_concat] at h
      rw [List.length_append, List.length_append] at hlen
      have hlast : b = c := UInt8.toNat_inj.mp (by omega)
      rw [ih (Nat.add_right_cancel hlen) (by omega), hlast]

end MuduoNet.Lib.Words
