import Mathlib

/-! Signed 64-bit integers, with the wrap-around sum and product, as a commutative ring
and a linear order. The order does not go with the ring: a sum is exact where the exact
value fits, which is read off the cast of the exact value. -/
namespace AdScheduler.MachineInt

instance commRingInt64 : CommRing Int64 where
  add_assoc := Int64.add_assoc
  zero_add := Int64.zero_add
  add_zero := Int64.add_zero
  add_comm := Int64.add_comm
  neg_add_cancel := Int64.add_left_neg
  sub_eq_add_neg := Int64.sub_eq_add_neg
  mul_assoc := Int64.mul_assoc
  mul_comm := Int64.mul_comm
  one_mul := Int64.one_mul
  mul_one := Int64.mul_one
  zero_mul _ := Int64.zero_mul
  mul_zero _ := Int64.mul_zero
  left_distrib _ _ _ := Int64.mul_add
  right_distrib _ _ _ := Int64.add_mul
  nsmul := nsmulRec
  zsmul := zsmulRec
  intCast := Int64.ofInt
  intCast_ofNat _ := rfl
  intCast_negSucc n := by
    rw [Int.negSucc_eq, Int64.ofInt_neg]
    rfl
  natCast n := Int64.ofInt n
  natCast_zero := rfl
  natCast_succ n := Int64.ofInt_add n 1

instance linearOrderInt64 : LinearOrder Int64 where
  le_refl := Int64.le_refl
  le_trans _ _ _ := Int64.le_trans
  le_antisymm _ _ := Int64.le_antisymm
  le_total := Int64.le_total
  lt_iff_le_not_ge _ _ := by
    simp only [Int64.lt_iff_toInt_lt, Int64.le_iff_toInt_le]
    omega
  toDecidableLE := inferInstance

lemma intCast_toInt (x : Int64) : ((x.toInt : ℤ) : Int64) = x := Int64.ofInt_toInt x

lemma toInt_intCast {z : ℤ} (hlow : -2 ^ 63 ≤ z) (hhigh : z < 2 ^ 63) : (z : Int64).toInt = z :=
  Int64.toInt_ofInt_of_le hlow hhigh

lemma toInt_add_of_lt {x y : Int64} (hx : 0 ≤ x.toInt) (hy : 0 ≤ y.toInt)
    (h : x.toInt + y.toInt < 2 ^ 63) : (x + y).toInt = x.toInt + y.toInt := by
  have hcast : x + y = ((x.toInt + y.toInt : ℤ) : Int64) := by
    rw [Int.cast_add, intCast_toInt, intCast_toInt]
  rw [hcast, toInt_intCast (by omega) h]

lemma toInt_sub_of_nonneg {x y : Int64} (hx : 0 ≤ x.toInt) (hy : 0 ≤ y.toInt) :
    (x - y).toInt = x.toInt - y.toInt := by
  have hcast : x - y = ((x.toInt - y.toInt : ℤ) : Int64) := by
    rw [Int.cast_sub, intCast_toInt, intCast_toInt]
  have hxlt := x.toInt_lt
  have hylt := y.toInt_lt
  rw [hcast, toInt_intCast (by omega) (by omega)]

lemma toInt_sum_of_lt {xs : List Int64} (h : ∀ x ∈ xs, 0 ≤ x.toInt)
    (hlt : (xs.map Int64.toInt).sum < 2 ^ 63) : xs.sum.toInt = (xs.map Int64.toInt).sum := by
  have hcast : xs.sum = (((xs.map Int64.toInt).sum : ℤ) : Int64) := by
    simp [Int.cast_list_sum, Function.comp_def, intCast_toInt]
  have hsum : 0 ≤ (xs.map Int64.toInt).sum := by
    apply List.sum_nonneg
    simpa using h
  rw [hcast, toInt_intCast (by omega) hlt]

end AdScheduler.MachineInt
