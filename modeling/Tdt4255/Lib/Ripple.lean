import Mathlib

/-! Carry chains of full adders against fixed-width arithmetic. -/

namespace Ripple

/-- The carry that enters position `i` of a chain of full adders over the
bits `a` and `b`, where `c` enters position `0`. -/
def chain (a b : Nat → Bool) (c : Bool) : Nat → Bool
  | 0 => c
  | i + 1 => (a i && b i) || ((a i ^^ b i) && chain a b c i)

theorem chain_eq_carry {n : Nat} (x y : BitVec n) (c : Bool) (i : Nat) :
    chain x.getLsbD y.getLsbD c i = BitVec.carry i x y c := by
  induction i with
  | zero => simp [chain]
  | succ i ih =>
    rw [chain, ih, BitVec.carry_succ, Bool.atLeastTwo]
    cases x.getLsbD i <;> cases y.getLsbD i <;> simp

/-- The second operand of an adder/subtracter: inverted when `sub` is set. -/
def operand {n : Nat} (sub : Bool) (y : BitVec n) : BitVec n := if sub then ~~~y else y

theorem operand_getLsbD {n : Nat} (sub : Bool) (y : BitVec n) {i : Nat} (bound : i < n) :
    (operand sub y).getLsbD i = (y.getLsbD i ^^ sub) := by
  cases sub <;> simp [operand, bound]

/-- Inverting the operand and feeding the same bit as the first carry adds
or subtracts, whichever the bit says. -/
theorem add_operand {n : Nat} (sub : Bool) (x y : BitVec n) :
    x + operand sub y + (BitVec.ofBool sub).setWidth n = if sub then x - y else x + y := by
  cases sub with
  | false => simp [operand]
  | true =>
    have one : (BitVec.ofBool true).setWidth n = 1#n := by
      apply BitVec.eq_of_toNat_eq
      simp
    rw [one, BitVec.sub_eq_add_neg, BitVec.neg_eq_not_add]
    simp [operand, BitVec.add_assoc]

theorem sum_bit {n : Nat} (sub : Bool) (x y : BitVec n) {i : Nat} (bound : i < n) :
    (x.getLsbD i ^^ ((operand sub y).getLsbD i ^^ BitVec.carry i x (operand sub y) sub)) =
      (if sub then x - y else x + y).getLsbD i := by
  rw [← add_operand, BitVec.getLsbD_add_add_bool bound]

/-- The sign of a wrapped difference is the signed order, except where the
true difference does not fit. -/
theorem msb_sub_eq_slt_xor {n : Nat} (x y : BitVec n) :
    (x - y).msb = (x.slt y ^^ BitVec.ssubOverflow x y) := by
  cases fits : BitVec.ssubOverflow x y with
  | false =>
    have exact := BitVec.toInt_sub_of_not_ssubOverflow (x := x) (y := y) (by simp [fits])
    rw [BitVec.msb_eq_toInt, exact, Bool.xor_false, BitVec.slt]
    exact decide_eq_decide.mpr sub_neg
  | true =>
    rw [BitVec.ssubOverflow_eq] at fits
    have differ : x.msb ≠ y.msb := by
      intro same
      simp [same] at fits
    rw [BitVec.slt_eq_not_ult_of_msb_neq differ, BitVec.ult_eq_msb_of_msb_neq differ]
    revert fits
    cases x.msb <;> cases y.msb <;> simp

/-- Two's complement of width `n` holds `i`. -/
def Fits (n : Nat) (i : Int) : Prop := -2 ^ (n - 1) ≤ i ∧ i < 2 ^ (n - 1)

instance (n : Nat) (i : Int) : Decidable (Fits n i) := inferInstanceAs (Decidable (_ ∧ _))

theorem saddOverflow_iff {n : Nat} (x y : BitVec n) :
    BitVec.saddOverflow x y = true ↔ ¬ Fits n (x.toInt + y.toInt) := by
  simp only [BitVec.saddOverflow, Fits, Bool.or_eq_true, decide_eq_true_eq]
  omega

theorem ssubOverflow_iff {n : Nat} (x y : BitVec n) :
    BitVec.ssubOverflow x y = true ↔ ¬ Fits n (x.toInt - y.toInt) := by
  simp only [BitVec.ssubOverflow, Fits, Bool.or_eq_true, decide_eq_true_eq]
  omega

/-- The carry into the sign position differs from the carry out of it
precisely when the signed result does not fit. -/
theorem overflow_eq {n : Nat} (wide : 0 < n) (sub : Bool) (x y : BitVec n) :
    (BitVec.carry n x (operand sub y) sub ^^ BitVec.carry (n - 1) x (operand sub y) sub) =
      if sub then BitVec.ssubOverflow x y else BitVec.saddOverflow x y := by
  have top : n - 1 + 1 = n := by omega
  have sign := sum_bit sub x y (show n - 1 < n by omega)
  have out := BitVec.carry_succ (n - 1) x (operand sub y) sub
  rw [top] at out
  have inverted := operand_getLsbD sub y (show n - 1 < n by omega)
  simp only [← BitVec.msb_eq_getLsbD_last] at sign out inverted
  rw [out, inverted]
  rw [inverted] at sign
  cases sub with
  | false =>
    rw [if_neg (by simp), BitVec.saddOverflow_eq]
    rw [if_neg (by simp)] at sign
    rw [← sign]
    cases x.msb <;> cases y.msb <;> simp [Bool.atLeastTwo]
  | true =>
    rw [if_pos rfl, BitVec.ssubOverflow_eq]
    rw [if_pos rfl] at sign
    rw [← sign]
    cases x.msb <;> cases y.msb <;> simp [Bool.atLeastTwo]

theorem toNat_add_carry {n : Nat} (x y : BitVec n) :
    (x + y).toNat + 2 ^ n * (BitVec.carry n x y false).toNat = x.toNat + y.toNat := by
  have left := x.isLt
  have right := y.isLt
  rw [BitVec.carry_width, BitVec.toNat_add]
  by_cases wraps : 2 ^ n ≤ x.toNat + y.toNat
  · have rest : (x.toNat + y.toNat) % 2 ^ n = x.toNat + y.toNat - 2 ^ n := by
      rw [Nat.mod_eq_sub_mod wraps, Nat.mod_eq_of_lt (by omega)]
    simp [wraps, rest]
  · simp [wraps, Nat.mod_eq_of_lt (not_le.mp wraps)]

theorem toNat_sub_mod {n : Nat} (x y : BitVec n) :
    ((x - y).toNat : Int) = ((x.toNat : Int) - y.toNat) % 2 ^ n := by
  have bound := y.isLt
  rw [BitVec.toNat_sub, Int.natCast_mod, Int.natCast_add, Int.natCast_sub bound.le]
  push_cast
  rw [← Int.add_emod_right ((x.toNat : Int) - y.toNat)]
  exact congrArg (· % 2 ^ n) (by ring)

/-- The carry of a subtraction is the absence of a borrow. -/
theorem carry_sub_iff {n : Nat} (x y : BitVec n) :
    BitVec.carry n x (~~~y) true = true ↔ y.toNat ≤ x.toNat := by
  have order := BitVec.ult_eq_not_carry x y
  rw [← Bool.not_inj_iff, Bool.not_true, ← order, ← Bool.not_eq_true, BitVec.ult_iff_lt,
    BitVec.lt_def, not_lt]

end Ripple
