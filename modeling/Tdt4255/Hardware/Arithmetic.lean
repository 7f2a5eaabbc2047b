import Tdt4255.Hardware.Control

/-! The ALU against integer arithmetic, for every width the generic admits. -/

namespace Tdt4255

open Ripple

section Flags

variable {n : Nat} (x y : BitVec n) (aluIn : AluInput)

theorem alu_carry (wide : 2 ≤ n) :
    (alu x y aluIn).flags.carry = BitVec.carry n x (operand aluIn.op2 y) aluIn.op2 := by
  have last := coutAux_eq_carry x y aluIn (show n - 1 < n by omega)
  rwa [Nat.sub_add_cancel (by omega)] at last

theorem alu_overflow (wide : 2 ≤ n) :
    (alu x y aluIn).flags.overflow =
      if aluIn.op2 then BitVec.ssubOverflow x y else BitVec.saddOverflow x y := by
  have last := coutAux_eq_carry x y aluIn (show n - 1 < n by omega)
  have before := coutAux_eq_carry x y aluIn (show n - 2 < n by omega)
  rw [Nat.sub_add_cancel (by omega)] at last
  rw [show n - 2 + 1 = n - 1 by omega] at before
  rw [← overflow_eq (by omega) aluIn.op2 x y, ← last, ← before]
  rfl

theorem alu_negative (op3 : aluIn.op3 = false) :
    (alu x y aluIn).flags.negative = (alu x y aluIn).r.getLsbD (n - 1) := by
  simp [alu, op3]

end Flags

section Exact

variable {n : Nat} (x y : BitVec n) (aluIn : AluInput)

/-- What every selection means in terms of the integers that the operands
stand for. -/
structure AluExact : Prop where
  sum : aluIn.op1 = true → aluIn.op0 = false → aluIn.op2 = false →
    (alu x y aluIn).r.toNat + 2 ^ n * (alu x y aluIn).flags.carry.toNat = x.toNat + y.toNat ∧
      ((alu x y aluIn).flags.overflow = true ↔ ¬ Fits n (x.toInt + y.toInt))
  difference : aluIn.op1 = true → aluIn.op0 = false → aluIn.op2 = true →
    ((alu x y aluIn).r.toNat : Int) = ((x.toNat : Int) - y.toNat) % 2 ^ n ∧
      ((alu x y aluIn).flags.carry = true ↔ y.toNat ≤ x.toNat) ∧
      ((alu x y aluIn).flags.overflow = true ↔ ¬ Fits n (x.toInt - y.toInt))
  logical : aluIn.op1 = false →
    (alu x y aluIn).r =
      if aluIn.op0 then x ||| (if aluIn.op2 then ~~~y else y)
      else x &&& (if aluIn.op2 then ~~~y else y)
  negative : (alu x y aluIn).flags.negative = (alu x y aluIn).r.getLsbD (n - 1)
  zero : n = 32 → aluIn.op1 = true → aluIn.op0 = false → aluIn.op2 = true →
    ((alu x y aluIn).flags.zero = true ↔ x = y)

variable {x y aluIn}

theorem alu_exact (wide : 2 ≤ n) (op3 : aluIn.op3 = false) : AluExact x y aluIn where
  sum := by
    intro op1 op0 op2
    have r := alu_r x y aluIn wide op3
    have carry := alu_carry x y aluIn wide
    have overflow := alu_overflow x y aluIn wide
    simp only [op1, op0, op2, Bool.false_eq_true, if_false] at r carry overflow
    rw [r, carry, overflow, saddOverflow_iff]
    exact ⟨toNat_add_carry x y, Iff.rfl⟩
  difference := by
    intro op1 op0 op2
    have r := alu_r x y aluIn wide op3
    have carry := alu_carry x y aluIn wide
    have overflow := alu_overflow x y aluIn wide
    simp only [op1, op0, op2, if_true] at r carry overflow
    rw [r, carry, overflow, ssubOverflow_iff]
    exact ⟨toNat_sub_mod x y, carry_sub_iff x y, Iff.rfl⟩
  logical := by
    intro op1
    have r := alu_r x y aluIn wide op3
    rw [r, op1]
    cases aluIn.op0 <;> rfl
  negative := alu_negative x y aluIn op3
  zero := by
    rintro rfl op1 op0 op2
    have r := alu_r x y aluIn wide op3
    simp only [op1, op0, op2, if_true] at r
    rw [alu_zero aluIn x y op3, r, decide_eq_true_iff]
    exact sub_eq_zero

end Exact

theorem alu_exact_byte :
    AluExact 0x7F#8 0x01#8 { op0 := false, op1 := true, op2 := false, op3 := false } :=
  alu_exact (by decide) rfl

section Comparison

variable {n : Nat} (x y : BitVec n)

theorem aluLogic_slt :
    aluLogic 0b101010#6 rInstr = { op0 := true, op1 := true, op2 := true, op3 := false } := rfl

theorem alu_slt (wide : 2 ≤ n) :
    (alu x y (aluLogic 0b101010#6 rInstr)).r = if (x - y).msb then 1#n else 0#n := by
  rw [alu_r x y _ wide (aluLogic_op3 _ _), aluLogic_slt]
  rfl

/-- The comparison is the signed one for precisely those operands whose
difference fits. -/
theorem slt_signed_iff (wide : 2 ≤ n) :
    (alu x y (aluLogic 0b101010#6 rInstr)).r = (if x.toInt < y.toInt then 1#n else 0#n) ↔
      Fits n (x.toInt - y.toInt) := by
  have distinct : 1#n ≠ 0#n := by
    rw [ne_eq, BitVec.one_eq_zero_iff]
    omega
  have sign := msb_sub_eq_slt_xor x y
  have order : x.slt y = decide (x.toInt < y.toInt) := rfl
  have fits := ssubOverflow_iff x y
  rw [alu_slt x y wide, sign, order, ← not_iff_not, ← fits]
  by_cases less : x.toInt < y.toInt <;> cases BitVec.ssubOverflow x y <;>
    simp [less, distinct, distinct.symm]

end Comparison

theorem slt_signed_iff_nibble :
    (alu 0b1000#4 0b1111#4 (aluLogic 0b101010#6 rInstr)).r = 1#4 :=
  (slt_signed_iff 0b1000#4 0b1111#4 (by decide)).mpr (by decide)

theorem slt_of_extremes :
    (alu 0x80000000#32 0x7FFFFFFF#32 (aluLogic 0b101010#6 rInstr)).r = 0 ∧
      (0x80000000#32).toInt < (0x7FFFFFFF#32).toInt := by
  refine ⟨?_, by decide⟩
  rw [alu_slt _ _ (by decide)]
  rfl

section Zero

variable {n : Nat} (x y : BitVec n) (aluIn : AluInput)

/-- Operands for which the selected operation has the result 0. -/
def Vanishes : Prop :=
  if aluIn.op1 then
    if aluIn.op0 then (if aluIn.op2 then x - y else x + y).msb = false
    else if aluIn.op2 then x = y
    else x = -y
  else if aluIn.op0 then x = 0#n ∧ operand aluIn.op2 y = 0#n
  else x &&& operand aluIn.op2 y = 0#n

instance : Decidable (Vanishes x y aluIn) := inferInstanceAs (Decidable (ite _ _ _))

variable {x y aluIn}

theorem alu_r_eq_zero_iff (wide : 2 ≤ n) (op3 : aluIn.op3 = false) :
    (alu x y aluIn).r = 0#n ↔ Vanishes x y aluIn := by
  have distinct : 1#n ≠ 0#n := by
    rw [ne_eq, BitVec.one_eq_zero_iff]
    omega
  rw [alu_r x y aluIn wide op3, Vanishes]
  cases aluIn.op1 with
  | false =>
    cases aluIn.op0 with
    | false => rfl
    | true => exact BitVec.or_eq_zero_iff
  | true =>
    cases aluIn.op0 with
    | false =>
      cases aluIn.op2 with
      | false => exact add_eq_zero_iff_eq_neg
      | true => exact sub_eq_zero
    | true => cases (if aluIn.op2 then x - y else x + y).msb <;> simp [distinct]

/-- The flag is right for precisely those inputs that have 32 bits or no
result 0: at any other width it is never set. -/
theorem zero_flag_iff (wide : 2 ≤ n) (op3 : aluIn.op3 = false) :
    ((alu x y aluIn).flags.zero = true ↔ ∀ i < n, (alu x y aluIn).r.getLsbD i = false) ↔
      n = 32 ∨ ¬ Vanishes x y aluIn := by
  have bits : (∀ i < n, (alu x y aluIn).r.getLsbD i = false) ↔ Vanishes x y aluIn := by
    rw [← alu_r_eq_zero_iff wide op3]
    constructor
    · intro low
      exact BitVec.eq_of_getLsbD_eq fun i bound => by rw [low i bound, BitVec.getLsbD_zero]
    · intro zero i _
      rw [zero, BitVec.getLsbD_zero]
  have flag : (alu x y aluIn).flags.zero = true ↔ n = 32 ∧ Vanishes x y aluIn := by
    rw [← alu_r_eq_zero_iff wide op3]
    simp [alu, op3]
  rw [bits, flag]
  tauto

end Zero

theorem zero_flag_iff_byte :
    (alu 5#8 3#8 { op0 := false, op1 := true, op2 := true, op3 := false }).flags.zero = true ↔
      ∀ i < 8, (alu 5#8 3#8
        { op0 := false, op1 := true, op2 := true, op3 := false }).r.getLsbD i = false :=
  (zero_flag_iff (by decide) rfl).mpr (Or.inr (by decide))

theorem byte_zero_flag_stuck :
    (alu 5#8 5#8 { op0 := false, op1 := true, op2 := true, op3 := false }).r = 0 ∧
      (alu 5#8 5#8 { op0 := false, op1 := true, op2 := true, op3 := false }).flags.zero = false := by
  decide

end Tdt4255
