import Tdt4255.Hardware.Alu

/-! `adder`, a chain of `full_adder`. -/

namespace Tdt4255

structure AdderOut (n : Nat) where
  cout : StdLogic
  r : BitVec n

section Adder

variable {n : Nat} (x y : BitVec (n + 1)) (cin : StdLogic)

/-- `BEGIN_FA` and then `NEXT_FA`, whose CIN is `CAUX(i-1)`. -/
def adderStage : Nat → FullAdderOut
  | 0 => fullAdder (x.getLsbD 0) (y.getLsbD 0) cin
  | i + 1 => fullAdder (x.getLsbD (i + 1)) (y.getLsbD (i + 1)) (adderStage i).cout

/-- The entity needs `1 ≤ N`, here `n + 1`. -/
def adder : AdderOut (n + 1) where
  cout := (adderStage x y cin n).cout
  r := BitVec.ofFnLE fun i : Fin (n + 1) => (adderStage x y cin i).r

theorem fullAdder_eq (a b c : StdLogic) :
    (fullAdder a b c).cout = ((a && b) || ((a ^^ b) && c)) ∧
      (fullAdder a b c).r = (a ^^ (b ^^ c)) := by
  cases a <;> cases b <;> cases c <;> decide

theorem adderStage_eq (i : Nat) :
    (adderStage x y cin i).cout = BitVec.carry (i + 1) x y cin ∧
      (adderStage x y cin i).r = (x.getLsbD i ^^ (y.getLsbD i ^^ BitVec.carry i x y cin)) := by
  rw [← Ripple.chain_eq_carry, ← Ripple.chain_eq_carry]
  induction i with
  | zero => exact fullAdder_eq _ _ _
  | succ i ih =>
    rw [adderStage, ih.1]
    exact fullAdder_eq _ _ _

theorem adder_r : (adder x y cin).r = x + y + (BitVec.ofBool cin).setWidth (n + 1) := by
  apply BitVec.eq_of_getLsbD_eq
  intro i bound
  rw [BitVec.getLsbD_add_add_bool bound, adder, BitVec.getLsbD_ofFnLE, dif_pos bound]
  exact (adderStage_eq x y cin i).2

/-- The two outputs together are the sum, whatever the width. -/
theorem adder_exact :
    (adder x y cin).r.toNat + 2 ^ (n + 1) * (adder x y cin).cout.toNat =
      x.toNat + y.toNat + cin.toNat := by
  have cout : (adder x y cin).cout = decide (x.toNat + y.toNat + cin.toNat ≥ 2 ^ (n + 1)) :=
    (adderStage_eq x y cin n).1.trans BitVec.carry_width
  have sum : (adder x y cin).r.toNat = (x.toNat + y.toNat + cin.toNat) % 2 ^ (n + 1) := by
    rw [adder_r, BitVec.toNat_add, BitVec.toNat_add]
    simp
  have left := x.isLt
  have right := y.isLt
  have one := Bool.toNat_le cin
  rw [cout, sum]
  by_cases wraps : 2 ^ (n + 1) ≤ x.toNat + y.toNat + cin.toNat
  · rw [Nat.mod_eq_sub_mod wraps, Nat.mod_eq_of_lt (by omega)]
    simp only [ge_iff_le, wraps, decide_true, Bool.toNat_true, Nat.mul_one]
    omega
  · rw [Nat.mod_eq_of_lt (not_le.mp wraps)]
    simp [wraps]

end Adder

end Tdt4255
