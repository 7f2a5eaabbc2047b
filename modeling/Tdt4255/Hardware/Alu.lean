import Tdt4255.Lib.Ripple

/-! The package records and the bit-serial ALU: `full_adder`, `alu_1bit`, `alu`. -/

namespace Tdt4255

/-- Driven values only: every signal of the design settles to `'0'` or `'1'`. -/
abbrev StdLogic := Bool

/-- `IADDR_BUS`, `IDATA_BUS`, `DADDR_BUS` and `DDATA_BUS` are all 32. -/
abbrev Word := BitVec 32

/-- `MEM_ADDR_COUNT` is 8: each memory holds 256 words. -/
abbrev MemAddress := BitVec 8

structure AluOpInput where
  op0 : StdLogic
  op1 : StdLogic
  op2 : StdLogic
  deriving DecidableEq, Repr

structure AluInput where
  op0 : StdLogic
  op1 : StdLogic
  op2 : StdLogic
  op3 : StdLogic
  deriving DecidableEq, Repr

structure AluFlags where
  carry : StdLogic
  overflow : StdLogic
  zero : StdLogic
  negative : StdLogic
  deriving DecidableEq, Repr

structure FullAdderOut where
  cout : StdLogic
  r : StdLogic

def fullAdder (x y cin : StdLogic) : FullAdderOut :=
  let g := x && y
  let p := x ^^ y
  { cout := g || (p && cin), r := p ^^ cin }

structure Alu1BitOut where
  res : StdLogic
  cout : StdLogic
  set : StdLogic

def alu1Bit (x y less binvert cin op1 op0 : StdLogic) : Alu1BitOut :=
  let newY := if binvert = false then y else !y
  let r0 := x && newY
  let r1 := x || newY
  let adder := fullAdder x newY cin
  let r2 := adder.r
  let r3 := less
  let resAux :=
    if op1 = false ∧ op0 = false then r0
    else if op1 = false ∧ op0 = true then r1
    else if op1 = true ∧ op0 = false then r2
    else if op1 = true ∧ op0 = true then r3
    else false
  { res := resAux, cout := adder.cout, set := r2 }

structure AluOut (n : Nat) where
  r : BitVec n
  flags : AluFlags

section Alu

variable {n : Nat} (x y : BitVec n) (aluIn : AluInput)

/-- Stage `i`. `BEGIN_ALU1B`, `NEXT_ALU1B` and `LAST_ALU1B` share every port
map but those of LESS and CIN. -/
def aluStage (i : Nat) (less cin : StdLogic) : Alu1BitOut :=
  alu1Bit (x.getLsbD i) (y.getLsbD i) less aluIn.op2 cin aluIn.op1 aluIn.op0

/-- `COUT_AUX(i)`. COUT does not depend on LESS, so the loop that LESS_AUX
closes around stage 0 is not a combinational one. -/
def coutAux : Nat → StdLogic
  | 0 => (aluStage x y aluIn 0 false aluIn.op2).cout
  | i + 1 => (aluStage x y aluIn (i + 1) false (coutAux i)).cout

/-- The CIN port of stage `i`. -/
def cinAux : Nat → StdLogic
  | 0 => aluIn.op2
  | i + 1 => coutAux x y aluIn i

/-- `LESS_AUX`, the SET output of `LAST_ALU1B`. -/
def lessAux : StdLogic := (aluStage x y aluIn (n - 1) false (coutAux x y aluIn (n - 2))).set

def rAux : BitVec n :=
  BitVec.ofFnLE fun i : Fin n =>
    (aluStage x y aluIn i (if i.val = 0 then lessAux x y aluIn else false) (cinAux x y aluIn i)).res

/-- The entity needs `2 ≤ N`. A vector comparison between different lengths
is false, so Zero is stuck at `'0'` unless `N = 32`; the Op3 branch has
matching lengths for `N = 32` only. -/
def alu : AluOut n where
  r := if aluIn.op3 = true then ((y.extractLsb' 0 (n / 2)) ++ 0#16).setWidth n else rAux x y aluIn
  flags :=
    { carry := coutAux x y aluIn (n - 1)
      overflow := coutAux x y aluIn (n - 1) ^^ coutAux x y aluIn (n - 2)
      zero := decide (n = 32 ∧ rAux x y aluIn = 0)
      negative := if (rAux x y aluIn).getLsbD (n - 1) = true then true else false }

end Alu

section Spec

variable {n : Nat} (x y : BitVec n) (aluIn : AluInput)

theorem alu1Bit_cout (a b less binvert cin op1 op0 : StdLogic) :
    (alu1Bit a b less binvert cin op1 op0).cout =
      ((a && (b ^^ binvert)) || ((a ^^ (b ^^ binvert)) && cin)) := by
  cases binvert <;> simp [alu1Bit, fullAdder]

theorem alu1Bit_set (a b less binvert cin op1 op0 : StdLogic) :
    (alu1Bit a b less binvert cin op1 op0).set = (a ^^ ((b ^^ binvert) ^^ cin)) := by
  cases binvert <;> simp [alu1Bit, fullAdder]

theorem alu1Bit_res (a b less binvert cin op1 op0 : StdLogic) :
    (alu1Bit a b less binvert cin op1 op0).res =
      match op1, op0 with
      | false, false => a && (b ^^ binvert)
      | false, true => a || (b ^^ binvert)
      | true, false => a ^^ ((b ^^ binvert) ^^ cin)
      | true, true => less := by
  cases binvert <;> cases op1 <;> cases op0 <;> simp [alu1Bit, fullAdder]

/-- The carries of the structural chain are those of one addition of `x` and
the possibly inverted `y`. -/
theorem coutAux_eq_carry {i : Nat} (bound : i < n) :
    coutAux x y aluIn i = BitVec.carry (i + 1) x (Ripple.operand aluIn.op2 y) aluIn.op2 := by
  induction i with
  | zero =>
    rw [coutAux, aluStage, alu1Bit_cout, ← Ripple.operand_getLsbD aluIn.op2 y bound, ← Ripple.chain_eq_carry]
    rfl
  | succ i ih =>
    rw [coutAux, aluStage, alu1Bit_cout, ← Ripple.operand_getLsbD aluIn.op2 y bound, ih (by omega),
      ← Ripple.chain_eq_carry, ← Ripple.chain_eq_carry]
    rfl

theorem cinAux_eq_carry {i : Nat} (bound : i < n) :
    cinAux x y aluIn i = BitVec.carry i x (Ripple.operand aluIn.op2 y) aluIn.op2 := by
  cases i with
  | zero => simp [cinAux]
  | succ i => exact coutAux_eq_carry x y aluIn (by omega)

theorem aluStage_set {i : Nat} (bound : i < n) (less : StdLogic) :
    (aluStage x y aluIn i less (cinAux x y aluIn i)).set =
      (if aluIn.op2 then x - y else x + y).getLsbD i := by
  rw [aluStage, alu1Bit_set, ← Ripple.operand_getLsbD aluIn.op2 y bound, cinAux_eq_carry x y aluIn bound,
    Ripple.sum_bit aluIn.op2 x y bound]

theorem lessAux_eq (wide : 2 ≤ n) :
    lessAux x y aluIn = (if aluIn.op2 then x - y else x + y).msb := by
  have cin : coutAux x y aluIn (n - 2) = cinAux x y aluIn (n - 1) := by
    rw [show n - 1 = (n - 2) + 1 by omega]
    rfl
  rw [lessAux, cin, aluStage_set x y aluIn (by omega), BitVec.msb_eq_getLsbD_last]

theorem rAux_getLsbD {i : Nat} (bound : i < n) :
    (rAux x y aluIn).getLsbD i =
      match aluIn.op1, aluIn.op0 with
      | false, false => x.getLsbD i && (y.getLsbD i ^^ aluIn.op2)
      | false, true => x.getLsbD i || (y.getLsbD i ^^ aluIn.op2)
      | true, false => (if aluIn.op2 then x - y else x + y).getLsbD i
      | true, true => if i = 0 then lessAux x y aluIn else false := by
  have sum := aluStage_set x y aluIn bound (if i = 0 then lessAux x y aluIn else false)
  rw [aluStage, alu1Bit_set] at sum
  rw [rAux, BitVec.getLsbD_ofFnLE, dif_pos bound, aluStage, alu1Bit_res]
  cases aluIn.op1 <;> cases aluIn.op0 <;> simp_all

/-- What the structure computes, for every width the generic admits and every
selection with Op3 low. The last row is the sign of the adder output. -/
theorem alu_r (wide : 2 ≤ n) (op3 : aluIn.op3 = false) :
    (alu x y aluIn).r =
      match aluIn.op1, aluIn.op0 with
      | false, false => x &&& Ripple.operand aluIn.op2 y
      | false, true => x ||| Ripple.operand aluIn.op2 y
      | true, false => if aluIn.op2 then x - y else x + y
      | true, true => if (if aluIn.op2 then x - y else x + y).msb then 1#n else 0#n := by
  simp only [alu, op3, Bool.false_eq_true, if_false]
  apply BitVec.eq_of_getLsbD_eq
  intro i bound
  rw [rAux_getLsbD x y aluIn bound, lessAux_eq x y aluIn wide]
  cases aluIn.op1 <;> cases aluIn.op0 <;> simp only
  · rw [BitVec.getLsbD_and, Ripple.operand_getLsbD aluIn.op2 y bound]
  · rw [BitVec.getLsbD_or, Ripple.operand_getLsbD aluIn.op2 y bound]
  · cases (if aluIn.op2 then x - y else x + y).msb
    · simp
    · by_cases first : i = 0
      · simp [first, show 0 < n by omega]
      · simp [first, BitVec.getLsbD_one]

theorem alu_zero (x y : Word) (op3 : aluIn.op3 = false) :
    (alu x y aluIn).flags.zero = decide ((alu x y aluIn).r = 0) := by
  simp [alu, op3]

end Spec

end Tdt4255
