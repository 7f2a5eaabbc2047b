import Tdt4255.Hardware.Alu

/-! The ALU while it settles: what its signals are in every delta cycle after
its operands have changed. -/

namespace Tdt4255

/-- The signals inside `alu` and its `N` stages. -/
@[ext] structure AluWires (n : Nat) where
  newY : BitVec n
  g : BitVec n
  p : BitVec n
  r0 : BitVec n
  r1 : BitVec n
  r2 : BitVec n
  r3 : BitVec n
  coutAux : BitVec n
  lessAux : StdLogic
  resAux : BitVec n
  rAux : BitVec n
  r : BitVec n
  zero : StdLogic

namespace AluWires

variable {n : Nat}

/-- The CIN ports of the stages. -/
def cin (c0 : StdLogic) (w : AluWires n) : BitVec n := w.coutAux.shiftConcat c0

/-- `MUX_RES_ALU` of every stage. -/
def muxResAlu (aluIn : AluInput) (w : AluWires n) : BitVec n :=
  if aluIn.op1 = false ∧ aluIn.op0 = false then w.r0
  else if aluIn.op1 = false ∧ aluIn.op0 = true then w.r1
  else if aluIn.op1 = true ∧ aluIn.op0 = false then w.r2
  else w.r3

/-- One delta cycle: every signal takes the value that its driver had for the
signals of the cycle before. -/
def delta (x y : BitVec n) (aluIn : AluInput) (w : AluWires n) : AluWires n where
  newY := if aluIn.op2 = false then y else ~~~y
  g := x &&& w.newY
  p := x ^^^ w.newY
  r0 := x &&& w.newY
  r1 := x ||| w.newY
  r2 := w.p ^^^ w.cin aluIn.op2
  r3 := (BitVec.ofBool w.lessAux).setWidth n
  coutAux := w.g ||| (w.p &&& w.cin aluIn.op2)
  lessAux := w.r2.getLsbD (n - 1)
  resAux := w.muxResAlu aluIn
  rAux := w.resAux
  r := if aluIn.op3 = true then ((y.extractLsb' 0 (n / 2)) ++ 0#16).setWidth n else w.rAux
  zero := decide (n = 32 ∧ w.rAux = 0)

/-- What `alu` says of them. -/
def settled (x y : BitVec n) (aluIn : AluInput) : AluWires n where
  newY := Ripple.operand aluIn.op2 y
  g := x &&& Ripple.operand aluIn.op2 y
  p := x ^^^ Ripple.operand aluIn.op2 y
  r0 := x &&& Ripple.operand aluIn.op2 y
  r1 := x ||| Ripple.operand aluIn.op2 y
  r2 := if aluIn.op2 then x - y else x + y
  r3 := (BitVec.ofBool (Tdt4255.lessAux x y aluIn)).setWidth n
  coutAux := BitVec.ofFnLE fun i : Fin n => Tdt4255.coutAux x y aluIn i
  lessAux := Tdt4255.lessAux x y aluIn
  resAux := Tdt4255.rAux x y aluIn
  rAux := Tdt4255.rAux x y aluIn
  r := (alu x y aluIn).r
  zero := (alu x y aluIn).flags.zero

variable (x y : BitVec n) (aluIn : AluInput)

theorem cin_getLsbD (c0 : StdLogic) (w : AluWires n) {i : Nat} (bound : i < n) :
    (w.cin c0).getLsbD i = if i = 0 then c0 else w.coutAux.getLsbD (i - 1) := by
  rw [cin, BitVec.getLsbD_shiftConcat]
  simp [bound]

theorem delta_newY (w : AluWires n) : (w.delta x y aluIn).newY = Ripple.operand aluIn.op2 y := by
  cases h : aluIn.op2 <;> simp [delta, Ripple.operand, h]

section Settles

variable (w : AluWires n)

/-- So many delta cycles later. -/
def after (k : Nat) : AluWires n := (delta x y aluIn)^[k] w

theorem after_succ (k : Nat) :
    w.after x y aluIn (k + 1) = (w.after x y aluIn k).delta x y aluIn :=
  Function.iterate_succ_apply' _ _ _

/-! How many delta cycles behind the operands and the selection a signal has
settled. -/

theorem after_newY {k : Nat} (late : 1 ≤ k) :
    (w.after x y aluIn k).newY = Ripple.operand aluIn.op2 y := by
  obtain ⟨k, rfl⟩ := Nat.exists_eq_add_of_le' late
  rw [after_succ, delta_newY]

theorem after_inputs {k : Nat} (late : 2 ≤ k) :
    (w.after x y aluIn k).g = (settled x y aluIn).g ∧
      (w.after x y aluIn k).p = (settled x y aluIn).p ∧
      (w.after x y aluIn k).r0 = (settled x y aluIn).r0 ∧
      (w.after x y aluIn k).r1 = (settled x y aluIn).r1 := by
  obtain ⟨k, rfl⟩ := Nat.exists_eq_add_of_le' late
  have newY := after_newY x y aluIn w (Nat.le_add_left 1 k)
  rw [after_succ]
  simp [delta, settled, newY]

theorem after_coutAux_succ {i k : Nat} (bound : i < n) (late : 2 ≤ k) :
    (w.after x y aluIn (k + 1)).coutAux.getLsbD i =
      ((x.getLsbD i && (y.getLsbD i ^^ aluIn.op2)) ||
        ((x.getLsbD i ^^ (y.getLsbD i ^^ aluIn.op2)) &&
          if i = 0 then aluIn.op2 else (w.after x y aluIn k).coutAux.getLsbD (i - 1))) := by
  obtain ⟨g, p, -, -⟩ := after_inputs x y aluIn w late
  rw [after_succ, ← Ripple.operand_getLsbD aluIn.op2 y bound]
  simp only [delta, g, p, settled, BitVec.getLsbD_or, BitVec.getLsbD_and, BitVec.getLsbD_xor,
    cin_getLsbD _ _ bound]

/-- The carry goes from stage to stage, one delta cycle for each. -/
theorem after_coutAux {i k : Nat} (bound : i < n) (late : i + 3 ≤ k) :
    (w.after x y aluIn k).coutAux.getLsbD i = Tdt4255.coutAux x y aluIn i := by
  induction i generalizing k with
  | zero =>
    obtain ⟨k, rfl⟩ := Nat.exists_eq_add_of_le' (show 1 ≤ k by omega)
    rw [after_coutAux_succ x y aluIn w bound (by omega), if_pos rfl, Tdt4255.coutAux, aluStage,
      alu1Bit_cout]
  | succ i ih =>
    obtain ⟨k, rfl⟩ := Nat.exists_eq_add_of_le' (show 1 ≤ k by omega)
    rw [after_coutAux_succ x y aluIn w bound (by omega), if_neg (Nat.succ_ne_zero i),
      Nat.add_sub_cancel, ih (by omega) (by omega), Tdt4255.coutAux, aluStage, alu1Bit_cout]

theorem after_r2 {k : Nat} (late : n + 2 ≤ k) :
    (w.after x y aluIn k).r2 = (settled x y aluIn).r2 := by
  obtain ⟨k, rfl⟩ := Nat.exists_eq_add_of_le' (show 1 ≤ k by omega)
  apply BitVec.eq_of_getLsbD_eq
  intro i bound
  obtain ⟨-, p, -, -⟩ := after_inputs x y aluIn w (show 2 ≤ k by omega)
  have carry : ((w.after x y aluIn k).cin aluIn.op2).getLsbD i = cinAux x y aluIn i := by
    rw [cin_getLsbD _ _ bound]
    cases i with
    | zero => rfl
    | succ i => exact after_coutAux x y aluIn w (by omega) (by omega)
  have sum := aluStage_set x y aluIn bound false
  rw [aluStage, alu1Bit_set, ← Ripple.operand_getLsbD aluIn.op2 y bound] at sum
  rw [after_succ]
  simp only [delta, settled, BitVec.getLsbD_xor, carry, p, ← sum, Bool.xor_assoc]

theorem after_lessAux (wide : 2 ≤ n) {k : Nat} (late : n + 3 ≤ k) :
    (w.after x y aluIn k).lessAux = Tdt4255.lessAux x y aluIn := by
  obtain ⟨k, rfl⟩ := Nat.exists_eq_add_of_le' (show 1 ≤ k by omega)
  have sum := after_r2 x y aluIn w (show n + 2 ≤ k by omega)
  rw [after_succ, lessAux_eq x y aluIn wide, BitVec.msb_eq_getLsbD_last]
  simp only [delta, sum, settled]

theorem after_r3 (wide : 2 ≤ n) {k : Nat} (late : n + 4 ≤ k) :
    (w.after x y aluIn k).r3 = (settled x y aluIn).r3 := by
  obtain ⟨k, rfl⟩ := Nat.exists_eq_add_of_le' (show 1 ≤ k by omega)
  have less := after_lessAux x y aluIn w wide (show n + 3 ≤ k by omega)
  rw [after_succ]
  simp only [delta, less, settled]

theorem muxResAlu_settled : (settled x y aluIn).muxResAlu aluIn = Tdt4255.rAux x y aluIn := by
  apply BitVec.eq_of_getLsbD_eq
  intro i bound
  rw [rAux_getLsbD x y aluIn bound, muxResAlu]
  cases op1 : aluIn.op1 <;> cases op0 : aluIn.op0 <;>
    simp only [settled, Bool.false_eq_true, Bool.true_eq_false, and_true, and_false, if_true,
      if_false, BitVec.getLsbD_and, BitVec.getLsbD_or, Ripple.operand_getLsbD _ _ bound]
  by_cases first : i = 0
  · subst first
    simp [bound]
  · simp [first]

theorem after_resAux (wide : 2 ≤ n) {k : Nat} (late : n + 5 ≤ k) :
    (w.after x y aluIn k).resAux = Tdt4255.rAux x y aluIn := by
  obtain ⟨k, rfl⟩ := Nat.exists_eq_add_of_le' (show 1 ≤ k by omega)
  obtain ⟨-, -, r0, r1⟩ := after_inputs x y aluIn w (show 2 ≤ k by omega)
  have r2 := after_r2 x y aluIn w (show n + 2 ≤ k by omega)
  have r3 := after_r3 x y aluIn w wide (show n + 4 ≤ k by omega)
  rw [after_succ, ← muxResAlu_settled]
  simp only [delta, muxResAlu, r0, r1, r2, r3]

theorem after_rAux (wide : 2 ≤ n) {k : Nat} (late : n + 6 ≤ k) :
    (w.after x y aluIn k).rAux = Tdt4255.rAux x y aluIn := by
  obtain ⟨k, rfl⟩ := Nat.exists_eq_add_of_le' (show 1 ≤ k by omega)
  rw [after_succ, ← after_resAux x y aluIn w wide (show n + 5 ≤ k by omega)]
  rfl

/-- From whatever its signals are, an ALU settles to what `alu` says, in as
many delta cycles as it has stages and seven more. -/
theorem after_settled (wide : 2 ≤ n) {k : Nat} (late : n + 7 ≤ k) :
    w.after x y aluIn k = settled x y aluIn := by
  obtain ⟨g, p, r0, r1⟩ := after_inputs x y aluIn w (show 2 ≤ k by omega)
  have coutAux : (w.after x y aluIn k).coutAux = (settled x y aluIn).coutAux := by
    apply BitVec.eq_of_getLsbD_eq
    intro i bound
    rw [after_coutAux x y aluIn w bound (by omega), settled, BitVec.getLsbD_ofFnLE, dif_pos bound]
  have outputs : (w.after x y aluIn k).r = (settled x y aluIn).r ∧
      (w.after x y aluIn k).zero = (settled x y aluIn).zero := by
    obtain ⟨k, rfl⟩ := Nat.exists_eq_add_of_le' (show 1 ≤ k by omega)
    have result := after_rAux x y aluIn w wide (show n + 6 ≤ k by omega)
    rw [after_succ]
    simp only [delta, result, settled, alu, and_self]
  exact AluWires.ext (after_newY x y aluIn w (by omega)) g p r0 r1
    (after_r2 x y aluIn w (by omega)) (after_r3 x y aluIn w wide (by omega)) coutAux
    (after_lessAux x y aluIn w wide (by omega)) (after_resAux x y aluIn w wide (by omega))
    (after_rAux x y aluIn w wide (by omega)) outputs.1 outputs.2

theorem delta_settled (wide : 2 ≤ n) :
    (settled x y aluIn).delta x y aluIn = settled x y aluIn := by
  have last := after_succ x y aluIn (settled x y aluIn) (n + 7)
  rwa [after_settled x y aluIn _ wide le_rfl, after_settled x y aluIn _ wide (Nat.le_succ _),
    eq_comm] at last

end Settles

/-- Zero has no event while the operands change from `x` and `y` to `x'` and `y'`. -/
def ZeroSteady (x y x' y' : BitVec n) (aluIn : AluInput) : Prop :=
  ∀ k ≤ n + 7, ((settled x y aluIn).after x' y' aluIn k).zero = (settled x y aluIn).zero

instance (x y x' y' : BitVec n) (aluIn : AluInput) : Decidable (ZeroSteady x y x' y' aluIn) :=
  inferInstanceAs (Decidable (∀ k ≤ n + 7, _))

variable {x y aluIn} {x' y' : BitVec n}

theorem ZeroSteady.always (wide : 2 ≤ n) (steady : ZeroSteady x y x' y' aluIn) (k : Nat) :
    ((settled x y aluIn).after x' y' aluIn k).zero = (settled x y aluIn).zero := by
  by_cases late : n + 7 ≤ k
  · rw [after_settled x' y' aluIn _ wide late, ← after_settled x' y' aluIn _ wide le_rfl]
    exact steady _ le_rfl
  · exact steady k (by omega)

theorem after_same (wide : 2 ≤ n) (k : Nat) :
    (settled x y aluIn).after x y aluIn k = settled x y aluIn :=
  Function.iterate_fixed (delta_settled x y aluIn wide) k

/-- Operands that stay as they are move nothing. -/
theorem zeroSteady_same (wide : 2 ≤ n) : ZeroSteady x y x y aluIn := by
  intro k _
  rw [after_same wide]

/-- Three delta cycles lie between a signal of the stages and Zero. -/
theorem zero_early (wide : 2 ≤ n) {k : Nat} (early : k ≤ 3) :
    ((settled x y aluIn).after x' y' aluIn k).zero = (settled x y aluIn).zero := by
  have fixed := delta_settled x y aluIn wide
  have zero := congrArg AluWires.zero fixed
  have rAux := congrArg AluWires.rAux fixed
  have resAux := congrArg AluWires.resAux fixed
  simp only [delta] at zero rAux resAux
  interval_cases k
  · rfl
  · exact zero
  · simp only [after, Function.iterate_succ_apply', Function.iterate_zero_apply, delta, rAux, zero]
  · simp only [after, Function.iterate_succ_apply', Function.iterate_zero_apply, delta, rAux, zero,
      muxResAlu] at resAux ⊢
    simp only [resAux, zero]

/-- 0 + 5 becomes 5 + 5, and the old carries cancel the new bits for a moment. -/
example : ¬ ZeroSteady 0#32 5#32 5#32 5#32 { op0 := false, op1 := true, op2 := false, op3 := false } :=
  fun steady => absurd (steady 5 (by decide)) (by decide +kernel)

/-- The lowest bit of a sum does not wait for a carry. -/
theorem after_r_low (w : AluWires n) (wide : 2 ≤ n) (op3 : aluIn.op3 = false)
    (op1 : aluIn.op1 = true) (op0 : aluIn.op0 = false) {k : Nat} (late : 6 ≤ k) :
    (w.after x y aluIn k).r.getLsbD 0 = (alu x y aluIn).r.getLsbD 0 := by
  obtain ⟨k, rfl⟩ := Nat.exists_eq_add_of_le' (show 4 ≤ k by omega)
  have bound : 0 < n := by omega
  obtain ⟨-, p, -, -⟩ := after_inputs x y aluIn w (show 2 ≤ k by omega)
  have sum := aluStage_set x y aluIn bound false
  rw [aluStage, alu1Bit_set, ← Ripple.operand_getLsbD aluIn.op2 y bound] at sum
  have result : (alu x y aluIn).r = if aluIn.op2 then x - y else x + y := by
    rw [alu_r x y aluIn wide op3, op1, op0]
  rw [result, ← sum, after_succ, after_succ, after_succ, after_succ]
  simp only [delta, op3, op1, op0, muxResAlu, BitVec.getLsbD_xor, cin_getLsbD _ _ bound, p, settled,
    cinAux, Bool.false_eq_true, Bool.true_eq_false, and_true, false_and, if_false, if_true,
    Bool.xor_assoc]

end AluWires

end Tdt4255
