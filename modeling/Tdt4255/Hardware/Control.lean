import Tdt4255.Hardware.Alu

/-! `control_unit` and `ALU_control`: the state machine and both decoders. -/

namespace Tdt4255

section Fields

variable (w : Word)

/-! The slices of an instruction word that the port maps name. -/

def opCode : BitVec 6 := w.extractLsb' 26 6
def rsField : BitVec 5 := w.extractLsb' 21 5
def rtField : BitVec 5 := w.extractLsb' 16 5
def rdField : BitVec 5 := w.extractLsb' 11 5
def funcField : BitVec 6 := w.extractLsb' 0 6
def immediate : BitVec 16 := w.extractLsb' 0 16
def targetField : BitVec 26 := w.extractLsb' 0 26

end Fields

inductive AluState
  | aluFetch
  | aluExe
  | aluStall
  deriving DecidableEq, Repr

/-- `ALU_STATE`, at a rising edge. Neither RESET nor proc_enable is read. -/
def aluStateNext (opCode : BitVec 6) : AluState → AluState
  | .aluFetch => .aluExe
  | .aluExe =>
    if opCode = 0b000000#6 ∨ opCode = 0b000100#6 ∨ opCode = 0b001111#6 then .aluFetch else .aluStall
  | .aluStall => .aluFetch

structure ControlOut where
  aluOp : AluOpInput
  regDst : StdLogic
  branch : StdLogic
  memRead : StdLogic
  memToReg : StdLogic
  memWrite : StdLogic
  aluSrc : StdLogic
  regWrite : StdLogic
  pcWriteEnb : StdLogic
  jumpEnb : StdLogic
  deriving DecidableEq, Repr

def ControlOut.default : ControlOut where
  aluOp := { op0 := false, op1 := false, op2 := false }
  regDst := false
  branch := false
  memRead := false
  memToReg := false
  memWrite := false
  aluSrc := false
  regWrite := false
  pcWriteEnb := false
  jumpEnb := false

def signalSetup (opCode : BitVec 6) (state : AluState) : ControlOut :=
  match state with
  | .aluFetch => { ControlOut.default with pcWriteEnb := true }
  | .aluExe =>
    if opCode = 0b001111#6 then
      { ControlOut.default with
        aluSrc := true
        aluOp := { op0 := true, op1 := false, op2 := false }
        regWrite := true }
    else if opCode = 0b000000#6 then
      { ControlOut.default with regDst := true, regWrite := true }
    else if opCode = 0b000100#6 then
      { ControlOut.default with
        branch := true
        aluOp := { op0 := false, op1 := true, op2 := true } }
    else if opCode = 0b100011#6 then
      { ControlOut.default with
        memRead := true
        aluSrc := true
        memToReg := true
        aluOp := { op0 := true, op1 := false, op2 := false } }
    else if opCode = 0b101011#6 then
      { ControlOut.default with
        aluSrc := true
        aluOp := { op0 := true, op1 := false, op2 := false } }
    else if opCode = 0b000010#6 then
      { ControlOut.default with jumpEnb := true }
    else ControlOut.default
  | .aluStall =>
    if opCode = 0b100011#6 then
      { ControlOut.default with regWrite := true, memToReg := true, memRead := true }
    else if opCode = 0b101011#6 then
      { ControlOut.default with memWrite := true }
    else ControlOut.default

def rInstr : AluOpInput := { op0 := false, op1 := false, op2 := false }
def beqInstr : AluOpInput := { op0 := false, op1 := true, op2 := true }
def lwSwInstr : AluOpInput := { op0 := true, op1 := false, op2 := false }

/-! Every control signal in closed form. -/

section Signals

variable (op : BitVec 6) (state : AluState)

theorem signalSetup_eq : signalSetup op state =
    { aluOp :=
        if state = .aluExe ∧ (op = 0b001111#6 ∨ op = 0b100011#6 ∨ op = 0b101011#6) then lwSwInstr
        else if state = .aluExe ∧ op = 0b000100#6 then beqInstr
        else rInstr
      regDst := decide (state = .aluExe ∧ op = 0b000000#6)
      branch := decide (state = .aluExe ∧ op = 0b000100#6)
      memRead := decide (state ≠ .aluFetch ∧ op = 0b100011#6)
      memToReg := decide (state ≠ .aluFetch ∧ op = 0b100011#6)
      memWrite := decide (state = .aluStall ∧ op = 0b101011#6)
      aluSrc :=
        decide (state = .aluExe ∧ (op = 0b001111#6 ∨ op = 0b100011#6 ∨ op = 0b101011#6))
      regWrite :=
        decide (state = .aluExe ∧ (op = 0b000000#6 ∨ op = 0b001111#6) ∨
          state = .aluStall ∧ op = 0b100011#6)
      pcWriteEnb := decide (state = .aluFetch)
      jumpEnb := decide (state = .aluExe ∧ op = 0b000010#6) } := by
  cases state with
  | aluFetch => simp [signalSetup, ControlOut.default, rInstr]
  | aluExe =>
    by_cases imm : op = 0b001111#6
    · rw [imm]
      rfl
    by_cases rtype : op = 0b000000#6
    · rw [rtype]
      rfl
    by_cases branch : op = 0b000100#6
    · rw [branch]
      rfl
    by_cases load : op = 0b100011#6
    · rw [load]
      rfl
    by_cases store : op = 0b101011#6
    · rw [store]
      rfl
    by_cases jump : op = 0b000010#6
    · rw [jump]
      rfl
    simp [signalSetup, imm, rtype, branch, load, store, jump, ControlOut.default, rInstr]
  | aluStall =>
    by_cases load : op = 0b100011#6
    · rw [load]
      rfl
    by_cases store : op = 0b101011#6
    · rw [store]
      rfl
    simp [signalSetup, load, store, ControlOut.default, rInstr]

theorem signalSetup_aluOp :
    (signalSetup op state).aluOp =
      if state = .aluExe ∧ (op = 0b001111#6 ∨ op = 0b100011#6 ∨ op = 0b101011#6) then lwSwInstr
      else if state = .aluExe ∧ op = 0b000100#6 then beqInstr
      else rInstr := by
  rw [signalSetup_eq]

theorem signalSetup_regDst :
    (signalSetup op state).regDst = decide (state = .aluExe ∧ op = 0b000000#6) := by
  rw [signalSetup_eq]

theorem signalSetup_branch :
    (signalSetup op state).branch = decide (state = .aluExe ∧ op = 0b000100#6) := by
  rw [signalSetup_eq]

theorem signalSetup_memToReg :
    (signalSetup op state).memToReg = decide (state ≠ .aluFetch ∧ op = 0b100011#6) := by
  rw [signalSetup_eq]

theorem signalSetup_memWrite :
    (signalSetup op state).memWrite = decide (state = .aluStall ∧ op = 0b101011#6) := by
  rw [signalSetup_eq]

theorem signalSetup_aluSrc :
    (signalSetup op state).aluSrc =
      decide (state = .aluExe ∧ (op = 0b001111#6 ∨ op = 0b100011#6 ∨ op = 0b101011#6)) := by
  rw [signalSetup_eq]

theorem signalSetup_regWrite :
    (signalSetup op state).regWrite =
      decide (state = .aluExe ∧ (op = 0b000000#6 ∨ op = 0b001111#6) ∨
        state = .aluStall ∧ op = 0b100011#6) := by
  rw [signalSetup_eq]

theorem signalSetup_pcWriteEnb : (signalSetup op state).pcWriteEnb = decide (state = .aluFetch) := by
  rw [signalSetup_eq]

theorem signalSetup_jumpEnb :
    (signalSetup op state).jumpEnb = decide (state = .aluExe ∧ op = 0b000010#6) := by
  rw [signalSetup_eq]

end Signals

/-- `ALU_LOGIC`. Every branch leaves Op3 at its default. -/
def aluLogic (func : BitVec 6) (aluOp : AluOpInput) : AluInput :=
  let aluFunc : AluInput := { op0 := false, op1 := false, op2 := false, op3 := false }
  if aluOp = rInstr then
    if func = 0b100000#6 then { aluFunc with op1 := true }
    else if func = 0b100010#6 then { aluFunc with op1 := true, op2 := true }
    else if func = 0b101010#6 then { aluFunc with op0 := true, op1 := true, op2 := true }
    else if func = 0b100100#6 then aluFunc
    else if func = 0b100101#6 then { aluFunc with op0 := true }
    else aluFunc
  else if aluOp = beqInstr then { aluFunc with op1 := true, op2 := true }
  else if aluOp = lwSwInstr then { aluFunc with op1 := true }
  else aluFunc

@[simp] theorem aluLogic_op3 (func : BitVec 6) (aluOp : AluOpInput) :
    (aluLogic func aluOp).op3 = false := by
  unfold aluLogic
  split_ifs <;> rfl

/-- The operation an R-type function code selects: undefined codes fall back
to the conjunction. -/
def funcResult (func : BitVec 6) (x y : Word) : Word :=
  if func = 0b100000#6 then x + y
  else if func = 0b100010#6 then x - y
  else if func = 0b101010#6 then (if (x - y).msb then 1 else 0)
  else if func = 0b100101#6 then x ||| y
  else x &&& y

theorem alu_rInstr (func : BitVec 6) (x y : Word) :
    (alu x y (aluLogic func rInstr)).r = funcResult func x y := by
  rw [alu_r x y _ (by decide) (aluLogic_op3 _ _)]
  unfold aluLogic funcResult
  simp only [if_true]
  split_ifs <;> simp_all [Ripple.operand]

theorem alu_lwSwInstr (func : BitVec 6) (x y : Word) :
    (alu x y (aluLogic func lwSwInstr)).r = x + y := by
  rw [alu_r x y _ (by decide) (aluLogic_op3 _ _)]
  rfl

theorem alu_beqInstr (func : BitVec 6) (x y : Word) :
    (alu x y (aluLogic func beqInstr)).r = x - y := by
  rw [alu_r x y _ (by decide) (aluLogic_op3 _ _)]
  rfl

theorem alu_beqInstr_zero (func : BitVec 6) (x y : Word) :
    (alu x y (aluLogic func beqInstr)).flags.zero = decide (x = y) := by
  rw [alu_zero _ x y (aluLogic_op3 _ _), alu_beqInstr]
  exact decide_eq_decide.mpr sub_eq_zero

end Tdt4255
