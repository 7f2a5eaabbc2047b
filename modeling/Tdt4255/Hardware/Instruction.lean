import Tdt4255.Hardware.Edges
import Tdt4255.Isa

/-! One instruction: the two or three clock periods between boundaries. -/

namespace Tdt4255

theorem registerFileRead_write_eq (rw : StdLogic) (rdAddr : BitVec 5) (writeData : Word)
    (regs : RegisterFile) :
    registerFileRead (registerFileWrite rw rdAddr writeData regs) =
      if rw = true then setReg (registerFileRead regs) rdAddr writeData
      else registerFileRead regs := by
  funext i
  rw [registerFileRead_write]
  cases rw <;> simp [setReg]

/-- `com` leaves the data memory to the processor and the program alone. -/
structure ComOut.Running (c : ComOut) : Prop where
  enabled : c.processorEnable = true
  noLoad : (imemWriteEnableMux c.writeImem c.writeEnable).imem = false

namespace Machine

def visible (s : Machine) : Visible where
  pc := s.proc.pcOutput
  regs := registerFileRead s.proc.regs
  dmem := s.mems.dmem.mem

/-- Just after the rising edge that takes the control unit into `ALU_EXE`. -/
structure Boundary (s : Machine) : Prop where
  state : s.proc.state = .aluExe
  fetched : s.mems.imem.addressReg = s.proc.pcOutput

section Wires

variable (s : Machine)

def rsValue : Word := registerFileRead s.proc.regs (rsField s.imemDataIn)
def rtValue : Word := registerFileRead s.proc.regs (rtField s.imemDataIn)

theorem control_eq : s.control = signalSetup (opCode s.imemDataIn) s.proc.state := rfl

/-- The main ALU adds for the three immediate instructions, subtracts for
`beq`, and otherwise obeys the function code, meaningful or not. -/
theorem mainAlu_r :
    s.mainAlu.r =
      if s.proc.state = .aluExe ∧ (opCode s.imemDataIn = 0b001111#6 ∨
          opCode s.imemDataIn = 0b100011#6 ∨ opCode s.imemDataIn = 0b101011#6) then
        s.rsValue + (immediate s.imemDataIn).signExtend 32
      else if s.proc.state = .aluExe ∧ opCode s.imemDataIn = 0b000100#6 then s.rsValue - s.rtValue
      else funcResult (funcField s.imemDataIn) s.rsValue s.rtValue := by
  rw [mainAlu, Processor.mainAlu, Processor.mainAluInput, Processor.mainAluY, Processor.control,
    signalSetup_aluOp, signalSetup_aluSrc, Processor.signExtenderOutput_eq]
  simp only [decide_eq_true_eq]
  split_ifs
  · exact alu_lwSwInstr _ _ _
  · exact alu_beqInstr _ _ _
  · exact alu_rInstr _ _ _

theorem mainAlu_zero (state : s.proc.state = .aluExe) (op : opCode s.imemDataIn = 0b000100#6) :
    s.mainAlu.flags.zero = decide (s.rsValue = s.rtValue) := by
  rw [mainAlu, Processor.mainAlu, Processor.mainAluInput, Processor.mainAluY, Processor.control,
    signalSetup_aluOp, signalSetup_aluSrc]
  simp only [state, op]
  exact alu_beqInstr_zero _ _ _

/-- The next program counter that `branching_control_process` selects. -/
theorem branchingControlProcess_exe (state : s.proc.state = .aluExe) :
    s.branchingControlProcess =
      if opCode s.imemDataIn = 0b000100#6 ∧ s.rsValue = s.rtValue then
        s.proc.pcOutput + 1#32 + (immediate s.imemDataIn).signExtend 32
      else s.proc.pcOutput + 1#32 := by
  rw [branchingControlProcess_eq, control_eq, signalSetup_branch, state]
  by_cases op : opCode s.imemDataIn = 0b000100#6
  · simp [op, mainAlu_zero s state op]
  · simp [op]

theorem branchingControlProcess_idle (state : s.proc.state ≠ .aluExe) :
    s.branchingControlProcess = s.proc.pcOutput + 1#32 := by
  rw [branchingControlProcess_eq, control_eq, signalSetup_branch]
  simp [state]

theorem jumpControlProcess_idle (state : s.proc.state ≠ .aluExe) :
    s.jumpControlProcess = s.proc.branchingMuxOutput := by
  rw [jumpControlProcess_eq, control_eq, signalSetup_jumpEnb]
  simp [state]

end Wires

section Period

variable (reading : Reading) (s : Machine) (c : ComOut)

@[simp] theorem period_state (reset : StdLogic) :
    (s.period reading reset c).proc.state = aluStateNext (opCode s.imemDataIn) s.proc.state := by
  simp [period]

theorem period_imemAddress (reset : StdLogic) :
    (s.period reading reset c).mems.imem.addressReg = (s.period reading reset c).proc.pcOutput := by
  simp only [period, risingEdge_mems, risingEdge_pcOutput]
  rfl

theorem period_pcOutput :
    (s.period reading false c).proc.pcOutput =
      if s.proc.state = .aluFetch then s.proc.pcInput else s.proc.pcOutput := by
  simp [period, programCounter, control_eq, signalSetup_pcWriteEnb]

theorem period_regs :
    registerFileRead (s.period reading false c).proc.regs =
      if s.proc.state = .aluExe ∧ opCode s.imemDataIn = 0b000000#6 then
        setReg (registerFileRead s.proc.regs) (rdField s.imemDataIn) s.mainAlu.r
      else if s.proc.state = .aluExe ∧ opCode s.imemDataIn = 0b001111#6 then
        setReg (registerFileRead s.proc.regs) (rtField s.imemDataIn) s.mainAlu.r
      else if s.proc.state = .aluStall ∧ opCode s.imemDataIn = 0b100011#6 then
        setReg (registerFileRead s.proc.regs) (rtField s.imemDataIn) s.dmemDataIn
      else registerFileRead s.proc.regs := by
  simp only [period, risingEdge_regs, fallingEdge_regs, registerFileRead_write_eq, control_eq,
    signalSetup_regWrite, Processor.writeRegAddr, Processor.registerWriteData, Processor.control,
    signalSetup_regDst, signalSetup_memToReg, decide_eq_true_eq]
  cases state : s.proc.state with
  | aluFetch => simp
  | aluExe =>
    by_cases r : opCode s.imemDataIn = 0b000000#6
    · simp [r, mainAlu]
    · by_cases imm : opCode s.imemDataIn = 0b001111#6
      · simp [imm, mainAlu]
      · simp [r, imm]
  | aluStall =>
    by_cases load : opCode s.imemDataIn = 0b100011#6
    · simp [load]
    · simp [load]

variable {c}

/-- Only `ALU_STALL` stores, and no register moves in that period. -/
theorem period_dmem_mem_running (running : c.Running) :
    (s.period reading false c).mems.dmem.mem =
      if s.proc.state = .aluStall ∧ opCode s.imemDataIn = 0b101011#6 then
        Function.update s.mems.dmem.mem (s.mainAlu.r.setWidth 8) s.rtValue
      else s.mems.dmem.mem := by
  have write : (s.fallingEdge reading false).control.memWrite = _ :=
    (congrArg ControlOut.memWrite (fallingEdge_control reading s false)).trans
      (signalSetup_memWrite (opCode s.imemDataIn) s.proc.state)
  by_cases store : s.proc.state = .aluStall ∧ opCode s.imemDataIn = 0b101011#6
  · have quiet : s.control.regWrite = false := by
      rw [control_eq, signalSetup_regWrite]
      simp [store.1, store.2]
    have alu := fallingEdge_mainAlu reading s false quiet
    have value : (s.fallingEdge reading false).rtValue = s.rtValue := by
      simp [rtValue, quiet, registerFileWrite]
    rw [decide_eq_true store] at write
    rw [if_pos store, ← alu, ← value]
    simp only [period, risingEdge_mems, Memories.risingEdge, dmemPorts, dmemMux, running.enabled,
      if_true, Memory.risingEdge, fallingEdge_mems]
    exact if_pos write
  · rw [decide_eq_false store] at write
    rw [if_neg store]
    simp only [period, risingEdge_mems, Memories.risingEdge, dmemPorts, dmemMux, running.enabled,
      if_true, Memory.risingEdge, fallingEdge_mems]
    exact if_neg (ne_true_of_eq_false write)

theorem period_addressReg_running (running : c.Running) (quiet : s.control.regWrite = false) :
    (s.period reading false c).mems.dmem.addressReg = s.mainAlu.r := by
  rw [← fallingEdge_mainAlu reading s false quiet]
  simp only [period, risingEdge_mems, Memories.risingEdge, dmemPorts, dmemMux, running.enabled,
    if_true, Memory.risingEdge]
  rfl

def latchedNext : Reading → Machine → Word
  | .eventDriven, s => s.branchingControlProcess
  | .combinational, s => s.proc.pcOutput + 1#32

/-- Entering `ALU_FETCH`, a simulator carries over to `pc_input` what the
falling edge has left in the other multiplexer signal. -/
theorem risingEdge_pcInput_enters (enters : (s.risingEdge .eventDriven c).proc.state = .aluFetch) :
    (s.risingEdge .eventDriven c).proc.pcInput = s.proc.branchingMuxOutput := by
  have low : (s.risingEdge .eventDriven c).control.jumpEnb = false := by
    rw [control_eq, signalSetup_jumpEnb, enters]
    rfl
  have before : s.control.jumpEnb = false := by
    rw [control_eq, signalSetup_jumpEnb, decide_eq_false]
    rintro ⟨state, op⟩
    simp [state, op, aluStateNext] at enters
  rw [risingEdge_pcInput, low, before]
  simp only [ne_eq, not_true, if_false]
  rw [jumpControlProcess_eq, before]
  rfl

/-- In a simulator that is what was selected at the falling edge; the
multiplexers of the hardware have already gone back. -/
theorem period_pcInput (enters : (s.period reading false c).proc.state = .aluFetch) :
    (s.period reading false c).proc.pcInput = latchedNext reading s := by
  have fetching : s.proc.state ≠ .aluFetch := by
    intro state
    simp [state, aluStateNext] at enters
  cases reading with
  | eventDriven =>
    exact (risingEdge_pcInput_enters _ enters).trans (fallingEdge_branchingMuxOutput_running s)
  | combinational =>
    have idle : (s.period .combinational false c).proc.state ≠ .aluExe := by
      rw [enters]
      simp
    have pc := period_pcOutput .combinational s c
    rw [if_neg fetching] at pc
    simp only [period] at idle pc ⊢
    rw [risingEdge_combinational_pcInput, jumpControlProcess_idle _ idle,
      risingEdge_combinational_branchingMuxOutput, branchingControlProcess_idle _ idle, pc,
      latchedNext]

end Period

end Machine

end Tdt4255
