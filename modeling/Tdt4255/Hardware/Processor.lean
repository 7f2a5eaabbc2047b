import Tdt4255.Hardware.Storage

/-! `processor`: the wires of the data path and its clocked processes. -/

namespace Tdt4255

/-- Everything `processor` keeps between events. The last two are signals
that their processes assign only when re-evaluated. -/
structure Processor where
  state : AluState
  pcOutput : Word
  regs : RegisterFile
  branchingMuxOutput : Word
  pcInput : Word

/-- The output ports. -/
structure ProcessorOut where
  imemAddress : Word
  dmemAddress : Word
  dmemAddressWr : Word
  dmemDataOut : Word
  dmemWriteEnable : StdLogic

def aluAddInputSignal : AluInput := { op0 := false, op1 := true, op2 := false, op3 := false }

/-- Declared `(0 to 31)` with index 31 set, so it enters the ALU as one. -/
def pcIncrementSignal : Word := 1

namespace Processor

section Wires

variable (p : Processor) (imemDataIn dmemDataIn : Word)

def control : ControlOut := signalSetup (opCode imemDataIn) p.state

def signExtenderOutput : Word := signExtender 32 (immediate imemDataIn)

def registerRsOutput : Word := registerFileRead p.regs (rsField imemDataIn)

def registerRtOutput : Word := registerFileRead p.regs (rtField imemDataIn)

def mainAluX : Word := p.registerRsOutput imemDataIn

/-- `ALUSource_proc`. -/
def mainAluY : Word :=
  if (p.control imemDataIn).aluSrc = true then signExtenderOutput imemDataIn
  else p.registerRtOutput imemDataIn

def mainAluInput : AluInput := aluLogic (funcField imemDataIn) (p.control imemDataIn).aluOp

/-- `ALU_main_unit`. -/
def mainAlu : AluOut 32 :=
  alu (p.mainAluX imemDataIn) (p.mainAluY imemDataIn) (p.mainAluInput imemDataIn)

/-- `PC_incrementer`. -/
def aluPcOutput : Word := (alu pcIncrementSignal p.pcOutput aluAddInputSignal).r

/-- `branching_alu`. -/
def branchingAluOutput : Word :=
  (alu (signExtenderOutput imemDataIn) p.aluPcOutput aluAddInputSignal).r

/-- `write_reg_proc`. -/
def writeRegAddr : BitVec 5 :=
  if (p.control imemDataIn).regDst = true then rdField imemDataIn else rtField imemDataIn

/-- `write_data_proc`. -/
def registerWriteData : Word :=
  if (p.control imemDataIn).memToReg = true then dmemDataIn else (p.mainAlu imemDataIn).r

/-- One evaluation of `branching_control_process`. -/
def branchingControlProcess : Word :=
  if (p.control imemDataIn).branch = true ∧ (p.mainAlu imemDataIn).flags.zero = true then
    p.branchingAluOutput imemDataIn
  else p.aluPcOutput

/-- One evaluation of `JumpControlProcess`. The outer test on CLK always
succeeds on a driven clock. -/
def jumpControlProcess : Word :=
  if (p.control imemDataIn).jumpEnb = true then
    p.aluPcOutput.extractLsb' 26 6 ++ targetField imemDataIn
  else p.branchingMuxOutput

def out : ProcessorOut where
  imemAddress := p.pcOutput
  dmemAddress := (p.mainAlu imemDataIn).r
  dmemAddressWr := (p.mainAlu imemDataIn).r
  dmemDataOut := p.registerRtOutput imemDataIn
  dmemWriteEnable := (p.control imemDataIn).memWrite

/-- The processes with CLK in their sensitivity list, at a rising edge. All
of them read the values from before the edge. -/
def risingEdge : Processor where
  state := aluStateNext (opCode imemDataIn) p.state
  pcOutput := p.pcOutput
  regs := p.regs
  branchingMuxOutput := p.branchingControlProcess imemDataIn
  pcInput := p.jumpControlProcess imemDataIn

/-- The same processes at a falling edge. -/
def fallingEdge (reset : StdLogic) : Processor where
  state := p.state
  pcOutput := programCounter reset (p.control imemDataIn).pcWriteEnb p.pcInput p.pcOutput
  regs :=
    registerFileWrite (p.control imemDataIn).regWrite (p.writeRegAddr imemDataIn)
      (p.registerWriteData imemDataIn dmemDataIn) p.regs
  branchingMuxOutput := p.branchingControlProcess imemDataIn
  pcInput := p.jumpControlProcess imemDataIn

end Wires

variable (p : Processor) (imemDataIn dmemDataIn : Word)

@[simp] theorem aluPcOutput_eq : p.aluPcOutput = p.pcOutput + 1#32 := by
  rw [aluPcOutput, alu_r _ _ _ (by decide) rfl]
  exact BitVec.add_comm _ _

@[simp] theorem signExtenderOutput_eq :
    signExtenderOutput imemDataIn = (immediate imemDataIn).signExtend 32 :=
  signExtender_eq _

@[simp] theorem branchingAluOutput_eq :
    p.branchingAluOutput imemDataIn = p.pcOutput + 1#32 + (immediate imemDataIn).signExtend 32 := by
  rw [branchingAluOutput, alu_r _ _ _ (by decide) rfl, aluPcOutput_eq, signExtenderOutput_eq]
  exact BitVec.add_comm _ _

end Processor

end Tdt4255
