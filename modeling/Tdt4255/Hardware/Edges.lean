import Tdt4255.Hardware.Toplevel

/-! What one clock edge does to each state element. -/

namespace Tdt4255.Machine

variable (reading : Reading) (pre post s : Machine) (reset : StdLogic) (c : ComOut)

/-! Settling touches the two multiplexer signals only. -/

@[simp] theorem settle_state : (settle reading pre post).proc.state = post.proc.state := by
  cases reading <;> rfl

@[simp] theorem settle_pcOutput : (settle reading pre post).proc.pcOutput = post.proc.pcOutput := by
  cases reading <;> rfl

@[simp] theorem settle_regs : (settle reading pre post).proc.regs = post.proc.regs := by
  cases reading <;> rfl

@[simp] theorem settle_mems : (settle reading pre post).mems = post.mems := by
  cases reading <;> rfl

@[simp] theorem fallingEdge_state : (s.fallingEdge reading reset).proc.state = s.proc.state := by
  simp [fallingEdge, Processor.fallingEdge]

@[simp] theorem fallingEdge_pcOutput :
    (s.fallingEdge reading reset).proc.pcOutput =
      programCounter reset s.control.pcWriteEnb s.proc.pcInput s.proc.pcOutput := by
  simp [fallingEdge, Processor.fallingEdge, control]

@[simp] theorem fallingEdge_regs :
    (s.fallingEdge reading reset).proc.regs =
      registerFileWrite s.control.regWrite (s.proc.writeRegAddr s.imemDataIn)
        (s.proc.registerWriteData s.imemDataIn s.dmemDataIn) s.proc.regs := by
  simp [fallingEdge, Processor.fallingEdge, control]

@[simp] theorem fallingEdge_mems : (s.fallingEdge reading reset).mems = s.mems := by
  simp [fallingEdge]

@[simp] theorem risingEdge_state :
    (s.risingEdge reading c).proc.state = aluStateNext (opCode s.imemDataIn) s.proc.state := by
  simp [risingEdge, Processor.risingEdge]

@[simp] theorem risingEdge_pcOutput :
    (s.risingEdge reading c).proc.pcOutput = s.proc.pcOutput := by
  simp [risingEdge, Processor.risingEdge]

@[simp] theorem risingEdge_regs : (s.risingEdge reading c).proc.regs = s.proc.regs := by
  simp [risingEdge, Processor.risingEdge]

@[simp] theorem risingEdge_mems :
    (s.risingEdge reading c).mems = s.mems.risingEdge c s.out := by
  simp [risingEdge]

/-! The wires are functions of the instruction word, the control state and
the register file. -/

theorem control_congr {s t : Machine} (word : s.imemDataIn = t.imemDataIn)
    (state : s.proc.state = t.proc.state) : s.control = t.control := by
  rw [control, control, Processor.control, Processor.control, word, state]

theorem mainAlu_congr {s t : Machine} (word : s.imemDataIn = t.imemDataIn)
    (state : s.proc.state = t.proc.state) (regs : s.proc.regs = t.proc.regs) :
    s.mainAlu = t.mainAlu := by
  unfold mainAlu Processor.mainAlu Processor.mainAluX Processor.mainAluY Processor.mainAluInput
    Processor.registerRsOutput Processor.registerRtOutput Processor.control
  rw [word, state, regs]

@[simp] theorem fallingEdge_imemDataIn :
    (s.fallingEdge reading reset).imemDataIn = s.imemDataIn := by
  simp [imemDataIn]

@[simp] theorem fallingEdge_dmemDataIn :
    (s.fallingEdge reading reset).dmemDataIn = s.dmemDataIn := by
  simp [dmemDataIn]

@[simp] theorem fallingEdge_control : (s.fallingEdge reading reset).control = s.control :=
  control_congr (by simp) (by simp)

/-! The two multiplexers, in arithmetic. -/

theorem branchingControlProcess_eq :
    s.branchingControlProcess =
      if s.control.branch = true ∧ s.mainAlu.flags.zero = true then
        s.proc.pcOutput + 1#32 + (immediate s.imemDataIn).signExtend 32
      else s.proc.pcOutput + 1#32 := by
  rw [branchingControlProcess, Processor.branchingControlProcess, Processor.branchingAluOutput_eq,
    Processor.aluPcOutput_eq]
  rfl

theorem jumpControlProcess_eq :
    s.jumpControlProcess =
      if s.control.jumpEnb = true then
        ((s.proc.pcOutput + 1#32).extractLsb' 26 6 ++ targetField s.imemDataIn : BitVec (6 + 26))
      else s.proc.branchingMuxOutput := by
  rw [jumpControlProcess, Processor.jumpControlProcess, Processor.aluPcOutput_eq]
  rfl

/-! Settling moves no wire, so the events may be read off the settled state. -/

@[simp] theorem settle_imemDataIn : (settle reading pre post).imemDataIn = post.imemDataIn := by
  simp [imemDataIn]

@[simp] theorem settle_control : (settle reading pre post).control = post.control :=
  control_congr (by simp) (by simp)

@[simp] theorem settle_mainAlu : (settle reading pre post).mainAlu = post.mainAlu :=
  mainAlu_congr (by simp) (by simp) (by simp)

@[simp] theorem settle_branchingControlProcess :
    (settle reading pre post).branchingControlProcess = post.branchingControlProcess := by
  simp [branchingControlProcess_eq]

theorem fallingEdge_mainAlu (quiet : s.control.regWrite = false) :
    (s.fallingEdge reading reset).mainAlu = s.mainAlu :=
  mainAlu_congr (by simp) (by simp) (by simp [quiet, registerFileWrite])

/-! The two multiplexer signals after an edge, as a simulator runs them. -/

theorem fallingEdge_branchingMuxOutput :
    (s.fallingEdge .eventDriven reset).proc.branchingMuxOutput =
      if s.mainAlu.flags.zero ≠ (s.fallingEdge .eventDriven reset).mainAlu.flags.zero then
        (s.fallingEdge .eventDriven reset).branchingControlProcess
      else s.branchingControlProcess := by
  have sameControl := fallingEdge_control .eventDriven s reset
  unfold fallingEdge at sameControl ⊢
  rw [settle_control] at sameControl
  rw [settle_mainAlu, settle_branchingControlProcess]
  simp only [settle, branchEvent, sameControl, ne_eq, not_true, false_or]
  rfl

theorem settle_pcInput :
    (settle .eventDriven pre post).proc.pcInput =
      if pre.control.jumpEnb ≠ post.control.jumpEnb then post.jumpControlProcess
      else post.proc.pcInput := rfl

theorem risingEdge_pcInput :
    (s.risingEdge .eventDriven c).proc.pcInput =
      if s.control.jumpEnb ≠ (s.risingEdge .eventDriven c).control.jumpEnb then
        if (s.risingEdge .eventDriven c).control.jumpEnb = true then
          ((s.proc.pcOutput + 1#32).extractLsb' 26 6 ++
            targetField (s.risingEdge .eventDriven c).imemDataIn : BitVec (6 + 26))
        else s.branchingControlProcess
      else s.jumpControlProcess := by
  rw [risingEdge, settle_pcInput, settle_control, settle_imemDataIn, jumpControlProcess_eq]
  congr 1

/-- No instruction writes a register while it branches or while the counter
is written. -/
theorem control_of_regWrite (written : s.control.regWrite = true) :
    s.control.branch = false ∧ s.control.pcWriteEnb = false := by
  have state := signalSetup_regWrite (opCode s.imemDataIn) s.proc.state
  change s.control.regWrite = _ at state
  rw [written] at state
  have branch := signalSetup_branch (opCode s.imemDataIn) s.proc.state
  have write := signalSetup_pcWriteEnb (opCode s.imemDataIn) s.proc.state
  change s.control.branch = _ at branch
  change s.control.pcWriteEnb = _ at write
  rw [branch, write]
  revert state
  cases s.proc.state <;> simp +contextual
  rintro (h | h) <;> simp [h]

/-- Only a register write moves Zero at a falling edge. -/
theorem control_of_zeroEvent
    (event : s.mainAlu.flags.zero ≠ (s.fallingEdge reading reset).mainAlu.flags.zero) :
    s.control.branch = false ∧ s.control.pcWriteEnb = false := by
  refine control_of_regWrite s ?_
  by_contra quiet
  exact event (by rw [fallingEdge_mainAlu reading s reset (by simpa using quiet)])

/-- Outside reset the falling edge always leaves the value selected before
it: where Zero moves, a re-evaluation selects the same incremented counter. -/
theorem fallingEdge_branchingMuxOutput_running :
    (s.fallingEdge .eventDriven false).proc.branchingMuxOutput = s.branchingControlProcess := by
  rw [fallingEdge_branchingMuxOutput]
  split_ifs with event
  · obtain ⟨low, held⟩ := control_of_zeroEvent .eventDriven s false event
    simp [branchingControlProcess_eq, low, held, programCounter]
  · rfl

/-! The same two signals as multiplexers. -/

theorem settle_combinational_pcInput :
    (settle .combinational pre post).proc.pcInput =
      (settle .combinational pre post).jumpControlProcess := rfl

theorem settle_combinational_branchingMuxOutput :
    (settle .combinational pre post).proc.branchingMuxOutput =
      (settle .combinational pre post).branchingControlProcess := by
  rw [settle_branchingControlProcess]
  rfl

theorem risingEdge_combinational_pcInput :
    (s.risingEdge .combinational c).proc.pcInput =
      (s.risingEdge .combinational c).jumpControlProcess := by
  rw [risingEdge, settle_combinational_pcInput]

theorem risingEdge_combinational_branchingMuxOutput :
    (s.risingEdge .combinational c).proc.branchingMuxOutput =
      (s.risingEdge .combinational c).branchingControlProcess := by
  rw [risingEdge, settle_combinational_branchingMuxOutput]

end Tdt4255.Machine
