import Tdt4255.Hardware.Execute
import Tdt4255.Lib.Sampled

/-! From one instruction boundary to the next, for every instruction word and
whatever `com` drives. -/

namespace Tdt4255

namespace Machine

def Fetching (s : Machine) : Prop := s.proc.state = .aluFetch

instance : DecidablePred Fetching := fun s => inferInstanceAs (Decidable (s.proc.state = _))

def observed (s : Machine) : Observed where
  imem := s.mems.imem.mem
  visible := s.visible

section Period

variable (reading : Reading) {s : Machine} (c : ComOut)

theorem period_imem :
    (s.period reading false c).mems.imem =
      { mem := c.storeProgram s.mems.imem.mem
        addressReg := (s.period reading false c).proc.pcOutput } := by
  simp only [period, risingEdge_mems, risingEdge_pcOutput, Memories.risingEdge, Memory.risingEdge,
    fallingEdge_mems, ComOut.storeProgram, imemWriteEnableMux]
  cases c.writeImem <;> simp [out, Processor.out]

theorem period_dmem_stopped (stopped : c.processorEnable = false) :
    (s.period reading false c).mems.dmem =
      { mem := c.storeData s.mems.dmem.mem, addressReg := c.readAddr } := by
  simp only [period, risingEdge_mems, Memories.risingEdge, dmemPorts, dmemMux, stopped,
    Bool.false_eq_true, if_false, Memory.risingEdge, fallingEdge_mems, ComOut.storeData, true_and,
    imemWriteEnableMux]
  cases c.writeImem <;> simp

theorem period_dmem_enabled (enabled : c.processorEnable = true) :
    (s.period reading false c).mems.dmem = (s.period reading false .run).mems.dmem := by
  simp only [period, risingEdge_mems, Memories.risingEdge, dmemPorts, dmemMux, enabled,
    show ComOut.run.processorEnable = true from rfl, if_true, Memory.risingEdge]

theorem period_dmem_mem :
    (s.period reading false c).mems.dmem.mem =
      c.storeData
        (if s.proc.state = .aluStall ∧ opCode s.imemDataIn = 0b101011#6 ∧ c.processorEnable = true then
          Function.update s.mems.dmem.mem (s.mainAlu.r.setWidth 8) s.rtValue
        else s.mems.dmem.mem) := by
  by_cases enabled : c.processorEnable = true
  · rw [ComOut.storeData_enabled enabled, period_dmem_enabled reading c enabled,
      period_dmem_mem_running reading s ComOut.run_running]
    simp [enabled]
  · rw [period_dmem_stopped reading c (by simpa using enabled)]
    simp [enabled]

theorem period_addressReg (quiet : s.control.regWrite = false) :
    (s.period reading false c).mems.dmem.addressReg =
      if c.processorEnable = true then s.mainAlu.r else c.readAddr := by
  by_cases enabled : c.processorEnable = true
  · rw [if_pos enabled, period_dmem_enabled reading c enabled,
      period_addressReg_running reading s ComOut.run_running quiet]
  · rw [if_neg enabled, period_dmem_stopped reading c (by simpa using enabled)]

/-- The period that starts in `ALU_FETCH`. -/
theorem period_fetch (state : s.proc.state = .aluFetch) :
    (s.period reading false c).Boundary ∧
      (s.period reading false c).observed =
        c.passes { s.observed with visible := { s.visible with pc := s.proc.pcInput } } := by
  refine ⟨⟨by simp [state, aluStateNext], period_imemAddress reading s c false⟩, ?_⟩
  simp [observed, visible, ComOut.passes, period_pcOutput, period_regs, period_imem,
    period_dmem_mem, state]

/-- The period that starts in `ALU_STALL`, up to the program counter. -/
theorem period_stall (state : s.proc.state = .aluStall)
    (fetched : s.mems.imem.addressReg = s.proc.pcOutput) :
    { (s.period reading false c).observed with
        visible := { (s.period reading false c).visible with pc := s.proc.pcOutput + 1#32 } } =
      stallUnder s.mems.dmem.addressReg c s.observed := by
  have word : s.imemDataIn = fetch s.mems.imem.mem s.proc.pcOutput := by
    rw [imemDataIn, Memory.readData, fetched, fetch]
  refine Observed.ext ?_ (Visible.ext rfl ?_ ?_)
  · exact congrArg Memory.mem (period_imem reading c)
  · simp only [visible, period_regs, state, word, dmemDataIn, Memory.readData, reduceCtorEq, false_and,
      true_and, if_false]
    rfl
  · simp only [visible, period_dmem_mem, state, word, mainAlu_r, rsValue, rtValue, reduceCtorEq,
      false_and, true_and, if_false]
    rfl

theorem latchedNext_stall (state : s.proc.state = .aluStall) :
    latchedNext reading s = s.proc.pcOutput + 1#32 := by
  cases reading with
  | eventDriven => exact branchingControlProcess_idle s (by simp [state])
  | combinational => rfl

theorem Boundary.imemDataIn_eq (b : s.Boundary) :
    s.imemDataIn = fetch s.mems.imem.mem s.proc.pcOutput := by
  rw [imemDataIn, Memory.readData, b.fetched, fetch]

end Period

section Windows

variable (reading : Reading) {s : Machine} (inputs : Nat → ComOut)

/-- Either reading latches the next program counter of `execute`. -/
theorem Boundary.latched_pc (b : s.Boundary) :
    latchedNext reading s = (execute reading s.imemDataIn s.visible).pc := by
  cases reading with
  | eventDriven =>
    rw [latchedNext, branchingControlProcess_exe s b.state]
    simp only [execute, true_and]
    rfl
  | combinational => simp [execute, visible, latchedNext]

/-- The period in `ALU_EXE`, for a word that goes straight on. -/
theorem Boundary.period_exe (b : s.Boundary) (word : TwoCycle s.imemDataIn) (c : ComOut) :
    { (s.period reading false c).observed with
        visible :=
          { (s.period reading false c).visible with
            pc := (execute reading s.imemDataIn s.visible).pc } } =
      c.passes { s.observed with visible := execute reading s.imemDataIn s.visible } := by
  have noLoad : opCode s.imemDataIn ≠ 0b100011#6 := by
    rintro op
    simp [TwoCycle, op] at word
  have noStore : opCode s.imemDataIn ≠ 0b101011#6 := by
    rintro op
    simp [TwoCycle, op] at word
  refine Observed.ext ?_ (Visible.ext rfl ?_ ?_)
  · exact congrArg Memory.mem (period_imem reading c)
  · simp only [visible, period_regs, b.state, mainAlu_r, ComOut.passes, execute, true_and]
    rcases word with op | op | op <;> simp [op, rsValue, rtValue]
  · simp [visible, period_dmem_mem, b.state, ComOut.passes, execute, noStore]

theorem Boundary.twoCycle (b : s.Boundary) (word : TwoCycle s.imemDataIn) :
    Sampled.Window (period reading false) Fetching inputs s 1 ∧
      (Sampled.run (period reading false) inputs s 2).Boundary ∧
      (Sampled.run (period reading false) inputs s 2).observed =
        executeUnder reading inputs s.observed := by
  have exe : s.proc.state ≠ .aluFetch := by simp [b.state]
  have enters : (s.period reading false (inputs 0)).proc.state = .aluFetch := by
    rw [period_state, b.state, word.next]
  obtain ⟨boundary, seen⟩ := period_fetch reading (inputs 1) enters
  refine ⟨⟨?_, enters⟩, boundary, seen.trans ?_⟩
  · intro j before
    obtain rfl : j = 0 := by omega
    exact exe
  · rw [period_pcInput reading s enters, b.latched_pc reading, b.period_exe reading word,
      executeUnder]
    have fetched : fetch s.observed.imem s.observed.visible.pc = s.imemDataIn :=
      b.imemDataIn_eq.symm
    simp only [fetched, if_pos word]
    rfl

theorem Boundary.threeCycle (b : s.Boundary) (word : ¬ TwoCycle s.imemDataIn) :
    Sampled.Window (period reading false) Fetching inputs s 2 ∧
      (Sampled.run (period reading false) inputs s 3).Boundary ∧
      (Sampled.run (period reading false) inputs s 3).observed =
        executeUnder reading inputs s.observed := by
  have exe : s.proc.state ≠ .aluFetch := by simp [b.state]
  have stalls : (s.period reading false (inputs 0)).proc.state = .aluStall := by
    rw [period_state, b.state, TwoCycle.next_not word]
  have notExe : ¬ opCode s.imemDataIn = 0b000000#6 ∧ ¬ opCode s.imemDataIn = 0b000100#6 ∧
      ¬ opCode s.imemDataIn = 0b001111#6 := by
    simpa [TwoCycle] using word
  have pc : (s.period reading false (inputs 0)).proc.pcOutput = s.proc.pcOutput := by
    rw [period_pcOutput, if_neg exe]
  have first : (s.period reading false (inputs 0)).observed = (inputs 0).passes s.observed := by
    simp [observed, visible, ComOut.passes, period_pcOutput, period_regs, period_imem,
      period_dmem_mem, b.state, notExe]
  have addr : (s.period reading false (inputs 0)).mems.dmem.addressReg =
      if (inputs 0).processorEnable = true then dataAddress s.imemDataIn s.visible
      else (inputs 0).readAddr := by
    rw [period_addressReg reading, mainAlu_r]
    · simp [b.state, notExe, dataAddress, rsValue, rtValue, visible]
    · simp [control_eq, signalSetup_regWrite, b.state, notExe]
  have enters : (Sampled.run (period reading false) inputs s 2).proc.state = .aluFetch := by
    rw [Sampled.run_succ, period_state, Sampled.run_succ, Sampled.run_zero, stalls, aluStateNext]
  obtain ⟨boundary, final⟩ := period_fetch reading (inputs 2) enters
  refine ⟨⟨?_, enters⟩, boundary, final.trans ?_⟩
  · intro j before
    obtain rfl | rfl : j = 0 ∨ j = 1 := by omega
    · exact exe
    · simp only [Fetching, Sampled.run, stalls]
      decide
  · have fetched : fetch s.observed.imem s.observed.visible.pc = s.imemDataIn :=
      b.imemDataIn_eq.symm
    simp only [Sampled.run_succ, Sampled.run_zero] at enters ⊢
    rw [period_pcInput reading _ enters, latchedNext_stall reading stalls,
      period_stall reading (inputs 1) stalls (period_imemAddress reading s (inputs 0) false),
      first, addr, executeUnder]
    simp only [fetched, if_neg word]
    rfl

/-- The control unit goes from boundary to boundary whatever `com` does. -/
theorem Boundary.window (b : s.Boundary) :
    Sampled.Window (period reading false) Fetching inputs s (stalls s.imemDataIn) ∧
      (Sampled.run (period reading false) inputs s (stalls s.imemDataIn + 1)).Boundary ∧
      (Sampled.run (period reading false) inputs s (stalls s.imemDataIn + 1)).observed =
        executeUnder reading inputs s.observed := by
  by_cases word : TwoCycle s.imemDataIn
  · simpa only [stalls, if_pos word] using b.twoCycle reading inputs word
  · simpa only [stalls, if_neg word] using b.threeCycle reading inputs word

/-- While the processor is enabled the visible state goes on by one `execute`
and the program stays as it is. -/
theorem Boundary.window_running (b : s.Boundary) {inputs : Nat → ComOut}
    (running : ∀ k, (inputs k).Running) :
    Sampled.Window (period reading false) Fetching inputs s (stalls s.imemDataIn) ∧
      (Sampled.run (period reading false) inputs s (stalls s.imemDataIn + 1)).Boundary ∧
      (Sampled.run (period reading false) inputs s (stalls s.imemDataIn + 1)).visible =
        execute reading (fetch s.mems.imem.mem s.proc.pcOutput) s.visible ∧
      (Sampled.run (period reading false) inputs s (stalls s.imemDataIn + 1)).mems.imem.mem =
        s.mems.imem.mem := by
  obtain ⟨window, boundary, seen⟩ := b.window reading inputs
  rw [executeUnder_running reading running] at seen
  exact ⟨window, boundary, congrArg Observed.visible seen, congrArg Observed.imem seen⟩

end Windows

/-- A machine at a boundary with program, data, registers and counter given;
the multiplexer signals and the data address are stale. -/
def atBoundary (imem dmem : MemAddress → Word) (regs : RegisterFile) (pc : Word) : Machine where
  proc :=
    { state := .aluExe, pcOutput := pc, regs := regs, branchingMuxOutput := 0, pcInput := 0 }
  mems := { imem := { mem := imem, addressReg := pc }, dmem := { mem := dmem, addressReg := 0 } }

theorem atBoundary_boundary (imem dmem : MemAddress → Word) (regs : RegisterFile) (pc : Word) :
    (atBoundary imem dmem regs pc).Boundary := ⟨rfl, rfl⟩

end Machine

end Tdt4255
