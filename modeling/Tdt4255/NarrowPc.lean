import Tdt4255.Hardware.Edges
import Tdt4255.Hardware.Boundary

/-! The memories use eight address bits, and nothing else reads the program
counter. -/

namespace Tdt4255

/-- A clock edge with everything it reads from outside. -/
inductive Edge
  | rising (c : ComOut)
  | falling (reset : StdLogic)

namespace Machine

def edge (reading : Reading) : Edge → Machine → Machine
  | .rising c, s => s.risingEdge reading c
  | .falling reset, s => s.fallingEdge reading reset

end Machine

def SameCell (a b : Word) : Prop := a.setWidth 8 = b.setWidth 8

theorem SameCell.rfl {a : Word} : SameCell a a := Eq.refl _

theorem SameCell.add {a b : Word} (same : SameCell a b) (c : Word) : SameCell (a + c) (b + c) := by
  unfold SameCell at *
  rw [BitVec.setWidth_add _ _ (by decide), BitVec.setWidth_add _ _ (by decide), same]

/-- The upper bits of a jump target come from the program counter, the
selecting ones from the instruction. -/
theorem sameCell_jump (high low : BitVec 6) (target : BitVec 26) :
    SameCell (high ++ target) (low ++ target) := by
  unfold SameCell
  rw [BitVec.setWidth_append, BitVec.setWidth_append]
  simp

/-- Equal but for the upper 24 bits of everything that derives from the
program counter. -/
structure Machine.AgreeModulo (s t : Machine) : Prop where
  state : s.proc.state = t.proc.state
  regs : s.proc.regs = t.proc.regs
  program : s.mems.imem.mem = t.mems.imem.mem
  data : s.mems.dmem.mem = t.mems.dmem.mem
  pc : SameCell s.proc.pcOutput t.proc.pcOutput
  muxOutput : SameCell s.proc.branchingMuxOutput t.proc.branchingMuxOutput
  pcInput : SameCell s.proc.pcInput t.proc.pcInput
  imemAddress : SameCell s.mems.imem.addressReg t.mems.imem.addressReg
  dmemAddress : SameCell s.mems.dmem.addressReg t.mems.dmem.addressReg

namespace Machine.AgreeModulo

section Wires

variable {s t : Machine} (a : s.AgreeModulo t)

include a

theorem imemDataIn : s.imemDataIn = t.imemDataIn := by
  unfold Machine.imemDataIn Memory.readData
  rw [a.program, a.imemAddress]

theorem dmemDataIn : s.dmemDataIn = t.dmemDataIn := by
  unfold Machine.dmemDataIn Memory.readData
  rw [a.data, a.dmemAddress]

theorem control : s.control = t.control := control_congr a.imemDataIn a.state

theorem mainAlu : s.mainAlu = t.mainAlu := mainAlu_congr a.imemDataIn a.state a.regs

theorem branchingControlProcess : SameCell s.branchingControlProcess t.branchingControlProcess := by
  rw [branchingControlProcess_eq, branchingControlProcess_eq, a.control, a.mainAlu, a.imemDataIn]
  split_ifs
  · exact (a.pc.add _).add _
  · exact a.pc.add _

theorem jumpControlProcess : SameCell s.jumpControlProcess t.jumpControlProcess := by
  rw [jumpControlProcess_eq, jumpControlProcess_eq, a.control, a.imemDataIn]
  split_ifs
  · exact sameCell_jump _ _ _
  · exact a.muxOutput

end Wires

theorem settle (reading : Reading) {pre pre' post post' : Machine} (before : pre.AgreeModulo pre')
    (after : post.AgreeModulo post') :
    (Machine.settle reading pre post).AgreeModulo (Machine.settle reading pre' post') := by
  have branchEvent : branchEvent pre post ↔ branchEvent pre' post' := by
    unfold Machine.branchEvent
    rw [before.control, before.mainAlu, after.control, after.mainAlu]
  have jumpEvent : jumpEvent pre post ↔ jumpEvent pre' post' := by
    unfold Machine.jumpEvent
    rw [before.control, after.control]
  refine { after with state := ?_, regs := ?_, program := ?_, data := ?_, pc := ?_, muxOutput := ?_,
                      pcInput := ?_, imemAddress := ?_, dmemAddress := ?_ }
  · simpa using after.state
  · simpa using after.regs
  · simpa using after.program
  · simpa using after.data
  · simpa using after.pc
  · cases reading with
    | eventDriven =>
      simp only [Machine.settle, setPcInput, setBranchingMuxOutput, branchEvent]
      split_ifs
      · exact after.branchingControlProcess
      · exact after.muxOutput
    | combinational => exact after.branchingControlProcess
  · cases reading with
    | eventDriven =>
      simp only [Machine.settle, setPcInput, setBranchingMuxOutput, jumpEvent]
      split_ifs
      · exact after.jumpControlProcess
      · exact after.pcInput
    | combinational =>
      have muxed : (post.setBranchingMuxOutput post.branchingControlProcess).AgreeModulo
          (post'.setBranchingMuxOutput post'.branchingControlProcess) :=
        { after with muxOutput := after.branchingControlProcess }
      exact muxed.jumpControlProcess
  · simpa using after.imemAddress
  · simpa using after.dmemAddress

variable {s t : Machine}

/-- The processor ports that reach the memories. Only the instruction address
is a program counter. -/
theorem memories (a : s.AgreeModulo t) (c : ComOut) :
    (s.mems.risingEdge c s.out).imem.mem = (t.mems.risingEdge c t.out).imem.mem ∧
      (s.mems.risingEdge c s.out).dmem = (t.mems.risingEdge c t.out).dmem := by
  have ports : dmemPorts c s.out = dmemPorts c t.out := by
    have alu := a.mainAlu
    have control := a.control
    unfold Machine.mainAlu at alu
    unfold Machine.control at control
    unfold dmemPorts out Processor.out Processor.registerRtOutput
    rw [alu, control, a.imemDataIn, a.regs]
  unfold Memories.risingEdge Memory.risingEdge
  rw [ports, a.program, a.data]
  exact ⟨Eq.refl _, Eq.refl _⟩

/-- Reset, increment, branch and jump keep the agreement, and no instruction
makes the program counter readable. -/
theorem edge (reading : Reading) (e : Edge) (a : s.AgreeModulo t) :
    (s.edge reading e).AgreeModulo (t.edge reading e) := by
  cases e with
  | rising c =>
    refine settle reading a { a with state := ?_, program := ?_, data := ?_, pcInput := ?_,
                                     muxOutput := ?_, imemAddress := ?_, dmemAddress := ?_ }
    · simp only [Processor.risingEdge]
      rw [a.imemDataIn, a.state]
    · exact (a.memories c).1
    · exact congrArg Memory.mem (a.memories c).2
    · exact a.branchingControlProcess
    · exact a.jumpControlProcess
    · exact a.pc
    · exact congrArg (fun m => m.addressReg.setWidth 8) (a.memories c).2
  | falling reset =>
    refine settle reading a { a with regs := ?_, pc := ?_, pcInput := ?_, muxOutput := ?_ }
    · have alu := a.mainAlu
      have control := a.control
      unfold Machine.mainAlu at alu
      unfold Machine.control at control
      rw [a.imemDataIn] at alu control
      unfold Processor.fallingEdge Processor.writeRegAddr Processor.registerWriteData
      simp only [a.imemDataIn, a.dmemDataIn, a.regs, alu, control]
    · have control := congrArg ControlOut.pcWriteEnb a.control
      unfold Machine.control at control
      simp only [Processor.fallingEdge, programCounter, control]
      split_ifs
      · exact SameCell.rfl
      · exact a.pcInput
      · exact a.pc
    · exact a.branchingControlProcess
    · exact a.jumpControlProcess

end Machine.AgreeModulo

namespace Machine

/-- The flip-flops `PC_OUT_31` to `PC_OUT_8` removed. -/
def trimPc (s : Machine) : Machine :=
  { s with proc := { s.proc with pcOutput := (s.proc.pcOutput.setWidth 8).setWidth 32 } }

/-- A clock edge of the processor with an 8-bit program counter. -/
def trimmedEdge (reading : Reading) (e : Edge) (s : Machine) : Machine := (s.edge reading e).trimPc

theorem AgreeModulo.trimPc {s t : Machine} (a : s.AgreeModulo t) : s.AgreeModulo t.trimPc :=
  { a with pc := a.pc.trans (by simp [Machine.trimPc]) }

end Machine

/-- Runs that start alike but for the upper 24 bits of the program counter
and of what derives from it stay so, edge after edge, under either reading and
also when one of them keeps only eight bits. -/
theorem upper_pc_bits_unobservable (reading : Reading) {s t : Machine} (start : s.AgreeModulo t)
    (edges : Nat → Edge) (k : Nat) :
    (Sampled.run (Machine.edge reading) edges s k).AgreeModulo
        (Sampled.run (Machine.edge reading) edges t k) ∧
      (Sampled.run (Machine.edge reading) edges s k).AgreeModulo
        (Sampled.run (Machine.trimmedEdge reading) edges t.trimPc k) :=
  ⟨Sampled.run_related _ (fun e _ _ a => a.edge reading e) edges start k,
    Sampled.run_related _ (fun e _ _ a => (a.edge reading e).trimPc) edges start.trimPc k⟩

/-- `j 3` in every word of program memory. -/
def jumpMachine (pc : Word) : Machine :=
  Machine.atBoundary (fun _ => 0x08000003#32) (fun _ => 0) (fun _ => 0) pc

def freeClock (k : Nat) : Edge := if k % 2 = 0 then .falling false else .rising ComOut.run

theorem jumpMachine_agree : (jumpMachine 0).AgreeModulo (jumpMachine 0x7F00#32) where
  state := rfl
  regs := rfl
  program := rfl
  data := rfl
  pc := show (0#32).setWidth 8 = (0x7F00#32).setWidth 8 by decide
  muxOutput := rfl
  pcInput := rfl
  imemAddress := show (0#32).setWidth 8 = (0x7F00#32).setWidth 8 by decide
  dmemAddress := rfl

theorem upper_pc_bits_unobservable_jump :
    (Sampled.run (Machine.edge .eventDriven) freeClock (jumpMachine 0) 6).AgreeModulo
        (Sampled.run (Machine.edge .eventDriven) freeClock (jumpMachine 0x7F00#32) 6) ∧
      (Sampled.run (Machine.edge .eventDriven) freeClock (jumpMachine 0) 6).AgreeModulo
        (Sampled.run (Machine.trimmedEdge .eventDriven) freeClock (jumpMachine 0x7F00#32).trimPc 6) :=
  upper_pc_bits_unobservable .eventDriven jumpMachine_agree freeClock 6

end Tdt4255
