import Tdt4255.Hardware.Processor
import Tdt4255.Hardware.Com

/-! `toplevel`: the memory multiplexers, the two memories and the processor,
at the granularity of clock edges. -/

namespace Tdt4255

/-- The four signals `DMEM_MUX` selects. -/
structure DmemPorts where
  address : Word
  addressWr : Word
  writeData : Word
  writeEnable : StdLogic

def dmemMux (procEnable : StdLogic) (proc com : DmemPorts) : DmemPorts :=
  if procEnable = true then proc else com

structure WriteEnables where
  imem : StdLogic
  dmem : StdLogic

/-- `IMEM_WRITE_ENABLE_MUX`. -/
def imemWriteEnableMux (comWriteImem comWriteEn : StdLogic) : WriteEnables :=
  if comWriteImem = true then { imem := comWriteEn, dmem := false }
  else { imem := false, dmem := comWriteEn }

/-- `INST_MEM` and `DATA_MEM`. -/
structure Memories where
  imem : Memory 32 8
  dmem : Memory 32 8

/-- The `DATA_MEM` ports for given outputs of `com` and processor. -/
def dmemPorts (c : ComOut) (p : ProcessorOut) : DmemPorts :=
  dmemMux c.processorEnable
    { address := p.dmemAddress
      addressWr := p.dmemAddressWr
      writeData := p.dmemDataOut
      writeEnable := p.dmemWriteEnable }
    { address := c.readAddr
      addressWr := c.writeAddr
      writeData := c.writeData
      writeEnable := (imemWriteEnableMux c.writeImem c.writeEnable).dmem }

def Memories.risingEdge (c : ComOut) (p : ProcessorOut) (m : Memories) : Memories where
  imem :=
    m.imem.risingEdge (imemWriteEnableMux c.writeImem c.writeEnable).imem c.writeAddr c.writeData
      p.imemAddress
  dmem :=
    m.dmem.risingEdge (dmemPorts c p).writeEnable (dmemPorts c p).addressWr
      (dmemPorts c p).writeData (dmemPorts c p).address

/-- The processor and its memories; `com` enters through its outputs. -/
structure Machine where
  proc : Processor
  mems : Memories

/-- How the two processes with incomplete sensitivity lists are read: as a
simulator runs them, or as the multiplexers that synthesis builds. -/
inductive Reading
  | eventDriven
  | combinational
  deriving DecidableEq, Repr

namespace Machine

section Wires

variable (s : Machine)

def imemDataIn : Word := s.mems.imem.readData
def dmemDataIn : Word := s.mems.dmem.readData
def control : ControlOut := s.proc.control s.imemDataIn
def mainAlu : AluOut 32 := s.proc.mainAlu s.imemDataIn
def branchingControlProcess : Word := s.proc.branchingControlProcess s.imemDataIn
def jumpControlProcess : Word := s.proc.jumpControlProcess s.imemDataIn
def out : ProcessorOut := s.proc.out s.imemDataIn

def setBranchingMuxOutput (w : Word) : Machine :=
  { s with proc := { s.proc with branchingMuxOutput := w } }

def setPcInput (w : Word) : Machine :=
  { s with proc := { s.proc with pcInput := w } }

end Wires

/-- A change of Branch or Zero activates `branching_control_process`. -/
def branchEvent (pre post : Machine) : Prop :=
  pre.control.branch ≠ post.control.branch ∨ pre.mainAlu.flags.zero ≠ post.mainAlu.flags.zero

/-- A change of JmpEnable activates `JumpControlProcess`. -/
def jumpEvent (pre post : Machine) : Prop :=
  pre.control.jumpEnb ≠ post.control.jumpEnb

instance (pre post : Machine) : Decidable (branchEvent pre post) :=
  inferInstanceAs (Decidable (_ ∨ _))

instance (pre post : Machine) : Decidable (jumpEvent pre post) :=
  inferInstanceAs (Decidable (_ ≠ _))

/-- What happens to the two multiplexer signals while the wires settle after
an edge, from the settled values before it. When both processes are activated
`JumpControlProcess` runs on the JmpEnable event itself, one delta before the
assignment of the other process takes effect. Events that cancel before all is
settled are left out; only after a reset they decide anything, and
`simulatedFallingEdge` has them. -/
def settle (reading : Reading) (pre post : Machine) : Machine :=
  match reading with
  | .eventDriven =>
    let pcInput := if jumpEvent pre post then post.jumpControlProcess else post.proc.pcInput
    let branchingMuxOutput :=
      if branchEvent pre post then post.branchingControlProcess else post.proc.branchingMuxOutput
    (post.setBranchingMuxOutput branchingMuxOutput).setPcInput pcInput
  | .combinational =>
    let muxed := post.setBranchingMuxOutput post.branchingControlProcess
    muxed.setPcInput muxed.jumpControlProcess

def risingEdge (reading : Reading) (c : ComOut) (s : Machine) : Machine :=
  settle reading s
    { proc := s.proc.risingEdge s.imemDataIn
      mems := s.mems.risingEdge c s.out }

def fallingEdge (reading : Reading) (reset : StdLogic) (s : Machine) : Machine :=
  settle reading s
    { proc := s.proc.fallingEdge s.imemDataIn s.dmemDataIn reset
      mems := s.mems }

/-- From just after one rising edge to just after the next. -/
def period (reading : Reading) (reset : StdLogic) (c : ComOut) (s : Machine) : Machine :=
  (s.fallingEdge reading reset).risingEdge reading c

end Machine

/-- The bus registers as `toplevel` sees them. -/
structure BusIn where
  command : Word
  busAddressIn : Word
  busDataIn : Word
  deriving DecidableEq, Repr

structure Toplevel where
  com : Com
  machine : Machine

/-- All clocked processes read the values from before the edge: `com` the
settled `READ_DATA`, the memories the registered outputs of `com`. -/
def Toplevel.risingEdge (reading : Reading) (reset : StdLogic) (bus : BusIn) (t : Toplevel) :
    Toplevel where
  com :=
    t.com.risingEdge reset bus.command bus.busAddressIn bus.busDataIn t.machine.dmemDataIn
  machine := t.machine.risingEdge reading t.com.out

def Toplevel.fallingEdge (reading : Reading) (reset : StdLogic) (t : Toplevel) : Toplevel where
  com := t.com
  machine := t.machine.fallingEdge reading reset

def Toplevel.period (reading : Reading) (reset : StdLogic) (bus : BusIn) (t : Toplevel) : Toplevel :=
  (t.fallingEdge reading reset).risingEdge reading reset bus

@[simp] theorem Toplevel.period_machine (reading : Reading) (reset : StdLogic) (bus : BusIn)
    (t : Toplevel) :
    (t.period reading reset bus).machine = t.machine.period reading reset t.com.out := rfl

theorem Toplevel.period_com (reading : Reading) (reset : StdLogic) (bus : BusIn) (t : Toplevel) :
    (t.period reading reset bus).com =
      t.com.risingEdge reset bus.command bus.busAddressIn bus.busDataIn
        (t.machine.fallingEdge reading reset).dmemDataIn := rfl

end Tdt4255
