import Tdt4255.Hardware.Edges

/-! `user_logic`: the bus slave registers around `toplevel`, seen from the
loader's side, where the processor is a source of arbitrary outputs. -/

namespace Tdt4255

/-- `toplevel` without the processor. -/
structure Loader where
  com : Com
  mems : Memories

def Loader.risingEdge (reset : StdLogic) (bus : BusIn) (p : ProcessorOut) (l : Loader) : Loader where
  com := l.com.risingEdge reset bus.command bus.busAddressIn bus.busDataIn l.mems.dmem.readData
  mems := l.mems.risingEdge l.com.out p

def Toplevel.loader (t : Toplevel) : Loader := { com := t.com, mems := t.machine.mems }

/-- Whatever the processor does, it reaches the loader through its ports only. -/
theorem Toplevel.period_loader (reading : Reading) (reset : StdLogic) (bus : BusIn) (t : Toplevel) :
    (t.period reading reset bus).loader =
      t.loader.risingEdge reset bus (t.machine.fallingEdge reading reset).out := by
  simp [loader, Loader.risingEdge, period_com, Machine.period, Machine.dmemDataIn]

/-- The bus signals of one cycle. Index 0 of a VHDL vector is the top bit. -/
structure Bus2Ip where
  data : Word
  be : BitVec 4
  rdCE : BitVec 5
  wrCE : BitVec 5
  deriving DecidableEq, Repr

def Bus2Ip.idle : Bus2Ip := { data := 0, be := 0, rdCE := 0, wrCE := 0 }

/-- The byte enables select which bytes of a slave register are replaced. -/
def mergeBytes (be : BitVec 4) (data old : Word) : Word :=
  BitVec.ofFnLE fun i : Fin 32 => if be.getLsbD (i / 8) = true then data.getLsbD i else old.getLsbD i

theorem mergeBytes_all (data old : Word) : mergeBytes 0b1111#4 data old = data := by
  apply BitVec.eq_of_getLsbD_eq
  intro i bound
  have enabled : (0b1111#4).getLsbD (i / 8) = true := by
    interval_cases i <;> rfl
  rw [mergeBytes, BitVec.getLsbD_ofFnLE, dif_pos bound]
  exact if_pos enabled

structure UserLogic where
  slvReg0 : Word
  slvReg1 : Word
  slvReg2 : Word
  loader : Loader

namespace UserLogic

def slvReg3 (u : UserLogic) : Word := u.loader.com.status
def slvReg4 (u : UserLogic) : Word := u.loader.com.busDataOut

/-- `SLAVE_REG_WRITE_PROC` and the instance of `toplevel`, at a rising edge. -/
def risingEdge (reset : StdLogic) (bus : Bus2Ip) (p : ProcessorOut) (u : UserLogic) : UserLogic where
  slvReg0 :=
    if reset = true then 0
    else if bus.wrCE = 0b10000#5 then mergeBytes bus.be bus.data u.slvReg0
    else u.slvReg0
  slvReg1 :=
    if reset = true then 0
    else if bus.wrCE = 0b01000#5 then mergeBytes bus.be bus.data u.slvReg1
    else u.slvReg1
  slvReg2 :=
    if reset = true then 0
    else if bus.wrCE = 0b00100#5 then mergeBytes bus.be bus.data u.slvReg2
    else u.slvReg2
  loader :=
    u.loader.risingEdge reset
      { command := u.slvReg0, busAddressIn := u.slvReg1, busDataIn := u.slvReg2 } p

/-- `SLAVE_REG_READ_PROC` behind the read acknowledge. -/
def ip2BusData (bus : Bus2Ip) (u : UserLogic) : Word :=
  if bus.rdCE ≠ 0 then
    if bus.rdCE = 0b00010#5 then u.slvReg3
    else if bus.rdCE = 0b00001#5 then u.slvReg4
    else 0
  else 0

end UserLogic

end Tdt4255
