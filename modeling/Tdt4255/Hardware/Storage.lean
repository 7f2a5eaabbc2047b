import Tdt4255.Hardware.Control

/-! The clocked storage elements and the sign extender. -/

namespace Tdt4255

/-- `program_counter` at a falling edge. -/
def programCounter (reset pcWrEn : StdLogic) (pcIn pcOut : Word) : Word :=
  if reset = true then 0 else if pcWrEn = true then pcIn else pcOut

/-- `REGS`, all `2 ** RADDR_BUS` entries. -/
abbrev RegisterFile := BitVec 5 → Word

/-- The RS and RT outputs: register 0 reads as zero whatever REGS(0) holds. -/
def registerFileRead (regs : RegisterFile) (addr : BitVec 5) : Word :=
  if addr = 0#5 then 0 else regs addr

/-- `REGISTERS` at a falling edge. RESET is in the sensitivity list only. -/
def registerFileWrite (rw : StdLogic) (rdAddr : BitVec 5) (writeData : Word) (regs : RegisterFile) :
    RegisterFile :=
  if rw = true then Function.update regs rdAddr writeData else regs

/-- `memory` with generics `N` (data and address width) and `M`. -/
structure Memory (n m : Nat) where
  mem : BitVec m → BitVec n
  addressReg : BitVec n

/-- `MEM_PROC` at a rising edge: the write, and the registered read address. -/
def Memory.risingEdge {n m : Nat} (memWrite : StdLogic) (wAddr writeData addr : BitVec n)
    (s : Memory n m) : Memory n m where
  mem := if memWrite = true then Function.update s.mem (wAddr.setWidth m) writeData else s.mem
  addressReg := addr

def Memory.readData {n m : Nat} (s : Memory n m) : BitVec n := s.mem (s.addressReg.setWidth m)

/-- `sign_extender`: the low part is copied, every higher bit repeats the
top input bit. -/
def signExtender {inWidth : Nat} (outWidth : Nat) (input : BitVec inWidth) : BitVec outWidth :=
  BitVec.ofFnLE fun i : Fin outWidth =>
    if i.val < inWidth then input.getLsbD i else input.getLsbD (inWidth - 1)

theorem signExtender_eq {inWidth outWidth : Nat} (input : BitVec inWidth) :
    signExtender outWidth input = input.signExtend outWidth := by
  apply BitVec.eq_of_getLsbD_eq
  intro i bound
  rw [signExtender, BitVec.getLsbD_ofFnLE, dif_pos bound, BitVec.getLsbD_signExtend,
    BitVec.msb_eq_getLsbD_last]
  simp [bound]

theorem registerFileRead_write (rw : StdLogic) (rdAddr addr : BitVec 5) (writeData : Word)
    (regs : RegisterFile) :
    registerFileRead (registerFileWrite rw rdAddr writeData regs) addr =
      if rw = true ∧ rdAddr ≠ 0#5 ∧ addr = rdAddr then writeData else registerFileRead regs addr := by
  unfold registerFileRead registerFileWrite
  by_cases enabled : rw = true <;> by_cases zero : addr = 0#5 <;> by_cases same : addr = rdAddr <;>
    simp_all [Function.update]

end Tdt4255
