import Tdt4255.Driver.Access

/-! What the state machine of `com` and the memories do in one cycle of a
session while the processor is stopped. -/

namespace Tdt4255

/-- The transitions of `com`, outside reset. -/
def ComState.next (command : Word) : ComState → ComState
  | .idle =>
    if command = cmdWi then .wi
    else if command = cmdWd then .wd
    else if command = cmdRd then .rd1
    else if command = cmdRun then .run
    else .idle
  | .wi => .done
  | .wd => .done
  | .rd1 => .rd2
  | .rd2 => .rd3
  | .rd3 => .done
  | .run => if command = cmdRun then .run else .idle
  | .done => if command = cmdNone then .idle else .done

def ComOut.stores (c : ComOut) : List MemoryWrite :=
  if c.writeEnable = true then
    [{ bank := if c.writeImem = true then .imem else .dmem
       address := c.writeAddr.setWidth 8
       value := c.writeData }]
  else []

def ComState.stores (address data : Word) : ComState → List MemoryWrite
  | .wi => [{ bank := .imem, address := address.setWidth 8, value := data }]
  | .wd => [{ bank := .dmem, address := address.setWidth 8, value := data }]
  | _ => []

section Com

variable (command address data readData : Word) (c : Com)

theorem Com.risingEdge_state :
    (c.risingEdge false command address data readData).state = c.state.next command := by
  unfold Com.risingEdge
  cases c.state <;> rfl

theorem Com.risingEdge_stores :
    (c.risingEdge false command address data readData).out.stores = c.state.stores address data := by
  unfold Com.risingEdge
  cases c.state <;> rfl

theorem Com.risingEdge_status :
    (c.risingEdge false command address data readData).status = statusDone ↔ c.state = .done := by
  unfold Com.risingEdge
  cases c.state <;> simp [statusIdle, statusBusy, statusRun, statusDone]

theorem Com.risingEdge_readAddr (state : c.state = .rd1) :
    (c.risingEdge false command address data readData).out.readAddr = address := by
  simp [Com.risingEdge, state]

theorem Com.risingEdge_internalDataOut (state : c.state = .rd3) :
    (c.risingEdge false command address data readData).internalDataOut = readData := by
  simp [Com.risingEdge, state]

theorem Com.risingEdge_done (state : c.state = .done) :
    (c.risingEdge false command address data readData).internalDataOut = c.internalDataOut ∧
      (c.risingEdge false command address data readData).busDataOut = c.internalDataOut := by
  simp [Com.risingEdge, state]

end Com

abbrev Contents := Bank → MemAddress → Word

def MemoryWrite.apply (m : Contents) (w : MemoryWrite) : Contents :=
  fun bank address => if bank = w.bank ∧ address = w.address then w.value else m bank address

def Memories.contents (m : Memories) : Contents
  | .imem => m.imem.mem
  | .dmem => m.dmem.mem

theorem Memories.contents_risingEdge (c : ComOut) (p : ProcessorOut) (m : Memories) :
    (m.risingEdge c p).contents = (memoryWrites c p).foldl MemoryWrite.apply m.contents := by
  funext bank address
  unfold memoryWrites
  cases bank <;>
    by_cases imem : (imemWriteEnableMux c.writeImem c.writeEnable).imem = true <;>
    by_cases dmem : (dmemPorts c p).writeEnable = true <;>
    simp [contents, risingEdge, Memory.risingEdge, imem, dmem, MemoryWrite.apply,
      Function.update_apply]

/-- A stopped processor cannot store. -/
theorem memoryWrites_stopped {c : ComOut} (stopped : c.processorEnable = false) (p : ProcessorOut) :
    memoryWrites c p = c.stores := by
  unfold memoryWrites ComOut.stores dmemPorts dmemMux imemWriteEnableMux
  cases c.writeImem <;> cases c.writeEnable <;> simp [stopped]

theorem ComOut.stores_eq_nil_iff (c : ComOut) : c.stores = [] ↔ c.writeEnable = false := by
  unfold ComOut.stores
  cases c.writeEnable <;> simp

theorem ComOut.length_stores (c : ComOut) : c.stores.length ≤ 1 := by
  unfold ComOut.stores
  split_ifs <;> simp

/-- When `com` does not write, only the processor may, and only data. -/
theorem memoryWrites_still {c : ComOut} (still : c.writeEnable = false) (p : ProcessorOut) :
    (memoryWrites c p).length ≤ 1 ∧ ∀ w ∈ memoryWrites c p, w.bank = .dmem := by
  have noLoad : (imemWriteEnableMux c.writeImem c.writeEnable).imem = false := by
    unfold imemWriteEnableMux
    cases c.writeImem <;> simp [still]
  unfold memoryWrites
  cases (dmemPorts c p).writeEnable <;> simp [noLoad]

namespace Session

variable (cycle : BusCycle) (s : Session)

def com : Com := s.logic.loader.com

/-- The stores made so far and the one that the next edge makes. -/
def committed : List MemoryWrite := s.log ++ s.com.out.stores

theorem step_com :
    (s.step cycle).com =
      s.com.risingEdge false s.logic.slvReg0 s.logic.slvReg1 s.logic.slvReg2
        s.logic.loader.mems.dmem.readData := rfl

theorem step_state : (s.step cycle).com.state = s.com.state.next s.logic.slvReg0 := by
  rw [step_com, Com.risingEdge_state]

theorem step_status : (s.step cycle).com.status = statusDone ↔ s.com.state = .done := by
  rw [step_com, Com.risingEdge_status]

variable {s}

theorem step_committed (stopped : s.com.out.processorEnable = false) :
    (s.step cycle).committed =
      s.committed ++ s.com.state.stores s.logic.slvReg1 s.logic.slvReg2 := by
  have log : (s.step cycle).log = s.log ++ s.com.out.stores :=
    congrArg (s.log ++ ·) (memoryWrites_stopped stopped cycle.proc)
  rw [committed, committed, log, step_com, Com.risingEdge_stores]

variable {cycle}

theorem step_addressReg (stopped : s.com.out.processorEnable = false) :
    (s.step cycle).logic.loader.mems.dmem.addressReg = s.com.out.readAddr := by
  have ports : (dmemPorts s.com.out cycle.proc).address = s.com.out.readAddr := by
    rw [dmemPorts, dmemMux, if_neg (by simp [stopped])]
  exact ports

/-- The memories hold what the log says, the processor is stopped, and only
in `STATE_DONE`, before the status says so, a store may be outstanding. -/
structure Sound (start : Contents) (s : Session) : Prop where
  contents : s.logic.loader.mems.contents = s.log.foldl MemoryWrite.apply start
  stopped : s.com.out.processorEnable = false
  settled : s.com.state ≠ .done → s.com.out.stores = []
  stored : s.com.status = statusDone → s.com.out.stores = []

theorem Sound.step {start : Contents} (sound : s.Sound start) (notRun : s.com.state ≠ .run) :
    (s.step cycle).Sound start where
  contents := by
    have next : (s.step cycle).log = s.log ++ memoryWrites s.com.out cycle.proc := rfl
    rw [next, List.foldl_append, ← sound.contents]
    exact Memories.contents_risingEdge _ _ _
  stopped := by
    rw [step_com, ← Bool.not_eq_true, Com.processorEnable_iff]
    exact notRun
  settled := by
    rw [step_state, step_com, Com.risingEdge_stores]
    cases s.com.state <;> simp [ComState.next, ComState.stores]
  stored := by
    rw [step_status, step_com, Com.risingEdge_stores]
    intro done
    rw [done]
    rfl

theorem Sound.committed_eq_log {start : Contents} (sound : s.Sound start)
    (state : s.com.state ≠ .done) : s.committed = s.log := by
  rw [committed, sound.settled state, List.append_nil]

def slvRegs (s : Session) : Word × Word × Word :=
  (s.logic.slvReg0, s.logic.slvReg1, s.logic.slvReg2)

theorem step_slvRegs (quiet : (s.bus cycle).wrCE = 0#5) : (s.step cycle).slvRegs = s.slvRegs := by
  simp [slvRegs, step, UserLogic.risingEdge, quiet]

theorem step_slvRegs_none (now : s.current cycle = none) : (s.step cycle).slvRegs = s.slvRegs :=
  step_slvRegs (by simp [bus, now, Bus2Ip.idle])

theorem step_slvRegs_wait (now : s.current cycle = some .wait) :
    (s.step cycle).slvRegs = s.slvRegs :=
  step_slvRegs (by simp [bus, now, Access.bus])

theorem step_slvRegs_readReg {offset : Nat} (now : s.current cycle = some (.readReg offset)) :
    (s.step cycle).slvRegs = s.slvRegs :=
  step_slvRegs (by simp [bus, now, Access.bus])

theorem step_slvRegs_writeReg {offset : Nat} {value : Word}
    (now : s.current cycle = some (.writeReg offset value)) :
    (s.step cycle).slvRegs =
      (if chipEnable offset = 0b10000#5 then value else s.logic.slvReg0,
        if chipEnable offset = 0b01000#5 then value else s.logic.slvReg1,
        if chipEnable offset = 0b00100#5 then value else s.logic.slvReg2) := by
  simp [slvRegs, step, UserLogic.risingEdge, bus, now, Access.bus, mergeBytes_all]

end Session

end Tdt4255
