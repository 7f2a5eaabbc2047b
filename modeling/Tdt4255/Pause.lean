import Tdt4255.Hardware.Boundary

/-! Stopping and restarting the processor. -/

namespace Tdt4255

open Machine

def enableOut (enabled : Bool) : ComOut := if enabled then ComOut.run else ComOut.quiet

/-- One clock cycle of a schedule: a falling edge, then a rising one. -/
def Machine.cycle (enabled : Bool) (s : Machine) : Machine :=
  s.period .eventDriven false (enableOut enabled)

def Machine.afterSchedule (s : Machine) : List Bool → Machine
  | [] => s
  | enabled :: rest => (s.cycle enabled).afterSchedule rest

namespace Machine

/-- Index and value that `REGISTERS` stores at the falling edge. -/
def registerCommit (s : Machine) : Option (BitVec 5 × Word) :=
  if s.control.regWrite = true then
    some (s.proc.writeRegAddr s.imemDataIn, s.proc.registerWriteData s.imemDataIn s.dmemDataIn)
  else none

/-- Address and value that `DATA_MEM` stores at the rising edge. -/
def memoryCommit (c : ComOut) (s : Machine) : Option (MemAddress × Word) :=
  if (dmemPorts c s.out).writeEnable = true then
    some ((dmemPorts c s.out).addressWr.setWidth 8, (dmemPorts c s.out).writeData)
  else none

def registerCommits (s : Machine) : List Bool → List (BitVec 5 × Word)
  | [] => []
  | enabled :: rest => s.registerCommit.toList ++ (s.cycle enabled).registerCommits rest

def memoryCommits (s : Machine) : List Bool → List (MemAddress × Word)
  | [] => []
  | enabled :: rest =>
    ((s.fallingEdge .eventDriven false).memoryCommit (enableOut enabled)).toList ++
      (s.cycle enabled).memoryCommits rest

end Machine

/-- A run under the schedule cannot be told from one that is enabled for as
many cycles in a row. -/
structure Transparent (schedule : List Bool) (s : Machine) : Prop where
  registers : s.registerCommits schedule =
    s.registerCommits (List.replicate (schedule.count true) true)
  memory : s.memoryCommits schedule = s.memoryCommits (List.replicate (schedule.count true) true)
  visible : (s.afterSchedule schedule).visible =
    (s.afterSchedule (List.replicate (schedule.count true) true)).visible

/-- No cycle is a stutter, not even a disabled one: the control unit moves. -/
theorem Machine.cycle_state_ne (enabled : Bool) (s : Machine) :
    (s.cycle enabled).proc.state ≠ s.proc.state := by
  rw [Machine.cycle, period_state]
  cases s.proc.state with
  | aluFetch => simp [aluStateNext]
  | aluExe =>
    rw [aluStateNext]
    split_ifs <;> simp
  | aluStall => simp [aluStateNext]

/-- `li $1, 1` in every word, and a control unit between `ALU_FETCH` and
`ALU_EXE`. -/
structure Machine.LoadsImmediates (s : Machine) : Prop where
  program : s.mems.imem.mem = fun _ => 0x3C010001#32
  state : s.proc.state ≠ .aluStall

namespace Machine

theorem LoadsImmediates.imemDataIn {s : Machine} (loads : s.LoadsImmediates) :
    s.imemDataIn = 0x3C010001#32 := by
  rw [Machine.imemDataIn, Memory.readData, loads.program]

theorem LoadsImmediates.cycle {s : Machine} (loads : s.LoadsImmediates) (enabled : Bool) :
    (s.cycle enabled).LoadsImmediates where
  program := by
    have kept : (s.cycle enabled).mems.imem.mem = s.mems.imem.mem := by
      cases enabled <;> simp [Machine.cycle, period, Memories.risingEdge, Memory.risingEdge,
        enableOut, ComOut.run, ComOut.quiet, imemWriteEnableMux]
    exact kept.trans loads.program
  state := by
    have word : TwoCycle s.imemDataIn := by
      rw [loads.imemDataIn]
      decide
    rw [Machine.cycle, period_state]
    cases state : s.proc.state with
    | aluFetch => simp [aluStateNext]
    | aluExe => simp [word.next]
    | aluStall => exact absurd state loads.state

theorem LoadsImmediates.length_registerCommits {s : Machine} (loads : s.LoadsImmediates)
    (schedule : List Bool) :
    (s.registerCommits schedule).length =
      (schedule.length + if s.proc.state = .aluExe then 1 else 0) / 2 := by
  induction schedule generalizing s with
  | nil => simp only [registerCommits, List.length_nil]; split_ifs <;> rfl
  | cons enabled rest ih =>
    have op : opCode s.imemDataIn = 0b001111#6 := by
      rw [loads.imemDataIn]
      decide
    have written : s.control.regWrite = decide (s.proc.state = .aluExe) := by
      rw [control_eq, signalSetup_regWrite]
      simp [op]
    have next : (s.cycle enabled).proc.state = aluStateNext (opCode s.imemDataIn) s.proc.state :=
      period_state _ _ _ _
    rw [registerCommits, List.length_append, ih (loads.cycle enabled), next, registerCommit, written,
      List.length_cons]
    cases state : s.proc.state with
    | aluFetch => simp [aluStateNext]
    | aluExe =>
      simp [aluStateNext, op]
      omega
    | aluStall => exact absurd state loads.state

end Machine

/-- A machine that is caught by the schedule: it starts in the phase in which
the next cycle after the enabled ones would write a register. -/
def phaseMachine (enabledCycles : Nat) : Machine where
  proc :=
    { state := if enabledCycles % 2 = 0 then .aluExe else .aluFetch
      pcOutput := 0
      regs := fun _ => 0
      branchingMuxOutput := 0
      pcInput := 0 }
  mems :=
    { imem := { mem := fun _ => 0x3C010001#32, addressReg := 0 }
      dmem := { mem := fun _ => 0, addressReg := 0 } }

theorem phaseMachine_loads (k : Nat) : (phaseMachine k).LoadsImmediates where
  program := rfl
  state := by
    simp only [phaseMachine]
    split_ifs <;> simp

theorem phaseMachine_commits {schedule : List Bool} {k : Nat} (longer : k < schedule.length) :
    ((phaseMachine k).registerCommits schedule).length ≠
      ((phaseMachine k).registerCommits (List.replicate k true)).length := by
  have loads := phaseMachine_loads k
  rw [loads.length_registerCommits, loads.length_registerCommits, List.length_replicate]
  simp only [phaseMachine]
  by_cases even : k % 2 = 0 <;> simp [even] <;> omega

/-- For each machine by itself: nothing can be told from a schedule that never
disables. -/
theorem transparent_of_enabled {schedule : List Bool} (enabled : false ∉ schedule) (s : Machine) :
    Transparent schedule s := by
  have each : ∀ b ∈ schedule, true = b := fun b member =>
    (Bool.eq_true_of_not_eq_false fun stopped => enabled (stopped ▸ member)).symm
  have all : List.replicate (schedule.count true) true = schedule := by
    rw [List.count_eq_length.mpr each]
    exact (List.eq_replicate_of_mem fun b member => (each b member).symm).symm
  exact ⟨by rw [all], by rw [all], by rw [all]⟩

/-- The processor cannot be stopped without trace: a schedule is transparent
for every program and state precisely when it never disables. -/
theorem pause_transparent_iff (schedule : List Bool) :
    (∀ s, Transparent schedule s) ↔ false ∉ schedule := by
  constructor
  · intro transparent disabled
    have shorter : schedule.count true < schedule.length := by
      refine lt_of_le_of_ne List.count_le_length fun all => ?_
      exact absurd (List.count_eq_length.mp all false disabled) (by decide)
    have same := (transparent (phaseMachine (schedule.count true))).registers
    exact phaseMachine_commits shorter (congrArg List.length same)
  · exact transparent_of_enabled

def storeMachine : Machine := atBoundary (fun _ => 0xAC010000#32) (fun _ => 0) (fun _ => 7) 0

set_option maxRecDepth 4000 in
/-- A pause in `ALU_STALL` loses the store. -/
theorem paused_store_lost :
    storeMachine.memoryCommits [true, true] = [(0, 7)] ∧
      storeMachine.memoryCommits [true, false, true] = [] ∧
      ¬ Transparent [true, false, true] storeMachine := by
  have stored : storeMachine.memoryCommits [true, true] = [(0, 7)] := by decide
  have lost : storeMachine.memoryCommits [true, false, true] = [] := by decide
  refine ⟨stored, lost, fun transparent => ?_⟩
  have same : storeMachine.memoryCommits [true, false, true] =
      storeMachine.memoryCommits [true, true] := transparent.memory
  rw [stored, lost] at same
  exact absurd same (by decide)

end Tdt4255
