import Tdt4255.Reset
import Tdt4255.Traffic

/-! What the processor does while a program is being loaded. -/

namespace Tdt4255

open Machine

/-- In `ALU_EXE` or `ALU_STALL`. -/
def Machine.InExecution (s : Machine) : Prop := s.proc.state ≠ .aluFetch

/-- The control unit does not look at processor_enable, so no two periods in
a row are both spent in `ALU_FETCH`. -/
theorem Machine.inExecution_period (reading : Reading) (s : Machine) (c : ComOut) :
    s.InExecution ∨ (s.period reading false c).InExecution := by
  by_cases state : s.proc.state = .aluFetch
  · refine Or.inr ?_
    rw [InExecution, period_state, state, aluStateNext]
    decide
  · exact Or.inl state

section Loading

variable (reading : Reading) (bus : Nat → BusIn) (t : Toplevel)

/-- Period `k` is the first in which `com` drives processor_enable. -/
structure FirstEnabled (k : Nat) : Prop where
  enabled : (t.traffic reading bus k).com.out.processorEnable = true
  stopped : ∀ j < k, (t.traffic reading bus j).com.out.processorEnable = false

/-- The program counter and the registers are those of the reset when the
processor is first enabled, and until then no instruction executes. -/
structure StartsFromReset : Prop where
  counter : ∀ k, FirstEnabled reading bus t k →
    (t.traffic reading bus k).machine.proc.pcOutput = 0
  registers : ∀ k, FirstEnabled reading bus t k →
    registerFileRead (t.traffic reading bus k).machine.proc.regs =
      registerFileRead t.machine.proc.regs
  idle : ∀ k, (∀ j ≤ k, (t.traffic reading bus j).com.out.processorEnable = false) →
    ¬ (t.traffic reading bus k).machine.InExecution

variable {t}

/-- CMD_RUN takes two clock periods to enable the processor. -/
theorem disabled_early (reset : t.com = .afterReset) {j : Nat} (early : j ≤ 1) :
    (t.traffic reading bus j).com.out.processorEnable = false := by
  by_contra enabled
  obtain ⟨i, rfl, -⟩ := Toplevel.enabled_cause reset (by simpa using enabled)
  omega

/-- No program starts from the reset state: whatever is on the bus and in the
memories, one of any two periods executes an instruction, and for the first
two of them the processor is never enabled. -/
theorem never_starts_from_reset (reset : t.com = .afterReset) :
    (∀ k, (t.traffic reading bus k).machine.InExecution ∨
        (t.traffic reading bus (k + 1)).machine.InExecution) ∧
      ¬ StartsFromReset reading bus t := by
  have executes : ∀ k, (t.traffic reading bus k).machine.InExecution ∨
      (t.traffic reading bus (k + 1)).machine.InExecution :=
    fun k => inExecution_period reading _ _
  refine ⟨executes, fun starts => ?_⟩
  rcases executes 0 with first | second
  · exact starts.idle 0 (fun j bound => disabled_early reading bus reset (by omega)) first
  · exact starts.idle 1 (fun j bound => disabled_early reading bus reset bound) second

end Loading

def afterReset : Toplevel where
  com := .afterReset
  machine := powerOn.simulatedPeriod true .quiet

/-- The word `v` goes to instruction address 0, then the processor is started. -/
def loadOneWord (v : Word) (k : Nat) : BusIn where
  command := if k < 2 then cmdWi else if k = 2 then cmdNone else cmdRun
  busAddressIn := 0
  busDataIn := v

theorem never_starts_from_reset_li :
    ¬ StartsFromReset .eventDriven (loadOneWord 0x3C010005#32) afterReset :=
  (never_starts_from_reset .eventDriven (loadOneWord 0x3C010005#32) (t := afterReset) rfl).2

theorem afterReset_pc : afterReset.machine.proc.pcOutput = 0 := rfl

theorem loadOneWord_firstEnabled (v : Word) :
    FirstEnabled .eventDriven (loadOneWord v) afterReset 5 where
  enabled := by rfl
  stopped := by
    intro j before
    interval_cases j <;> rfl

set_option maxRecDepth 4000 in
/-- `li $1, 5` is loaded into the first word of an empty program memory; the
counter has passed it by the time the processor is started. -/
theorem loader_does_not_stop_processor :
    afterReset.com = .afterReset ∧ afterReset.machine.proc.pcOutput = 0 ∧
      FirstEnabled .eventDriven (loadOneWord 0x3C010005#32) afterReset 5 ∧
      (afterReset.traffic .eventDriven (loadOneWord 0x3C010005#32) 5).machine.proc.pcOutput = 2#32 ∧
      ¬ StartsFromReset .eventDriven (loadOneWord 0x3C010005#32) afterReset := by
  have first := loadOneWord_firstEnabled 0x3C010005#32
  have passed :
      (afterReset.traffic .eventDriven (loadOneWord 0x3C010005#32) 5).machine.proc.pcOutput =
        2#32 := by
    decide
  refine ⟨rfl, afterReset_pc, first, passed, fun starts => ?_⟩
  exact absurd (passed.symm.trans (starts.counter 5 first)) (by decide)

end Tdt4255
