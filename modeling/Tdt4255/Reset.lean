import Tdt4255.Hardware.Boundary
import Tdt4255.Hardware.Delta
import Tdt4255.NarrowPc

/-! Where execution resumes after RESET, in a simulator. The events that Zero
has before it settles decide it too, so the falling edges are run delta cycle
by delta cycle. -/

namespace Tdt4255

open Machine

namespace Machine

def Executing (s : Machine) : Prop := s.proc.state = .aluExe

instance : DecidablePred Executing := fun s => inferInstanceAs (Decidable (s.proc.state = _))

/-- The address selected at a falling edge that no reset disturbs. -/
def nextAddress (s : Machine) : Word :=
  if s.proc.state = .aluExe ∧ opCode s.imemDataIn = 0b000100#6 ∧ s.rsValue = s.rtValue then
    s.proc.pcOutput + 1#32 + (immediate s.imemDataIn).signExtend 32
  else s.proc.pcOutput + 1#32

/-- Before the last falling edge in reset: the program counter is about to be
written anyway, or will be next, and what is selected for it is cell 0 and is
not selected again, since the edge writes no register that moves Zero. -/
def ReleasedInPhase (s : Machine) : Prop :=
  s.proc.state = .aluFetch ∨
    (s.proc.state = .aluStall ∨ s.proc.state = .aluExe ∧ TwoCycle s.imemDataIn) ∧
      SameCell s.nextAddress 0 ∧ s.ZeroSteady

theorem branchingControlProcess_next (s : Machine) :
    s.branchingControlProcess = s.nextAddress := by
  unfold nextAddress
  by_cases state : s.proc.state = .aluExe
  · simp [branchingControlProcess_exe s state, state]
  · simp [branchingControlProcess_idle s state, state]

section Release

variable (s : Machine) (c : ComOut)

/-- A re-evaluation comes six delta cycles later at the earliest, when the
incrementer already counts from 0, and then what is selected is odd. -/
theorem reset_branchingMuxOutput :
    SameCell (s.simulatedFallingEdge true).proc.branchingMuxOutput 0 ↔
      SameCell s.nextAddress 0 ∧ s.ZeroSteady := by
  change SameCell (s.branchingMuxOutput true settleTime) 0 ↔ _
  by_cases steady : s.ZeroSteady
  · rw [branchingMuxOutput_steady steady, branchingControlProcess_next]
    exact (and_iff_left steady).symm
  · refine ⟨fun zero => ?_, fun both => absurd both.2 steady⟩
    have odd := branchingMuxOutput_reset_odd steady
    have even := congrArg (fun a => a.getLsbD 0) zero
    simp only [BitVec.getLsbD_setWidth, odd] at even
    simp at even

theorem release_fetch (inputs : Nat → ComOut) (state : s.proc.state = .aluFetch) :
    Sampled.Window (period .eventDriven false) Executing inputs (s.simulatedPeriod true c) 0 ∧
      (s.simulatedPeriod true c).mems.imem.addressReg = 0 := by
  refine ⟨⟨by simp, ?_⟩, rfl⟩
  simp [Executing, simulatedPeriod_state, state, aluStateNext]

theorem window_fetch (inputs : Nat → ComOut) (state : s.proc.state = .aluFetch) :
    Sampled.Window (period .eventDriven false) Executing inputs s 1 ∧
      (Sampled.run (period .eventDriven false) inputs s 1).mems.imem.addressReg =
        s.proc.pcInput := by
  refine ⟨⟨?_, ?_⟩, ?_⟩
  · intro j before
    obtain rfl : j = 0 := by omega
    simp [Executing, state]
  · simp [Executing, Sampled.run, state, aluStateNext]
  · rw [Sampled.run_succ, Sampled.run_zero, period_imemAddress, period_pcOutput, if_pos state]

/-- One period more from `ALU_STALL`, where the incremented counter is
selected again. -/
theorem window_stall (inputs : Nat → ComOut) (state : s.proc.state = .aluStall) :
    Sampled.Window (period .eventDriven false) Executing inputs s 2 ∧
      (Sampled.run (period .eventDriven false) inputs s 2).mems.imem.addressReg =
        s.proc.pcOutput + 1#32 := by
  have enters : (s.period .eventDriven false (inputs 0)).proc.state = .aluFetch := by
    rw [period_state, state, aluStateNext]
  obtain ⟨window, fetched⟩ := window_fetch _ (fun j => inputs (1 + j)) enters
  refine ⟨⟨?_, ?_⟩, ?_⟩
  · intro j before
    obtain rfl | rfl : j = 0 ∨ j = 1 := by omega
    · simp [Executing, state]
    · exact window.quiet 0 (by omega)
  · exact window.crossed
  · rw [← latchedNext_stall .eventDriven state,
      ← period_pcInput .eventDriven s (c := inputs 0) enters]
    exact fetched

end Release

end Machine

/-- The first `ALU_EXE` cycle entered from here on has fetched cell 0. -/
def RestartsAtZero (inputs : Nat → ComOut) (s : Machine) : Prop :=
  ∃ d, Sampled.Window (simulatedPeriod false) Executing inputs s d ∧
    SameCell (Sampled.run (simulatedPeriod false) inputs s d).mems.imem.addressReg 0

theorem restartsAtZero_of_window {inputs : Nat → ComOut} {s : Machine} {d : Nat} {a : Word}
    (window : Sampled.Window (period .eventDriven false) Executing inputs s d ∧
      (Sampled.run (period .eventDriven false) inputs s d).mems.imem.addressReg = a) :
    RestartsAtZero inputs s ↔ SameCell a 0 := by
  obtain ⟨first, rfl⟩ := window
  rw [RestartsAtZero, simulatedPeriod_running]
  constructor
  · rintro ⟨e, other, zero⟩
    rwa [first.unique other]
  · exact fun zero => ⟨d, first, zero⟩

theorem release_restarts_iff (s : Machine) (c : ComOut) (inputs : Nat → ComOut) :
    RestartsAtZero inputs (s.simulatedPeriod true c) ↔ s.ReleasedInPhase := by
  have next := s.simulatedPeriod_state true c
  unfold ReleasedInPhase
  cases state : s.proc.state with
  | aluFetch =>
    rw [restartsAtZero_of_window (release_fetch s c inputs state)]
    simp [SameCell]
  | aluStall =>
    have enters : (s.simulatedPeriod true c).proc.state = .aluFetch := by
      rw [next, state, aluStateNext]
    rw [restartsAtZero_of_window (window_fetch _ inputs enters), simulatedPeriod,
      risingEdge_pcInput_enters _ enters, reset_branchingMuxOutput]
    simp
  | aluExe =>
    by_cases word : TwoCycle s.imemDataIn
    · have enters : (s.simulatedPeriod true c).proc.state = .aluFetch := by
        rw [next, state, word.next]
      rw [restartsAtZero_of_window (window_fetch _ inputs enters), simulatedPeriod,
        risingEdge_pcInput_enters _ enters, reset_branchingMuxOutput]
      simp [word]
    · have enters : (s.simulatedPeriod true c).proc.state = .aluStall := by
        rw [next, state, TwoCycle.next_not word]
      have zero : (s.fallen true).pcOutput = 0 := rfl
      rw [restartsAtZero_of_window (window_stall _ inputs enters), simulatedPeriod_pcOutput, zero]
      simp [word, SameCell]

/-- A reset pulse over `w + 1` falling edges, from any state and whatever the
loader does, restarts at cell 0 in a simulator for precisely those states
before its last falling edge that are in phase. -/
theorem reset_restarts_iff (s : Machine) (w : Nat) (inputs : Nat → ComOut) :
    RestartsAtZero (fun j => inputs (w + 1 + j))
        (Sampled.run (simulatedPeriod true) inputs s (w + 1)) ↔
      (Sampled.run (simulatedPeriod true) inputs s w).ReleasedInPhase :=
  release_restarts_iff _ _ _

/-- The initial values of the signals; those without one are taken as 0. -/
def powerOn : Machine where
  proc :=
    { state := .aluFetch
      pcOutput := 0xFFFFFFFF#32
      regs := fun _ => 0
      branchingMuxOutput := 0
      pcInput := 0 }
  mems :=
    { imem := { mem := fun _ => 0, addressReg := 0 }
      dmem := { mem := fun _ => 0, addressReg := 0 } }

/-- Two clock cycles of reset after power-on leave execution at address 1. -/
theorem power_on_reset_misses_zero :
    ¬ RestartsAtZero (fun _ => ComOut.quiet)
      (Sampled.run (simulatedPeriod true) (fun _ => ComOut.quiet) powerOn 2) := by
  rw [Sampled.run_succ, release_restarts_iff]
  have state : (powerOn.simulatedPeriod true .quiet).proc.state = .aluExe := by decide
  have next : (powerOn.simulatedPeriod true .quiet).nextAddress = 1#32 := by decide
  rintro (fetching | ⟨-, zero, -⟩)
  · exact absurd (state.symm.trans fetching) (by decide)
  · exact absurd ((congrArg (BitVec.setWidth 8) next).symm.trans zero) (by decide)

end Tdt4255
