import Tdt4255.Hardware.AluDelta
import Tdt4255.Hardware.Edges

/-! What the wires of the data path do in the delta cycles after a falling
edge, before they settle. -/

namespace Tdt4255

/-- The signals of the data path that move at a falling edge. -/
@[ext] structure Wires where
  registerRsOutput : Word
  registerRtOutput : Word
  mainAluX : Word
  mainAluY : Word
  mainAlu : AluWires 32
  pcIncrementer : AluWires 32
  branchingAlu : AluWires 32

namespace Wires

variable (p : Processor) (imemDataIn : Word)

/-- One delta cycle behind the registers and the counter of `p`. -/
def delta (w : Wires) : Wires where
  registerRsOutput := p.registerRsOutput imemDataIn
  registerRtOutput := p.registerRtOutput imemDataIn
  mainAluX := w.registerRsOutput
  mainAluY :=
    if (p.control imemDataIn).aluSrc = true then Processor.signExtenderOutput imemDataIn
    else w.registerRtOutput
  mainAlu := w.mainAlu.delta w.mainAluX w.mainAluY (p.mainAluInput imemDataIn)
  pcIncrementer := w.pcIncrementer.delta pcIncrementSignal p.pcOutput aluAddInputSignal
  branchingAlu :=
    w.branchingAlu.delta (Processor.signExtenderOutput imemDataIn) w.pcIncrementer.r
      aluAddInputSignal

/-- The values of `Processor`, which knows the settled wires only. -/
def settled : Wires where
  registerRsOutput := p.registerRsOutput imemDataIn
  registerRtOutput := p.registerRtOutput imemDataIn
  mainAluX := p.mainAluX imemDataIn
  mainAluY := p.mainAluY imemDataIn
  mainAlu :=
    .settled (p.mainAluX imemDataIn) (p.mainAluY imemDataIn) (p.mainAluInput imemDataIn)
  pcIncrementer := .settled pcIncrementSignal p.pcOutput aluAddInputSignal
  branchingAlu :=
    .settled (Processor.signExtenderOutput imemDataIn) p.aluPcOutput aluAddInputSignal

/-- An evaluation of `branching_control_process` while they settle. -/
def branchingControlProcess (w : Wires) : Word :=
  if (p.control imemDataIn).branch = true ∧ w.mainAlu.zero = true then w.branchingAlu.r
  else w.pcIncrementer.r

end Wires

namespace Machine

variable (s : Machine) (reset : StdLogic)

/-- The first delta cycle after a falling edge: what the processes with CLK in
their sensitivity list have assigned. -/
def fallen : Processor := s.proc.fallingEdge s.imemDataIn s.dmemDataIn reset

/-- The wires, `k` delta cycles later. -/
def wires (k : Nat) : Wires :=
  (Wires.delta (s.fallen reset) s.imemDataIn)^[k] (Wires.settled s.proc s.imemDataIn)

/-- `Branching_Mux_Output` in the same cycles: every event of Zero runs its
process again. Branch and JmpEnable have no event at a falling edge. -/
def branchingMuxOutput : Nat → Word
  | 0 => (s.fallen reset).branchingMuxOutput
  | k + 1 =>
    if (s.wires reset (k + 1)).mainAlu.zero ≠ (s.wires reset k).mainAlu.zero then
      (s.wires reset (k + 1)).branchingControlProcess (s.fallen reset) s.imemDataIn
    else branchingMuxOutput k

/-- Twice what an ALU needs, since `branching_alu` waits for `PC_incrementer`. -/
def settleTime : Nat := 2 * (32 + 7)

/-- A falling edge as a simulator runs it, delta cycle by delta cycle. -/
def simulatedFallingEdge (s : Machine) : Machine where
  proc := { s.fallen reset with branchingMuxOutput := s.branchingMuxOutput reset settleTime }
  mems := s.mems

/-- The registers after the write that the falling edge makes. -/
def written : Processor :=
  { s.proc with
    regs :=
      registerFileWrite s.control.regWrite (s.proc.writeRegAddr s.imemDataIn)
        (s.proc.registerWriteData s.imemDataIn s.dmemDataIn) s.proc.regs }

theorem wires_succ (k : Nat) :
    s.wires reset (k + 1) = (s.wires reset k).delta (s.fallen reset) s.imemDataIn :=
  Function.iterate_succ_apply' _ _ _

/-- What the edge does to the registers reaches the main ALU two delta cycles
later. -/
theorem wires_operands (k : Nat) :
    (s.wires reset (k + 2)).mainAluX = s.written.mainAluX s.imemDataIn ∧
      (s.wires reset (k + 2)).mainAluY = s.written.mainAluY s.imemDataIn := by
  rw [wires_succ, wires_succ]
  exact ⟨rfl, rfl⟩

theorem wires_mainAlu (k : Nat) :
    (s.wires reset (k + 2)).mainAlu =
      (AluWires.settled (s.proc.mainAluX s.imemDataIn) (s.proc.mainAluY s.imemDataIn)
          (s.proc.mainAluInput s.imemDataIn)).after
        (s.written.mainAluX s.imemDataIn) (s.written.mainAluY s.imemDataIn)
        (s.proc.mainAluInput s.imemDataIn) k := by
  have fixed := AluWires.delta_settled (s.proc.mainAluX s.imemDataIn)
    (s.proc.mainAluY s.imemDataIn) (s.proc.mainAluInput s.imemDataIn) (by decide)
  have first : (s.wires reset 1).mainAlu = (s.wires reset 0).mainAlu := fixed
  induction k with
  | zero =>
    rw [wires_succ, Wires.delta]
    simp only
    rw [first]
    exact fixed
  | succ k ih =>
    obtain ⟨x, y⟩ := s.wires_operands reset k
    rw [wires_succ, AluWires.after_succ, ← ih, Wires.delta, x, y]
    rfl

theorem wires_zero (k : Nat) (early : k ≤ 5) :
    (s.wires reset k).mainAlu.zero = s.mainAlu.flags.zero := by
  match k with
  | 0 => rfl
  | 1 =>
    exact congrArg AluWires.zero (AluWires.delta_settled (s.proc.mainAluX s.imemDataIn)
      (s.proc.mainAluY s.imemDataIn) (s.proc.mainAluInput s.imemDataIn) (by decide))
  | k + 2 =>
    rw [wires_mainAlu]
    exact AluWires.zero_early (by decide) (by omega)

theorem wires_pcIncrementer (k : Nat) :
    (s.wires reset k).pcIncrementer =
      (AluWires.settled pcIncrementSignal s.proc.pcOutput aluAddInputSignal).after
        pcIncrementSignal (s.fallen reset).pcOutput aluAddInputSignal k := by
  induction k with
  | zero => rfl
  | succ k ih =>
    rw [wires_succ, AluWires.after_succ, ← ih]
    rfl

/-- Zero survives the register write of the falling edge without an event. -/
def ZeroSteady : Prop :=
  AluWires.ZeroSteady (s.proc.mainAluX s.imemDataIn) (s.proc.mainAluY s.imemDataIn)
    (s.written.mainAluX s.imemDataIn) (s.written.mainAluY s.imemDataIn)
    (s.proc.mainAluInput s.imemDataIn)

instance : Decidable s.ZeroSteady := inferInstanceAs (Decidable (AluWires.ZeroSteady ..))

theorem zeroSteady_iff :
    s.ZeroSteady ↔ ∀ k, (s.wires reset k).mainAlu.zero = s.mainAlu.flags.zero := by
  constructor
  · intro steady k
    match k with
    | 0 | 1 => exact s.wires_zero reset _ (by omega)
    | k + 2 =>
      rw [wires_mainAlu]
      exact steady.always (by decide) k
  · intro same k _
    rw [← wires_mainAlu]
    exact same (k + 2)

variable {s reset}

/-- A write that changes no operand of the main ALU moves nothing. -/
theorem zeroSteady_same (x : s.written.mainAluX s.imemDataIn = s.proc.mainAluX s.imemDataIn)
    (y : s.written.mainAluY s.imemDataIn = s.proc.mainAluY s.imemDataIn) : s.ZeroSteady := by
  rw [ZeroSteady, x, y]
  exact AluWires.zeroSteady_same (by decide)

theorem zeroSteady_quiet (quiet : s.control.regWrite = false) : s.ZeroSteady := by
  have same : s.written = s.proc := by
    rw [written, quiet]
    rfl
  exact zeroSteady_same (by rw [same]) (by rw [same])

theorem branchingMuxOutput_steady (steady : s.ZeroSteady) (k : Nat) :
    s.branchingMuxOutput reset k = s.branchingControlProcess := by
  have same := (s.zeroSteady_iff reset).mp steady
  induction k with
  | zero => rfl
  | succ k ih =>
    rw [branchingMuxOutput, same (k + 1), same k]
    exact (if_neg (not_not_intro rfl)).trans ih

/-- An event of Zero comes from a register write, so the counter is not
written and nothing branches. -/
theorem control_of_not_steady (moves : ¬ s.ZeroSteady) :
    s.control.branch = false ∧ s.control.pcWriteEnb = false := by
  refine control_of_regWrite s ?_
  by_contra quiet
  exact moves (zeroSteady_quiet (by simpa using quiet))

theorem branchingMuxOutput_event {k : Nat} (low : s.control.branch = false)
    (event : (s.wires reset (k + 1)).mainAlu.zero ≠ (s.wires reset k).mainAlu.zero) :
    s.branchingMuxOutput reset (k + 1) = (s.wires reset (k + 1)).pcIncrementer.r := by
  have none : ¬ ((s.fallen reset).control s.imemDataIn).branch = true := ne_true_of_eq_false low
  rw [branchingMuxOutput, if_pos event, Wires.branchingControlProcess,
    if_neg fun both => none both.1]

/-- Out of reset an event of Zero selects once more what is selected already. -/
theorem branchingMuxOutput_running (k : Nat) :
    s.branchingMuxOutput false k = s.branchingControlProcess := by
  by_cases steady : s.ZeroSteady
  · exact branchingMuxOutput_steady steady k
  · obtain ⟨low, held⟩ := control_of_not_steady steady
    have kept : (s.fallen false).pcOutput = s.proc.pcOutput := by
      change programCounter false s.control.pcWriteEnb _ _ = _
      rw [held]
      rfl
    induction k with
    | zero => rfl
    | succ k ih =>
      by_cases event : (s.wires false (k + 1)).mainAlu.zero ≠ (s.wires false k).mainAlu.zero
      · rw [branchingMuxOutput_event low event, wires_pcIncrementer, kept,
          AluWires.after_same (by decide), branchingControlProcess_eq, low]
        exact s.proc.aluPcOutput_eq
      · rw [branchingMuxOutput, if_neg event, ih]

/-- In reset the incrementer has left the old counter behind by the time that
the first event of Zero can come. -/
theorem branchingMuxOutput_reset (moves : ¬ s.ZeroSteady) (k : Nat) :
    (∀ j ≤ k, (s.wires true j).mainAlu.zero = s.mainAlu.flags.zero) ∨
      (s.branchingMuxOutput true k).getLsbD 0 = true := by
  have low := (control_of_not_steady moves).1
  induction k with
  | zero =>
    refine Or.inl fun j bound => ?_
    rw [Nat.le_zero.mp bound]
    rfl
  | succ k ih =>
    by_cases event : (s.wires true (k + 1)).mainAlu.zero ≠ (s.wires true k).mainAlu.zero
    · have late : 6 ≤ k + 1 := by
        by_contra early
        exact event ((s.wires_zero true (k + 1) (by omega)).trans
          (s.wires_zero true k (by omega)).symm)
      refine Or.inr ?_
      rw [branchingMuxOutput_event low event, wires_pcIncrementer,
        AluWires.after_r_low _ (by decide) rfl rfl rfl late]
      change (s.fallen true).aluPcOutput.getLsbD 0 = true
      have zero : (s.fallen true).pcOutput = 0#32 := rfl
      rw [Processor.aluPcOutput_eq, zero]
      decide
    · rcases ih with before | odd
      · refine Or.inl fun j bound => ?_
        rcases Nat.le_succ_iff.mp bound with earlier | rfl
        · exact before j earlier
        · exact (not_not.mp event).trans (before k le_rfl)
      · exact Or.inr (by rwa [branchingMuxOutput, if_neg event])

theorem branchingMuxOutput_reset_odd (moves : ¬ s.ZeroSteady) :
    (s.branchingMuxOutput true settleTime).getLsbD 0 = true := by
  refine (branchingMuxOutput_reset moves settleTime).resolve_left fun still => moves ?_
  intro k bound
  rw [← wires_mainAlu]
  refine still (k + 2) ?_
  rw [settleTime]
  omega

/-! Nothing happens any more after `settleTime`. -/

theorem wires_branchingAlu (s : Machine) (reset : StdLogic) (k : Nat) :
    (s.wires reset (39 + k)).branchingAlu =
      (s.wires reset 39).branchingAlu.after (Processor.signExtenderOutput s.imemDataIn)
        (s.fallen reset).aluPcOutput aluAddInputSignal k := by
  induction k with
  | zero => rfl
  | succ k ih =>
    have counted : (s.wires reset (39 + k)).pcIncrementer.r = (s.fallen reset).aluPcOutput := by
      rw [wires_pcIncrementer, AluWires.after_settled _ _ _ _ (by decide) (by omega)]
      rfl
    rw [← Nat.add_assoc, wires_succ, AluWires.after_succ, ← ih, Wires.delta, counted]

theorem wires_settled {k : Nat} (late : settleTime ≤ k) :
    s.wires reset k = Wires.settled (s.fallen reset) s.imemDataIn := by
  rw [settleTime] at late
  obtain ⟨x, y⟩ := s.wires_operands reset (k - 2)
  have main := s.wires_mainAlu reset (k - 2)
  have branch := s.wires_branchingAlu reset (k - 39)
  rw [AluWires.after_settled _ _ _ _ (by decide) (by omega)] at main branch
  rw [show k - 2 + 2 = k by omega] at x y main
  rw [show 39 + (k - 39) = k by omega] at branch
  have inc := s.wires_pcIncrementer reset k
  rw [AluWires.after_settled _ _ _ _ (by decide) (by omega)] at inc
  have registers :
      (s.wires reset k).registerRsOutput = (s.fallen reset).registerRsOutput s.imemDataIn ∧
        (s.wires reset k).registerRtOutput = (s.fallen reset).registerRtOutput s.imemDataIn := by
    obtain ⟨k, rfl⟩ := Nat.exists_eq_add_of_le' (show 1 ≤ k by omega)
    rw [wires_succ]
    exact ⟨rfl, rfl⟩
  exact Wires.ext registers.1 registers.2 x y main inc branch

theorem branchingMuxOutput_settled {k : Nat} (late : settleTime ≤ k) :
    s.branchingMuxOutput reset k = s.branchingMuxOutput reset settleTime := by
  induction k, late using Nat.le_induction with
  | base => rfl
  | succ k late ih =>
    rw [branchingMuxOutput, wires_settled late, wires_settled (late.trans (Nat.le_succ k))]
    exact (if_neg (not_not_intro rfl)).trans ih

/-- Out of reset it is enough to compare the settled wires. -/
theorem simulatedFallingEdge_running :
    s.simulatedFallingEdge false = s.fallingEdge .eventDriven false := by
  have jump : ¬ jumpEvent s { proc := s.fallen false, mems := s.mems } := by
    simp only [jumpEvent, control, imemDataIn, ne_eq, not_not]
    rfl
  rw [simulatedFallingEdge, branchingMuxOutput_running, ← fallingEdge_branchingMuxOutput_running]
  rw [fallingEdge, settle]
  simp only [setPcInput, setBranchingMuxOutput]
  change _ = Machine.mk { s.fallen false with
    branchingMuxOutput := _
    pcInput := if jumpEvent s { proc := s.fallen false, mems := s.mems } then _ else _ } s.mems
  rw [if_neg jump]
  rfl

/-- `period` with the falling edge run so. -/
def simulatedPeriod (reset : StdLogic) (c : ComOut) (s : Machine) : Machine :=
  (s.simulatedFallingEdge reset).risingEdge .eventDriven c

theorem simulatedPeriod_running : simulatedPeriod false = period .eventDriven false := by
  funext c s
  rw [simulatedPeriod, simulatedFallingEdge_running, period]

variable (s reset) (c : ComOut)

theorem simulatedPeriod_state :
    (s.simulatedPeriod reset c).proc.state = aluStateNext (opCode s.imemDataIn) s.proc.state :=
  risingEdge_state ..

theorem simulatedPeriod_pcOutput :
    (s.simulatedPeriod reset c).proc.pcOutput = (s.fallen reset).pcOutput :=
  risingEdge_pcOutput ..

/-! What the two processes select while the wires settle after a rising edge
does not last. -/

/-- Both signals are assigned anew at a falling edge. -/
theorem fallen_latches (b p : Word) (fetching : s.proc.state = .aluFetch → p = s.proc.pcInput) :
    ((s.setBranchingMuxOutput b).setPcInput p).fallen reset =
      { s.fallen reset with pcInput := (s.setBranchingMuxOutput b).jumpControlProcess } := by
  have counter : programCounter reset s.control.pcWriteEnb p s.proc.pcOutput =
      programCounter reset s.control.pcWriteEnb s.proc.pcInput s.proc.pcOutput := by
    by_cases state : s.proc.state = .aluFetch
    · rw [fetching state]
    · have held : s.control.pcWriteEnb = false := by
        change (signalSetup (opCode s.imemDataIn) s.proc.state).pcWriteEnb = false
        rw [signalSetup_pcWriteEnb]
        exact decide_eq_false state
      rw [held]
      rfl
  change ({ s.fallen reset with pcOutput := _, pcInput := _ } : Processor) = _
  exact congrArg (fun counted => ({ s.fallen reset with
    pcOutput := counted
    pcInput := (s.setBranchingMuxOutput b).jumpControlProcess } : Processor)) counter

/-- Whatever the two signals are left at, the next period is the same, but for
`pc_input` in `ALU_FETCH`. At the edge that enters it JmpEnable stays low, and
`risingEdge_pcInput_enters` tells the value. -/
theorem simulatedPeriod_latches (b p : Word)
    (fetching : s.proc.state = .aluFetch → p = s.proc.pcInput) :
    ((s.setBranchingMuxOutput b).setPcInput p).simulatedPeriod reset c =
      s.simulatedPeriod reset c := by
  have fallen := s.fallen_latches reset b p fetching
  have wires : ∀ k, ((s.setBranchingMuxOutput b).setPcInput p).wires reset k = s.wires reset k := by
    intro k
    rw [Machine.wires, fallen]
    rfl
  have selected : ∀ k, ((s.setBranchingMuxOutput b).setPcInput p).branchingMuxOutput reset k =
      s.branchingMuxOutput reset k := by
    intro k
    induction k with
    | zero => rfl
    | succ k ih =>
      rw [branchingMuxOutput, branchingMuxOutput, wires, wires, ih, fallen]
      rfl
  rw [simulatedPeriod, simulatedFallingEdge, selected, fallen]
  rfl

end Machine

end Tdt4255
