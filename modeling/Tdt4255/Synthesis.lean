import Tdt4255.Refinement

/-! Simulation against synthesis: the next-PC path under both readings of the
two processes with incomplete sensitivity lists. -/

namespace Tdt4255

open Machine

namespace Machine

/-- The state after `k` clock edges from just after a rising edge: falling
edges are the ones with even index. -/
def edges (reading : Reading) (inputs : Nat → ComOut) (s : Machine) : Nat → Machine
  | 0 => s
  | k + 1 =>
    if k % 2 = 0 then (edges reading inputs s k).fallingEdge reading false
    else (edges reading inputs s k).risingEdge reading (inputs (k / 2))

theorem edges_even (reading : Reading) (inputs : Nat → ComOut) (s : Machine) (k : Nat) :
    edges reading inputs s (2 * k) = Sampled.run (period reading false) inputs s k := by
  induction k with
  | zero => rfl
  | succ k ih =>
    rw [show 2 * (k + 1) = 2 * k + 1 + 1 by ring, edges, if_neg (by omega), edges,
      if_pos (by omega), ih, show (2 * k + 1) / 2 = k by omega]
    rfl

theorem edges_odd_pcOutput (reading : Reading) (inputs : Nat → ComOut) (s : Machine) (k : Nat) :
    (edges reading inputs s (2 * k + 1)).proc.pcOutput =
      (Sampled.run (period reading false) inputs s (k + 1)).proc.pcOutput := by
  rw [edges, if_pos (by omega), edges_even, Sampled.run_succ, period, risingEdge_pcOutput]

theorem window_pcOutput {reading : Reading} {inputs : Nat → ComOut} {s : Machine} {d j : Nat}
    (window : Sampled.Window (period reading false) Fetching inputs s d) (within : j ≤ d) :
    (Sampled.run (period reading false) inputs s j).proc.pcOutput = s.proc.pcOutput := by
  induction j with
  | zero => rfl
  | succ j ih =>
    rw [Sampled.run_succ, period_pcOutput]
    exact (if_neg (window.quiet j within)).trans (ih (by omega))

end Machine

/-- The program counters of a simulated and of a synthesized machine coincide
after every number of clock edges. -/
def PcAgree (inputs : Nat → ComOut) (s t : Machine) : Prop :=
  ∀ k, (edges .eventDriven inputs s k).proc.pcOutput =
    (edges .combinational inputs t k).proc.pcOutput

theorem pcAgree_iff_periods (inputs : Nat → ComOut) {s t : Machine} :
    PcAgree inputs s t ↔
      ∀ k, (Sampled.run (period .eventDriven false) inputs s k).proc.pcOutput =
        (Sampled.run (period .combinational false) inputs t k).proc.pcOutput := by
  constructor
  · intro agree k
    simpa only [edges_even] using agree (2 * k)
  · intro agree k
    obtain ⟨j, rfl | rfl⟩ := Nat.even_or_odd' k
    · simpa only [edges_even] using agree j
    · simpa only [edges_odd_pcOutput] using agree (j + 1)

/-- The instruction at the program counter is a branch that is taken and whose
target is not the next instruction. -/
def BranchesAway (imem : MemAddress → Word) (v : Visible) : Prop :=
  opCode (fetch imem v.pc) = 0b000100#6 ∧
    v.regs (rsField (fetch imem v.pc)) = v.regs (rtField (fetch imem v.pc)) ∧
    immediate (fetch imem v.pc) ≠ 0#16

/-- One instruction of a program read in storage order, branches ignored. -/
def straightNext (imem : MemAddress → Word) (v : Visible) : Visible :=
  { execute .combinational (fetch imem v.pc) v with pc := v.pc + 1#32 }

theorem executeNext_combinational (imem : MemAddress → Word) (v : Visible) :
    executeNext .combinational imem v = straightNext imem v := by
  simp [executeNext, execute, straightNext]

theorem signExtend_eq_zero_iff (imm : BitVec 16) : imm.signExtend 32 = 0#32 ↔ imm = 0#16 := by
  constructor
  · intro zero
    have value := congrArg BitVec.toInt zero
    rw [BitVec.toInt_signExtend_of_le (by decide)] at value
    exact BitVec.eq_of_toInt_eq value
  · rintro rfl
    rfl

theorem executeNext_pc_iff (imem : MemAddress → Word) (v : Visible) :
    (executeNext .eventDriven imem v).pc = (straightNext imem v).pc ↔ ¬ BranchesAway imem v := by
  have target : v.pc + 1#32 + (immediate (fetch imem v.pc)).signExtend 32 = v.pc + 1#32 ↔
      immediate (fetch imem v.pc) = 0#16 := by
    rw [add_eq_left, ← signExtend_eq_zero_iff]
    rfl
  simp only [executeNext, execute, straightNext, BranchesAway, true_and]
  split_ifs with taken
  · simp [target, taken]
  · simp only [true_iff]
    rintro ⟨op, same, -⟩
    exact taken ⟨op, same⟩

theorem executeNext_eventDriven {imem : MemAddress → Word} {v : Visible}
    (straight : ¬ BranchesAway imem v) : executeNext .eventDriven imem v = straightNext imem v := by
  ext1
  · exact (executeNext_pc_iff imem v).mpr straight
  · rfl
  · rfl

structure Paired (s t : Machine) : Prop where
  left : s.Boundary
  right : t.Boundary
  seen : s.visible = t.visible
  program : s.mems.imem.mem = t.mems.imem.mem

section Paired

variable {s t : Machine} {inputs : Nat → ComOut}

theorem Paired.word (p : Paired s t) : s.imemDataIn = t.imemDataIn := by
  rw [p.left.imemDataIn_eq, p.right.imemDataIn_eq, p.program]
  exact congrArg _ (congrArg Visible.pc p.seen)

def nextBoundary (s : Machine) : Nat := stalls s.imemDataIn + 1

theorem Paired.left_visible (p : Paired s t) (running : ∀ k, (inputs k).Running) :
    (Sampled.run (period .eventDriven false) inputs s (nextBoundary s)).visible =
      executeNext .eventDriven s.mems.imem.mem s.visible :=
  (p.left.window_running .eventDriven running).2.2.1

theorem Paired.right_visible (p : Paired s t) (running : ∀ k, (inputs k).Running) :
    (Sampled.run (period .combinational false) inputs t (nextBoundary s)).visible =
      straightNext s.mems.imem.mem s.visible := by
  rw [nextBoundary, p.word, (p.right.window_running .combinational running).2.2.1, p.program,
    p.seen, ← executeNext_combinational]
  rfl

/-- Instructions that do not branch away keep the machines paired. -/
theorem Paired.next (p : Paired s t) (running : ∀ k, (inputs k).Running)
    (straight : ¬ BranchesAway s.mems.imem.mem s.visible) :
    Paired (Sampled.run (period .eventDriven false) inputs s (nextBoundary s))
      (Sampled.run (period .combinational false) inputs t (nextBoundary s)) where
  left := (p.left.window_running .eventDriven running).2.1
  right := by
    rw [nextBoundary, p.word]
    exact (p.right.window_running .combinational running).2.1
  seen := by
    rw [p.left_visible running, p.right_visible running, executeNext_eventDriven straight]
  program := by
    have left := (p.left.window_running .eventDriven running).2.2.2
    have right := (p.right.window_running .combinational running).2.2.2
    rw [← p.word] at right
    exact (left.trans p.program).trans right.symm

theorem Paired.pc_within (p : Paired s t) (running : ∀ k, (inputs k).Running) {j : Nat}
    (within : j < nextBoundary s) :
    (Sampled.run (period .eventDriven false) inputs s j).proc.pcOutput =
      (Sampled.run (period .combinational false) inputs t j).proc.pcOutput := by
  have left := (p.left.window_running .eventDriven running).1
  have right := (p.right.window_running .combinational running).1
  rw [← p.word] at right
  rw [window_pcOutput left (Nat.lt_succ_iff.mp within),
    window_pcOutput right (Nat.lt_succ_iff.mp within)]
  exact congrArg Visible.pc p.seen

theorem Paired.pc_of_straight (p : Paired s t) (running : ∀ k, (inputs k).Running)
    (straight : ∀ n, ¬ BranchesAway s.mems.imem.mem ((straightNext s.mems.imem.mem)^[n] s.visible))
    (k : Nat) :
    (Sampled.run (period .eventDriven false) inputs s k).proc.pcOutput =
      (Sampled.run (period .combinational false) inputs t k).proc.pcOutput := by
  induction k using Nat.strong_induction_on generalizing s t inputs with
  | _ k ih =>
    by_cases within : k < nextBoundary s
    · exact p.pc_within running within
    · obtain ⟨rest, rfl⟩ := Nat.exists_eq_add_of_le (not_lt.mp within)
      have first : ¬ BranchesAway s.mems.imem.mem s.visible := straight 0
      have program := (p.left.window_running .eventDriven running).2.2.2
      rw [Sampled.run_add, Sampled.run_add]
      refine ih rest (by unfold nextBoundary; omega) (p.next running first)
        (fun k => running (nextBoundary s + k)) ?_
      intro n
      have later := straight (n + 1)
      rw [Function.iterate_succ_apply, ← executeNext_eventDriven first,
        ← p.left_visible running] at later
      rwa [nextBoundary, program]

/-- The counters tell the machines apart at the next boundary already. -/
theorem Paired.straight_first (p : Paired s t) (running : ∀ k, (inputs k).Running)
    (agree : ∀ k, (Sampled.run (period .eventDriven false) inputs s k).proc.pcOutput =
      (Sampled.run (period .combinational false) inputs t k).proc.pcOutput) :
    ¬ BranchesAway s.mems.imem.mem s.visible := by
  rw [← executeNext_pc_iff, ← p.left_visible running, ← p.right_visible running]
  exact agree (nextBoundary s)

theorem Paired.straight_of_pc (p : Paired s t) (running : ∀ k, (inputs k).Running)
    (agree : ∀ k, (Sampled.run (period .eventDriven false) inputs s k).proc.pcOutput =
      (Sampled.run (period .combinational false) inputs t k).proc.pcOutput) (n : Nat) :
    ¬ BranchesAway s.mems.imem.mem ((straightNext s.mems.imem.mem)^[n] s.visible) := by
  induction n generalizing s t inputs with
  | zero => exact p.straight_first running agree
  | succ n ih =>
    have first := p.straight_first running agree
    have program := (p.left.window_running .eventDriven running).2.2.2
    have later := ih (p.next running first) (fun k => running (nextBoundary s + k))
      (fun k => by simpa only [Sampled.run_add] using agree (nextBoundary s + k))
    rw [p.left_visible running, executeNext_eventDriven first, nextBoundary, program] at later
    rwa [Function.iterate_succ_apply]

end Paired

/-- The two readings give the same sequence of program counters for precisely
the programs in which straight-line execution meets no branch that leaves it. -/
theorem pc_readings_agree_iff {s : Machine} (b : s.Boundary) {inputs : Nat → ComOut}
    (running : ∀ k, (inputs k).Running) :
    PcAgree inputs s s ↔
      ∀ n, ¬ BranchesAway s.mems.imem.mem ((straightNext s.mems.imem.mem)^[n] s.visible) := by
  have paired : Paired s s := ⟨b, b, rfl, rfl⟩
  rw [pcAgree_iff_periods]
  exact ⟨paired.straight_of_pc running, paired.pc_of_straight running⟩

theorem addMachine_boundary : addMachine.Boundary := atBoundary_boundary _ _ _ _

theorem pc_readings_agree_iff_add : PcAgree (fun _ => ComOut.run) addMachine addMachine := by
  refine (pc_readings_agree_iff addMachine_boundary (fun _ => ComOut.run_running)).mpr ?_
  rintro n ⟨op, -⟩
  exact absurd op (show ¬ opCode 0x00221820#32 = 0b000100#6 by decide)

def beqMachine : Machine := atBoundary (fun _ => 0x10000002#32) (fun _ => 0) (fun _ => 0) 0

/-- After two clock periods a simulator shows 3 where the hardware shows 1. -/
theorem taken_branch_readings_differ :
    beqMachine.Boundary ∧ ¬ PcAgree (fun _ => ComOut.run) beqMachine beqMachine := by
  have boundary : beqMachine.Boundary := atBoundary_boundary _ _ _ _
  refine ⟨boundary, fun agree => ?_⟩
  have paired : Paired beqMachine beqMachine := ⟨boundary, boundary, rfl, rfl⟩
  rw [pcAgree_iff_periods] at agree
  exact paired.straight_first (fun _ => ComOut.run_running) agree ⟨rfl, rfl, by decide⟩

end Tdt4255
