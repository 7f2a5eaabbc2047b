import Tdt4255.Hardware.Boundary

/-! Single instructions: stores, jumps, and words outside the instruction set. -/

namespace Tdt4255

open Machine

/-- At the next instruction boundary the machine shows `v`, and its program is
unchanged. -/
def StepsTo (reading : Reading) (inputs : Nat → ComOut) (s : Machine) (v : Visible) : Prop :=
  ∃ k, Sampled.IsSample (period reading false) Fetching inputs s 1 k ∧
    (Sampled.run (period reading false) inputs s k).visible = v ∧
    (Sampled.run (period reading false) inputs s k).mems.imem.mem = s.mems.imem.mem

section Step

variable (reading : Reading) {s : Machine} {inputs : Nat → ComOut}

theorem Machine.Boundary.stepsTo_iff (b : s.Boundary) (running : ∀ k, (inputs k).Running)
    (v : Visible) :
    StepsTo reading inputs s v ↔
      execute reading (fetch s.mems.imem.mem s.proc.pcOutput) s.visible = v := by
  obtain ⟨window, -, seen, kept⟩ := b.window_running reading running
  have start : Sampled.IsSample (period reading false) Fetching
      (fun i => inputs (stalls s.imemDataIn + 1 + i))
      (Sampled.run (period reading false) inputs s (stalls s.imemDataIn + 1)) 0 0 :=
    ⟨rfl, Or.inl rfl⟩
  have point := window.isSample_succ start
  constructor
  · rintro ⟨k, other, rfl, -⟩
    rw [← seen, point.unique other]
  · intro same
    exact ⟨_, point, seen.trans same, kept⟩

end Step

theorem update_eq_iff (m : MemAddress → Word) (a b : MemAddress) (w : Word) :
    Function.update m a w = Function.update m b w ↔ a = b ∨ m a = w ∧ m b = w := by
  constructor
  · intro same
    by_cases here : a = b
    · exact Or.inl here
    · have atA := congrFun same a
      have atB := congrFun same b
      rw [Function.update_self, Function.update_of_ne here] at atA
      rw [Function.update_self, Function.update_of_ne (Ne.symm here)] at atB
      exact Or.inr ⟨atA.symm, atB⟩
  · rintro (rfl | ⟨atA, atB⟩)
    · rfl
    · rw [← atA, Function.update_eq_self, atA, ← atB, Function.update_eq_self]

section Words

variable (reading : Reading) {s : Machine} {inputs : Nat → ComOut} {w : Word}

/-- Where a store is to write. -/
def storeAddress (w : Word) (v : Visible) : MemAddress :=
  (v.regs (rsField w) + (immediate w).signExtend 32).setWidth 8

/-- What the ALU selects in `ALU_STALL`, where the low bits of the immediate
count as a function code. -/
def stallAddress (w : Word) (v : Visible) : MemAddress :=
  (funcResult (funcField w) (v.regs (rsField w)) (v.regs (rtField w))).setWidth 8

/-- A store is right for precisely those operands for which both addresses
coincide or hold the word already. -/
theorem store_word_iff (b : s.Boundary) (running : ∀ k, (inputs k).Running)
    (fetched : fetch s.mems.imem.mem s.proc.pcOutput = w) (op : opCode w = 0b101011#6) :
    StepsTo reading inputs s
        { s.visible with
          pc := s.visible.pc + 1#32
          dmem :=
            Function.update s.visible.dmem (storeAddress w s.visible)
              (s.visible.regs (rtField w)) } ↔
      stallAddress w s.visible = storeAddress w s.visible ∨
        s.visible.dmem (stallAddress w s.visible) = s.visible.regs (rtField w) ∧
          s.visible.dmem (storeAddress w s.visible) = s.visible.regs (rtField w) := by
  rw [b.stepsTo_iff reading running, fetched, ← update_eq_iff]
  simp [execute, op, stallAddress]

theorem extractLsb'_append_eq_iff {k n : Nat} (a : BitVec (k + n)) (t : BitVec n) :
    a.extractLsb' n k ++ t = a ↔ t = a.extractLsb' 0 n := by
  have whole : a.extractLsb' n k ++ a.extractLsb' 0 n = a := BitVec.extractLsb'_append_extractLsb'
  constructor
  · intro same
    exact (BitVec.append_right_inj _).mp (same.trans whole.symm)
  · rintro rfl
    exact whole

/-- A jump reaches its target for precisely those targets that are the next
instruction: it is forgotten in `ALU_STALL`. -/
theorem jump_target_iff (b : s.Boundary) (running : ∀ k, (inputs k).Running)
    (fetched : fetch s.mems.imem.mem s.proc.pcOutput = w) (op : opCode w = 0b000010#6) :
    StepsTo reading inputs s
        { s.visible with pc := (s.visible.pc + 1#32).extractLsb' 26 6 ++ targetField w } ↔
      targetField w = (s.visible.pc + 1#32).extractLsb' 0 26 := by
  have next : execute reading w s.visible = { s.visible with pc := s.visible.pc + 1#32 } := by
    simp [execute, op]
  have target := extractLsb'_append_eq_iff (k := 6) (n := 26) (s.visible.pc + 1#32) (targetField w)
  rw [b.stepsTo_iff reading running, fetched, next, ← target]
  simp only [Visible.mk.injEq, and_true]
  exact eq_comm

/-- Opcodes and function codes that no decoder names. -/
def Unsupported (w : Word) : Prop :=
  opCode w ∉ [0b000000#6, 0b000100#6, 0b001111#6, 0b100011#6, 0b101011#6, 0b000010#6] ∨
    opCode w = 0b000000#6 ∧
      funcField w ∉ [0b100000#6, 0b100010#6, 0b101010#6, 0b100100#6, 0b100101#6]

instance (w : Word) : Decidable (Unsupported w) := inferInstanceAs (Decidable (_ ∨ _))

/-- Such a word is harmless unless it is an R-type word whose conjunction,
which no function code asked for, would be news to its destination. -/
theorem unsupported_harmless_iff (b : s.Boundary) (running : ∀ k, (inputs k).Running)
    (fetched : fetch s.mems.imem.mem s.proc.pcOutput = w) (unsupported : Unsupported w) :
    StepsTo reading inputs s { s.visible with pc := s.visible.pc + 1#32 } ↔
      ¬ (opCode w = 0b000000#6 ∧ rdField w ≠ 0#5 ∧
        s.visible.regs (rsField w) &&& s.visible.regs (rtField w) ≠ s.visible.regs (rdField w)) := by
  rw [b.stepsTo_iff reading running, fetched]
  rcases unsupported with opcode | ⟨op, func⟩
  · simp only [List.mem_cons, List.not_mem_nil, or_false, not_or] at opcode
    obtain ⟨rtype, branch, imm, load, store, -⟩ := opcode
    simp [execute, rtype, branch, imm, load, store]
  · have result : funcResult (funcField w) (s.visible.regs (rsField w)) (s.visible.regs (rtField w)) =
        s.visible.regs (rsField w) &&& s.visible.regs (rtField w) := by
      simp only [List.mem_cons, List.not_mem_nil, or_false, not_or] at func
      obtain ⟨add, sub, slt, -, or⟩ := func
      simp [funcResult, add, sub, slt, or]
    simp [execute, op, result, Visible.ext_iff, setReg_eq_self_iff]
    tauto

end Words

def repeating (w : Word) (regs : RegisterFile) : Machine :=
  atBoundary (fun _ => w) (fun _ => 0) regs 0

theorem repeating_boundary (w : Word) (regs : RegisterFile) : (repeating w regs).Boundary :=
  atBoundary_boundary _ _ _ _

theorem repeating_stepsTo {w : Word} {regs : RegisterFile} {v : Visible}
    (steps : StepsTo .eventDriven (fun _ => ComOut.run) (repeating w regs) v) :
    execute .eventDriven w (repeating w regs).visible = v :=
  ((repeating_boundary w regs).stepsTo_iff .eventDriven (fun _ => ComOut.run_running) v).mp steps

/-- `sw $1, 32($2)`, whose offset reads as the function code of `add`, with 32
in register 1 and 0x105 in register 2. -/
theorem store_word_iff_visible :
    StepsTo .eventDriven (fun _ => ComOut.run)
      (repeating 0xAC410020#32 fun r => if r = 1#5 then 32 else 0x105)
      { pc := 1#32
        regs := registerFileRead fun r => if r = 1#5 then 32 else 0x105
        dmem := Function.update (fun _ => 0) 0x25#8 32#32 } :=
  (store_word_iff .eventDriven (repeating_boundary _ _) (fun _ => ComOut.run_running)
    rfl (by decide)).mpr (Or.inl (by decide))

/-- `sw $1, 4($0)` stores at `0 & 7` instead. -/
theorem store_ignores_offset :
    ¬ StepsTo .eventDriven (fun _ => ComOut.run) (repeating 0xAC010004#32 fun _ => 7)
      { pc := 1#32
        regs := registerFileRead fun _ => 7
        dmem := Function.update (fun _ => 0) 4#8 7#32 } := by
  intro steps
  have stored := congrArg (fun v => v.dmem 4#8) (repeating_stepsTo steps)
  exact absurd stored (by decide)

theorem jump_target_iff_next :
    StepsTo .eventDriven (fun _ => ComOut.run) (repeating 0x08000001#32 fun _ => 0)
      { (repeating 0x08000001#32 fun _ => 0).visible with pc := 1#32 } :=
  (jump_target_iff .eventDriven (repeating_boundary _ _) (fun _ => ComOut.run_running)
    rfl (by decide)).mpr (by decide)

/-- `j 3` at address 0 arrives at 1. -/
theorem jump_forgotten :
    ¬ StepsTo .eventDriven (fun _ => ComOut.run) (repeating 0x08000003#32 fun _ => 0)
      { (repeating 0x08000003#32 fun _ => 0).visible with pc := 3#32 } := by
  intro steps
  have arrived := congrArg Visible.pc (repeating_stepsTo steps)
  exact absurd arrived (by decide)

theorem unsupported_harmless_iff_opcode :
    StepsTo .eventDriven (fun _ => ComOut.run) (repeating 0xFC000000#32 fun _ => 9)
      { (repeating 0xFC000000#32 fun _ => 9).visible with pc := 1#32 } :=
  (unsupported_harmless_iff .eventDriven (repeating_boundary _ _) (fun _ => ComOut.run_running)
    rfl (by decide)).mpr (by decide)

/-- The function code 000000 with 6 in registers 1 and 2 and 0 in register 3. -/
theorem undefined_function_writes :
    Unsupported 0x00221800#32 ∧
      ¬ StepsTo .eventDriven (fun _ => ComOut.run)
        (repeating 0x00221800#32 fun r => if r = 3#5 then 0 else 6)
        { (repeating 0x00221800#32 fun r => if r = 3#5 then 0 else 6).visible with pc := 1#32 } := by
  refine ⟨by decide, fun steps => ?_⟩
  have written := congrArg (fun v => v.regs 3#5) (repeating_stepsTo steps)
  exact absurd written (by decide)

end Tdt4255
