import Tdt4255.Hardware.Boundary

/-! The processor against the reference interpreter. -/

namespace Tdt4255

open Machine

/-- What the function codes of the subset compute. The hardware comparison
is the sign of the wrapped difference. -/
theorem funcResult_eq_eval_iff {func : BitVec 6} {op : Isa.ROp} (x y : Word)
    (decoded : Isa.decodeFunc func = some op) :
    funcResult func x y = op.eval x y ↔ ¬ (op = .slt ∧ BitVec.ssubOverflow x y = true) := by
  unfold Isa.decodeFunc at decoded
  split_ifs at decoded with add sub and or slt <;> cases decoded
  · simp [funcResult, add, Isa.ROp.eval]
  · simp [funcResult, sub, Isa.ROp.eval]
  · simp [funcResult, and, Isa.ROp.eval]
  · simp [funcResult, or, Isa.ROp.eval]
  · have sign := Ripple.msb_sub_eq_slt_xor x y
    have order : x.slt y = decide (x.toInt < y.toInt) := rfl
    simp only [funcResult, slt, Isa.ROp.eval, sign, order]
    by_cases less : x.toInt < y.toInt <;> cases BitVec.ssubOverflow x y <;> simp [less]

/-- The data path and the interpreter agree on a word of the subset exactly
when no overflowing comparison is stored. -/
theorem execute_eq_perform_iff {w : Word} {v : Visible} {i : Isa.Instruction}
    (decoded : Isa.decode w = some i) :
    execute .eventDriven w v = Isa.perform v i ↔
      ¬ ∃ rs rt rd, i = .rtype .slt rs rt rd ∧ rd ≠ 0#5 ∧
        BitVec.ssubOverflow (v.regs rs) (v.regs rt) = true := by
  unfold Isa.decode at decoded
  split_ifs at decoded with rtype imm load branch
  · obtain ⟨op, func, rfl⟩ := Option.map_eq_some_iff.mp decoded
    have result := funcResult_eq_eval_iff (v.regs (rsField w)) (v.regs (rtField w)) func
    have regs := setReg_eq_iff v.regs (rdField w)
      (funcResult (funcField w) (v.regs (rsField w)) (v.regs (rtField w)))
      (op.eval (v.regs (rsField w)) (v.regs (rtField w)))
    simp only [execute, rtype, Isa.perform, Visible.mk.injEq]
    simp [regs, result]
    grind
  · cases decoded
    simp [execute, imm, Isa.perform]
  · cases decoded
    simp [execute, load, Isa.perform]
  · cases decoded
    simp [execute, branch, Isa.perform]

def executeNext (reading : Reading) (imem : MemAddress → Word) (v : Visible) : Visible :=
  execute reading (fetch imem v.pc) v

/-- At every boundary the visible state is what as many instructions make of
the initial one; a boundary of every index is reached. -/
theorem Machine.Boundary.samples (reading : Reading) {s : Machine} (b : s.Boundary)
    {inputs : Nat → ComOut} (running : ∀ k, (inputs k).Running) (n : Nat) :
    ∃ k, Sampled.IsSample (period reading false) Fetching inputs s n k ∧
      (Sampled.run (period reading false) inputs s k).visible =
        (executeNext reading s.mems.imem.mem)^[n] s.visible := by
  let shows (t : Machine) (v : Visible) : Prop :=
    t.Boundary ∧ t.visible = v ∧ t.mems.imem.mem = s.mems.imem.mem
  have opens : ∀ (inputs : Nat → ComOut) t v, (∀ k, (inputs k).Running) → shows t v →
      ∃ d, Sampled.Window (period reading false) Fetching inputs t d ∧
        shows (Sampled.run (period reading false) inputs t (d + 1))
          (executeNext reading s.mems.imem.mem v) := by
    rintro inputs t v legal ⟨boundary, rfl, kept⟩
    obtain ⟨window, after, seen, same⟩ := boundary.window_running reading legal
    exact ⟨_, window, after, seen.trans (by rw [kept]; rfl), same.trans kept⟩
  obtain ⟨k, point, _, seen, _⟩ :=
    Sampled.samples_of_windows shows _ opens n running ⟨b, rfl, rfl⟩
  exact ⟨k, point, seen⟩

theorem Machine.Boundary.visible_at_sample {reading : Reading} {s : Machine} (b : s.Boundary)
    {inputs : Nat → ComOut} (running : ∀ k, (inputs k).Running) {n k : Nat}
    (point : Sampled.IsSample (period reading false) Fetching inputs s n k) :
    (Sampled.run (period reading false) inputs s k).visible =
      (executeNext reading s.mems.imem.mem)^[n] s.visible := by
  obtain ⟨j, other, seen⟩ := b.samples reading running n
  rwa [point.unique other]

/-- Up to the `n`-th boundary the machine shows what the interpreter computes. -/
def RefinesIsa (s : Machine) (inputs : Nat → ComOut) (n : Nat) : Prop :=
  ∀ m ≤ n, ∃ k, Sampled.IsSample (period .eventDriven false) Fetching inputs s m k ∧
    Isa.steps s.mems.imem.mem m s.visible =
      some (Sampled.run (period .eventDriven false) inputs s k).visible

/-- The processor refines the interpreter over the computational and branching
subset for precisely the runs that store no overflowing comparison. -/
theorem boundaries_refine_isa_iff {s : Machine} (b : s.Boundary) {inputs : Nat → ComOut}
    (running : ∀ k, (inputs k).Running) {n : Nat}
    (subset : (Isa.steps s.mems.imem.mem n s.visible).isSome) :
    RefinesIsa s inputs n ↔
      ∀ m < n, ∀ v, Isa.steps s.mems.imem.mem m s.visible = some v →
        ¬ Isa.SltOverflow s.mems.imem.mem v := by
  constructor
  · intro refines m before v atM overflow
    obtain ⟨j, pointJ, seenJ⟩ := refines m before.le
    obtain ⟨k, pointK, seenK⟩ := refines (m + 1) before
    have machineJ := b.visible_at_sample running pointJ
    have machineK := b.visible_at_sample running pointK
    rw [atM, Option.some.injEq, machineJ] at seenJ
    rw [Isa.steps_succ, atM, Option.bind_some, machineK, Function.iterate_succ_apply', ← seenJ] at seenK
    obtain ⟨rs, rt, rd, decoded, writes, wraps⟩ := overflow
    rw [Isa.step, decoded, Option.map_some, Option.some.injEq, executeNext] at seenK
    exact (execute_eq_perform_iff decoded).mp seenK.symm ⟨rs, rt, rd, rfl, writes, wraps⟩
  · intro exact m
    induction m with
    | zero =>
      intro _
      obtain ⟨k, point, seen⟩ := b.samples .eventDriven running 0
      exact ⟨k, point, by rw [seen]; rfl⟩
    | succ m ih =>
      intro bound
      obtain ⟨j, pointJ, seenJ⟩ := ih (by omega)
      obtain ⟨k, pointK, seenK⟩ := b.samples .eventDriven running (m + 1)
      rw [b.visible_at_sample running pointJ] at seenJ
      refine ⟨k, pointK, ?_⟩
      obtain ⟨i, decoded⟩ := Isa.decode_of_steps subset bound seenJ
      have clean := exact m bound _ seenJ
      rw [Isa.steps_succ, seenJ, Option.bind_some, seenK, Function.iterate_succ_apply', Isa.step,
        decoded, Option.map_some, executeNext]
      refine congrArg some ((execute_eq_perform_iff decoded).mpr ?_).symm
      rintro ⟨rs, rt, rd, rfl, writes, wraps⟩
      exact clean ⟨rs, rt, rd, decoded, writes, wraps⟩

def addMachine : Machine := atBoundary (fun _ => 0x00221820#32) (fun _ => 0) (fun _ => 5) 0

theorem boundaries_refine_isa_iff_add : RefinesIsa addMachine (fun _ => ComOut.run) 2 := by
  refine (boundaries_refine_isa_iff (atBoundary_boundary _ _ _ _) (fun _ => ComOut.run_running)
    (by decide)).mpr ?_
  rintro m - v - ⟨rs, rt, rd, decoded, -⟩
  have add : Isa.decode 0x00221820#32 = some (.rtype .add 1#5 2#5 3#5) := by decide
  exact absurd (add.symm.trans decoded) (by simp)

/-- `slt $3, $1, $2` with the least integer in register 1 and 1 in register 2. -/
def sltMachine : Machine :=
  atBoundary (fun _ => 0x0022182A#32) (fun _ => 0) (fun r => if r = 1#5 then 0x80000000#32 else 1) 0

theorem sltMachine_boundary : sltMachine.Boundary := atBoundary_boundary _ _ _ _

theorem slt_overflow_not_refined :
    sltMachine.Boundary ∧ (Isa.steps sltMachine.mems.imem.mem 1 sltMachine.visible).isSome ∧
      ¬ RefinesIsa sltMachine (fun _ => ComOut.run) 1 := by
  refine ⟨sltMachine_boundary, by decide, ?_⟩
  intro refines
  obtain ⟨k, point, seen⟩ := refines 1 le_rfl
  rw [sltMachine_boundary.visible_at_sample (fun _ => ComOut.run_running) point] at seen
  have result := congrArg (Option.map fun v => v.regs 3#5) seen
  revert result
  decide

end Tdt4255
