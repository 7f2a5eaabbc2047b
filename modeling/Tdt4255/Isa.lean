import Tdt4255.Hardware.Control

/-! The reference interpreter: what the computational and branching
instructions mean, one word of program memory at a time. -/

namespace Tdt4255

/-- What a program can observe: 32 readable registers, 256 data words. -/
@[ext] structure Visible where
  pc : Word
  regs : BitVec 5 → Word
  dmem : MemAddress → Word

def setReg (regs : BitVec 5 → Word) (r : BitVec 5) (value : Word) : BitVec 5 → Word :=
  fun i => if r ≠ 0#5 ∧ i = r then value else regs i

theorem setReg_eq_iff (regs : BitVec 5 → Word) (r : BitVec 5) (a b : Word) :
    setReg regs r a = setReg regs r b ↔ r = 0#5 ∨ a = b := by
  constructor
  · intro same
    have atR := congrFun same r
    by_cases zero : r = 0#5
    · exact Or.inl zero
    · exact Or.inr (by simpa [setReg, zero] using atR)
  · rintro (rfl | rfl)
    · funext i
      simp [setReg]
    · rfl

theorem setReg_eq_self_iff (regs : BitVec 5 → Word) (r : BitVec 5) (value : Word) :
    setReg regs r value = regs ↔ r = 0#5 ∨ value = regs r := by
  have same : setReg regs r (regs r) = regs := by
    funext i
    by_cases at_r : i = r <;> simp [setReg, at_r]
  conv_lhs => rhs; rw [← same]
  exact setReg_eq_iff regs r value (regs r)

/-- The word a 32-bit program counter selects from a 256-word memory. -/
def fetch (imem : MemAddress → Word) (pc : Word) : Word := imem (pc.setWidth 8)

namespace Isa

inductive ROp
  | add
  | sub
  | and
  | or
  | slt
  deriving DecidableEq, Repr

inductive Instruction
  | rtype (op : ROp) (rs rt rd : BitVec 5)
  | loadImmediate (rs rt : BitVec 5) (imm : BitVec 16)
  | lw (rs rt : BitVec 5) (imm : BitVec 16)
  | beq (rs rt : BitVec 5) (imm : BitVec 16)
  deriving DecidableEq, Repr

def decodeFunc (func : BitVec 6) : Option ROp :=
  if func = 0b100000#6 then some .add
  else if func = 0b100010#6 then some .sub
  else if func = 0b100100#6 then some .and
  else if func = 0b100101#6 then some .or
  else if func = 0b101010#6 then some .slt
  else none

/-- `none` outside the computational and branching subset. -/
def decode (w : Word) : Option Instruction :=
  if opCode w = 0b000000#6 then
    (decodeFunc (funcField w)).map fun op => .rtype op (rsField w) (rtField w) (rdField w)
  else if opCode w = 0b001111#6 then some (.loadImmediate (rsField w) (rtField w) (immediate w))
  else if opCode w = 0b100011#6 then some (.lw (rsField w) (rtField w) (immediate w))
  else if opCode w = 0b000100#6 then some (.beq (rsField w) (rtField w) (immediate w))
  else none

/-- `slt` compares as two's complement integers. -/
def ROp.eval (op : ROp) (x y : Word) : Word :=
  match op with
  | .add => x + y
  | .sub => x - y
  | .and => x &&& y
  | .or => x ||| y
  | .slt => if x.toInt < y.toInt then 1 else 0

def perform (v : Visible) : Instruction → Visible
  | .rtype op rs rt rd =>
    { v with pc := v.pc + 1#32, regs := setReg v.regs rd (op.eval (v.regs rs) (v.regs rt)) }
  | .loadImmediate rs rt imm =>
    { v with pc := v.pc + 1#32, regs := setReg v.regs rt (v.regs rs + imm.signExtend 32) }
  | .lw rs rt imm =>
    { v with
      pc := v.pc + 1#32
      regs := setReg v.regs rt (v.dmem ((v.regs rs + imm.signExtend 32).setWidth 8)) }
  | .beq rs rt imm =>
    { v with
      pc := if v.regs rs = v.regs rt then v.pc + 1#32 + imm.signExtend 32 else v.pc + 1#32 }

def step (imem : MemAddress → Word) (v : Visible) : Option Visible :=
  (decode (fetch imem v.pc)).map (perform v)

/-- `n` steps, defined while every executed word is in the subset. -/
def steps (imem : MemAddress → Word) : Nat → Visible → Option Visible
  | 0, v => some v
  | n + 1, v => (step imem v).bind (steps imem n)

theorem steps_succ (imem : MemAddress → Word) (n : Nat) (v : Visible) :
    steps imem (n + 1) v = (steps imem n v).bind (step imem) := by
  induction n generalizing v with
  | zero => cases h : step imem v <;> simp [steps, h]
  | succ n ih =>
    rw [steps]
    cases h : step imem v with
    | none => simp [steps, h]
    | some next => rw [Option.bind_some, ih, steps, h, Option.bind_some]

theorem decode_of_steps {imem : MemAddress → Word} {m n : Nat} {v u : Visible}
    (defined : (steps imem n v).isSome) (before : m < n) (atM : steps imem m v = some u) :
    ∃ i, decode (fetch imem u.pc) = some i := by
  induction n with
  | zero => omega
  | succ n ih =>
    rw [steps_succ] at defined
    cases earlier : steps imem n v with
    | none => simp [earlier] at defined
    | some w =>
      rcases Nat.lt_succ_iff_lt_or_eq.mp before with inside | rfl
      · exact ih (by simp [earlier]) inside
      · obtain rfl := Option.some.inj (atM.symm.trans earlier)
        rw [earlier, Option.bind_some, step, Option.isSome_map] at defined
        exact Option.isSome_iff_exists.mp defined

/-- The word at the program counter is an `slt` into a register other than 0
whose operands differ by more than a signed word can hold. -/
def SltOverflow (imem : MemAddress → Word) (v : Visible) : Prop :=
  ∃ rs rt rd, decode (fetch imem v.pc) = some (.rtype .slt rs rt rd) ∧ rd ≠ 0#5 ∧
    BitVec.ssubOverflow (v.regs rs) (v.regs rt) = true

end Isa

end Tdt4255
