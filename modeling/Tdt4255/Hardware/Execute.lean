import Tdt4255.Hardware.Instruction

/-! What an instruction word does to the visible state: by itself, and with
whatever `com` drives at the edges meanwhile. -/

namespace Tdt4255

/-- What the data path does to the visible state for an arbitrary word. Only
a simulator takes the branch: the multiplexers have returned to the
incremented counter by the time the program counter is written. -/
def execute (reading : Reading) (w : Word) (v : Visible) : Visible where
  pc :=
    if reading = .eventDriven ∧ opCode w = 0b000100#6 ∧ v.regs (rsField w) = v.regs (rtField w) then
      v.pc + 1#32 + (immediate w).signExtend 32
    else v.pc + 1#32
  regs :=
    if opCode w = 0b000000#6 then
      setReg v.regs (rdField w) (funcResult (funcField w) (v.regs (rsField w)) (v.regs (rtField w)))
    else if opCode w = 0b001111#6 then
      setReg v.regs (rtField w) (v.regs (rsField w) + (immediate w).signExtend 32)
    else if opCode w = 0b100011#6 then
      setReg v.regs (rtField w)
        (v.dmem ((v.regs (rsField w) + (immediate w).signExtend 32).setWidth 8))
    else v.regs
  dmem :=
    if opCode w = 0b101011#6 then
      Function.update v.dmem
        ((funcResult (funcField w) (v.regs (rsField w)) (v.regs (rtField w))).setWidth 8)
        (v.regs (rtField w))
    else v.dmem

/-- The opcodes that leave `ALU_EXE` for `ALU_FETCH` directly. -/
def TwoCycle (w : Word) : Prop :=
  opCode w = 0b000000#6 ∨ opCode w = 0b000100#6 ∨ opCode w = 0b001111#6

instance (w : Word) : Decidable (TwoCycle w) := inferInstanceAs (Decidable (_ ∨ _))

theorem TwoCycle.next {w : Word} (word : TwoCycle w) :
    aluStateNext (opCode w) .aluExe = .aluFetch := if_pos word

theorem TwoCycle.next_not {w : Word} (word : ¬ TwoCycle w) :
    aluStateNext (opCode w) .aluExe = .aluStall := if_neg word

/-- Clock periods from a boundary to the falling edge that writes the program
counter, not counting the last. -/
def stalls (w : Word) : Nat := if TwoCycle w then 1 else 2

/-- What `com` does to program memory at a rising edge. -/
def ComOut.storeProgram (c : ComOut) (imem : MemAddress → Word) : MemAddress → Word :=
  if c.writeImem = true ∧ c.writeEnable = true then
    Function.update imem (c.writeAddr.setWidth 8) c.writeData
  else imem

def ComOut.storeData (c : ComOut) (dmem : MemAddress → Word) : MemAddress → Word :=
  if c.processorEnable = false ∧ c.writeEnable = true ∧ c.writeImem = false then
    Function.update dmem (c.writeAddr.setWidth 8) c.writeData
  else dmem

/-- The visible state and the program, which may be changing. -/
@[ext] structure Observed where
  imem : MemAddress → Word
  visible : Visible

/-- What the main ALU makes of a word that does not return from `ALU_EXE`. -/
def dataAddress (w : Word) (v : Visible) : Word :=
  if opCode w = 0b100011#6 ∨ opCode w = 0b101011#6 then
    v.regs (rsField w) + (immediate w).signExtend 32
  else funcResult (funcField w) (v.regs (rsField w)) (v.regs (rtField w))

/-- The second period of a word that takes three, as the loader has left it. A
load takes what the edge before has addressed, and a store comes about only if
the processor is enabled at its own edge. -/
def stallUnder (address : Word) (c : ComOut) (o : Observed) : Observed :=
  let w := fetch o.imem o.visible.pc
  { imem := c.storeProgram o.imem
    visible :=
      { pc := o.visible.pc + 1#32
        regs :=
          if opCode w = 0b100011#6 then
            setReg o.visible.regs (rtField w) (o.visible.dmem (address.setWidth 8))
          else o.visible.regs
        dmem :=
          c.storeData
            (if opCode w = 0b101011#6 ∧ c.processorEnable = true then
              Function.update o.visible.dmem
                ((funcResult (funcField w) (o.visible.regs (rsField w))
                  (o.visible.regs (rtField w))).setWidth 8)
                (o.visible.regs (rtField w))
            else o.visible.dmem) } }

/-- A period in which `com` alone acts. -/
def ComOut.passes (c : ComOut) (o : Observed) : Observed where
  imem := c.storeProgram o.imem
  visible := { o.visible with dmem := c.storeData o.visible.dmem }

/-- One instruction, with what `com` drives at its edges. -/
def executeUnder (reading : Reading) (inputs : Nat → ComOut) (o : Observed) : Observed :=
  let w := fetch o.imem o.visible.pc
  if TwoCycle w then
    (inputs 1).passes ((inputs 0).passes { o with visible := execute reading w o.visible })
  else
    let address :=
      if (inputs 0).processorEnable = true then dataAddress w o.visible else (inputs 0).readAddr
    (inputs 2).passes (stallUnder address (inputs 1) ((inputs 0).passes o))

/-- What `com` drives in `STATE_RUN`. -/
def ComOut.run : ComOut := { ComOut.quiet with processorEnable := true }

theorem ComOut.run_running : ComOut.run.Running := ⟨rfl, rfl⟩

theorem ComOut.storeData_enabled {c : ComOut} (enabled : c.processorEnable = true)
    (dmem : MemAddress → Word) :
    c.storeData dmem = dmem := by
  simp [ComOut.storeData, enabled]

/-- Enabled all the time the word has its own effect and no other. -/
theorem executeUnder_running (reading : Reading) {inputs : Nat → ComOut}
    (running : ∀ k, (inputs k).Running) (o : Observed) :
    executeUnder reading inputs o =
      { o with visible := execute reading (fetch o.imem o.visible.pc) o.visible } := by
  have kept : ∀ k (imem : MemAddress → Word), (inputs k).storeProgram imem = imem := by
    intro k imem
    have noLoad := (running k).noLoad
    unfold ComOut.storeProgram imemWriteEnableMux at *
    cases writes : (inputs k).writeImem <;> simp_all
  have data : ∀ k (dmem : MemAddress → Word), (inputs k).storeData dmem = dmem :=
    fun k => ComOut.storeData_enabled (running k).enabled
  unfold executeUnder
  by_cases word : TwoCycle (fetch o.imem o.visible.pc)
  · simp [word, ComOut.passes, kept, data]
  · have notExe : ¬ opCode (fetch o.imem o.visible.pc) = 0b000000#6 ∧
        ¬ opCode (fetch o.imem o.visible.pc) = 0b000100#6 ∧
        ¬ opCode (fetch o.imem o.visible.pc) = 0b001111#6 := by
      simpa [TwoCycle] using word
    rw [if_neg word]
    refine Observed.ext ?_ (Visible.ext ?_ ?_ ?_)
    · simp [ComOut.passes, stallUnder, kept]
    · simp [ComOut.passes, stallUnder, execute, notExe]
    · by_cases load : opCode (fetch o.imem o.visible.pc) = 0b100011#6
      · simp [ComOut.passes, stallUnder, execute, kept, data, load,
          (running 0).enabled, dataAddress]
      · simp [ComOut.passes, stallUnder, execute, kept, data, load, notExe]
    · simp [ComOut.passes, stallUnder, execute, kept, data, (running 1).enabled]

end Tdt4255
