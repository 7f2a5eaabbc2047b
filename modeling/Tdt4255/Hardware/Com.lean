import Tdt4255.Hardware.Storage

/-! `com`, the state machine between the bus registers and the memories. -/

namespace Tdt4255

def cmdNone : Word := 0
def cmdWi : Word := 1
def cmdRd : Word := 2
def cmdWd : Word := 3
def cmdRun : Word := 4

def statusIdle : Word := 0
def statusBusy : Word := 1
def statusRun : Word := 2
def statusDone : Word := 3

/-- All eight codes of the three state bits are taken, so the branch for
other values is never selected. -/
inductive ComState
  | idle
  | wi
  | wd
  | rd1
  | run
  | done
  | rd2
  | rd3
  deriving DecidableEq, Repr

/-- The registered outputs towards memories and processor. -/
structure ComOut where
  readAddr : Word
  writeAddr : Word
  writeData : Word
  writeEnable : StdLogic
  processorEnable : StdLogic
  writeImem : StdLogic
  deriving DecidableEq, Repr

/-- Zero addresses, no write, processor stopped. -/
def ComOut.quiet : ComOut where
  readAddr := 0
  writeAddr := 0
  writeData := 0
  writeEnable := false
  processorEnable := false
  writeImem := false

structure Com where
  state : ComState
  internalDataOut : Word
  status : Word
  busDataOut : Word
  out : ComOut
  deriving DecidableEq, Repr

def Com.afterReset : Com where
  state := .idle
  internalDataOut := 0
  status := statusIdle
  busDataOut := 0
  out := .quiet

/-- `STATE_MACHINE` at a rising edge; each branch gives the new registers and
the next state. -/
def Com.risingEdge (reset : StdLogic) (command busAddressIn busDataIn readData : Word) (c : Com) :
    Com :=
  if reset = true then .afterReset
  else
    match c.state with
    | .idle =>
      { state :=
          if command = cmdWi then .wi
          else if command = cmdWd then .wd
          else if command = cmdRd then .rd1
          else if command = cmdRun then .run
          else .idle
        internalDataOut := 0
        status := statusIdle
        busDataOut := 0
        out := .quiet }
    | .wi =>
      { state := .done
        internalDataOut := 0
        status := statusBusy
        busDataOut := 0
        out :=
          { ComOut.quiet with
            writeAddr := busAddressIn
            writeData := busDataIn
            writeEnable := true
            writeImem := true } }
    | .wd =>
      { state := .done
        internalDataOut := 0
        status := statusBusy
        busDataOut := 0
        out :=
          { ComOut.quiet with
            writeAddr := busAddressIn
            writeData := busDataIn
            writeEnable := true } }
    | .rd1 =>
      { state := .rd2
        internalDataOut := 0
        status := statusBusy
        busDataOut := 0
        out := { ComOut.quiet with readAddr := busAddressIn } }
    | .rd2 =>
      { state := .rd3
        internalDataOut := 0
        status := statusBusy
        busDataOut := 0
        out := .quiet }
    | .rd3 =>
      { state := .done
        internalDataOut := readData
        status := statusBusy
        busDataOut := 0
        out := .quiet }
    | .run =>
      { state := if command = cmdRun then .run else .idle
        internalDataOut := 0
        status := statusRun
        busDataOut := 0
        out := { ComOut.quiet with processorEnable := true } }
    | .done =>
      { state := if command = cmdNone then .idle else .done
        internalDataOut := c.internalDataOut
        status := statusDone
        busDataOut := c.internalDataOut
        out := .quiet }

section Run

variable (command busAddressIn busDataIn readData : Word) (c : Com)

theorem Com.processorEnable_iff :
    (c.risingEdge false command busAddressIn busDataIn readData).out.processorEnable = true ↔
      c.state = .run := by
  unfold Com.risingEdge
  cases c.state <;> simp [ComOut.quiet]

end Run

end Tdt4255
