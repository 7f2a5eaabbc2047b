import Tdt4255.Hardware.UserLogic

/-! The driver functions `writeData` and `readData` as sequences of bus
accesses, and their execution at arbitrary points in time. -/

namespace Tdt4255

def regCmd : Nat := 0
def regAddrIn : Nat := 4
def regDataIn : Nat := 8
def regStatus : Nat := 12
def regDataOut : Nat := 16

/-- What the driver does to its peripheral: `WR`, `RR`, and one iteration of
the loop in `wait`. -/
inductive Access
  | writeReg (offset : Nat) (value : Word)
  | readReg (offset : Nat)
  | wait
  deriving DecidableEq, Repr

/-- The bus selects the slave register of a word offset. -/
def chipEnable (offset : Nat) : BitVec 5 := 0b10000#5 >>> (offset / 4)

def Access.bus : Access → Bus2Ip
  | .writeReg offset value => { data := value, be := 0b1111, rdCE := 0, wrCE := chipEnable offset }
  | .readReg offset => { data := 0, be := 0b1111, rdCE := chipEnable offset, wrCE := 0 }
  | .wait => { data := 0, be := 0b1111, rdCE := chipEnable regStatus, wrCE := 0 }

def writeData (command address data : Word) : List Access :=
  [.writeReg regAddrIn address, .writeReg regDataIn data, .writeReg regCmd command,
    .writeReg regCmd cmdNone, .writeReg regAddrIn 0, .writeReg regDataIn 0]

def readData (command address : Word) : List Access :=
  [.writeReg regAddrIn address, .writeReg regCmd command, .wait, .readReg regDataOut,
    .writeReg regCmd cmdNone, .writeReg regAddrIn 0]

/-- The calls `main` makes outside run mode. -/
inductive Call
  | writeInstruction (address data : Word)
  | writeData (address data : Word)
  | readData (address : Word)
  deriving DecidableEq, Repr

def Call.accesses : Call → List Access
  | .writeInstruction address data => Tdt4255.writeData cmdWi address data
  | .writeData address data => Tdt4255.writeData cmdWd address data
  | .readData address => Tdt4255.readData cmdRd address

inductive Bank
  | imem
  | dmem
  deriving DecidableEq, Repr

structure MemoryWrite where
  bank : Bank
  address : MemAddress
  value : Word
  deriving DecidableEq, Repr

def memoryWrites (c : ComOut) (p : ProcessorOut) : List MemoryWrite :=
  (if (imemWriteEnableMux c.writeImem c.writeEnable).imem = true then
    [{ bank := .imem, address := c.writeAddr.setWidth 8, value := c.writeData }] else []) ++
  (if (dmemPorts c p).writeEnable = true then
    [{ bank := .dmem
       address := (dmemPorts c p).addressWr.setWidth 8
       value := (dmemPorts c p).writeData }] else [])

/-- The processor board as the driver meets it. The log of stores is kept to
be talked about; nothing reads it. -/
structure Session where
  pending : List Access
  returned : List Word
  logic : UserLogic
  log : List MemoryWrite

structure BusCycle where
  fires : Bool
  proc : ProcessorOut

namespace Session

def current (cycle : BusCycle) (s : Session) : Option Access :=
  if cycle.fires = true then s.pending.head? else none

def bus (cycle : BusCycle) (s : Session) : Bus2Ip :=
  match s.current cycle with
  | some a => a.bus
  | none => .idle

def busData (cycle : BusCycle) (s : Session) : Word := s.logic.ip2BusData (s.bus cycle)

def step (cycle : BusCycle) (s : Session) : Session where
  pending :=
    match s.current cycle with
    | none => s.pending
    | some .wait => if s.busData cycle = statusDone then s.pending.tail else s.pending
    | some _ => s.pending.tail
  returned :=
    match s.current cycle with
    | some (.readReg _) => s.returned ++ [s.busData cycle]
    | _ => s.returned
  logic := s.logic.risingEdge false (s.bus cycle) cycle.proc
  log := s.log ++ memoryWrites s.logic.loader.com.out cycle.proc

end Session

end Tdt4255
