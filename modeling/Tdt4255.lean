import Tdt4255.Lib.Ripple
import Tdt4255.Lib.Sampled
import Tdt4255.Lib.Transducer
import Tdt4255.Lib.Numeral
import Tdt4255.Lib.Text
import Tdt4255.Lib.Store
import Tdt4255.Hardware.Alu
import Tdt4255.Hardware.AluDelta
import Tdt4255.Hardware.Adder
import Tdt4255.Hardware.Arithmetic
import Tdt4255.Hardware.Control
import Tdt4255.Hardware.Storage
import Tdt4255.Hardware.Processor
import Tdt4255.Hardware.Com
import Tdt4255.Hardware.Toplevel
import Tdt4255.Hardware.Edges
import Tdt4255.Hardware.Delta
import Tdt4255.Hardware.Instruction
import Tdt4255.Hardware.Execute
import Tdt4255.Hardware.Boundary
import Tdt4255.Hardware.UserLogic
import Tdt4255.Isa
import Tdt4255.Refinement
import Tdt4255.Synthesis
import Tdt4255.NarrowPc
import Tdt4255.OneInstruction
import Tdt4255.Reset
import Tdt4255.Loading
import Tdt4255.Pause
import Tdt4255.Driver.Access
import Tdt4255.Driver.Protocol
import Tdt4255.Driver.Phases
import Tdt4255.Driver.ExactlyOnce
import Tdt4255.Driver.Firmware
import Tdt4255.Driver.Actions
import Tdt4255.Driver.Position
import Tdt4255.Driver.Runs
import Tdt4255.Driver.Reads
import Tdt4255.Driver.Resync
import Tdt4255.Driver.Deadline
import Tdt4255.Driver.SelfTest
import Tdt4255.Host.Python
import Tdt4255.Host.Encode
import Tdt4255.Serial.RoundTrip
import Tdt4255.Serial.RunMode
import Tdt4255.Serial.Port
import Tdt4255.Serial.Dump
import Tdt4255.Serial.DataWords
import Tdt4255.Serial.ReadOnly
import Tdt4255.Serial.FileLoad
import Tdt4255.Serial.Lockstep
import Tdt4255.System
import Tdt4255.Serial.Recovery
import Tdt4255.Unstopped
import Tdt4255.Traffic
