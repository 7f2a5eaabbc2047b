import Tdt4255.Driver.ExactlyOnce
import Tdt4255.Serial.RoundTrip

/-! The serial port as the host sees it, with the board at its other end. -/

namespace Tdt4255

/-- `%d` of `xil_printf`. -/
def decimal (w : Word) : List Char :=
  (if w.toInt < 0 then ['-'] else []) ++ Nat.toDigits 10 w.toInt.natAbs

theorem decimal_ne_nil (w : Word) : decimal w ≠ [] :=
  List.append_ne_nil_of_right_ne_nil _ Nat.toDigits_ne_nil

theorem decimal_solid (w : Word) : ∀ c ∈ decimal w, isSpace c = false := by
  intro c member
  rcases List.mem_append.mp member with sign | digit
  · split_ifs at sign
    · rw [List.mem_singleton.mp sign]
      rfl
    · simp at sign
  · exact not_space_of_plain (Numeral.plain_toDigits (by decide) (by decide) _) digit

theorem pyInt_decimal (w : Word) : pyInt 10 (decimal w) = some w.toInt := by
  have plain := Numeral.plain_toDigits (b := 10) (by decide) (by decide) w.toInt.natAbs
  have parsed := Numeral.parse_toDigits (b := 10) (by decide) (by decide) w.toInt.natAbs
  unfold decimal
  split_ifs with negative
  · rw [List.singleton_append, pyInt_minus plain, parsed, Option.map_some]
    exact congrArg some (by omega)
  · rw [List.nil_append, pyInt_plain plain, parsed, Option.map_some]
    exact congrArg some (by omega)

/-- What `main` prints after a call; `m` is the memory before it. -/
def Call.report (m : Contents) : Call → List Char
  | .writeInstruction address data =>
    "Wrote data ".toList ++ decimal data ++ " to instruction address ".toList ++ decimal address ++
      "\r\n".toList
  | .writeData address data =>
    "Wrote data ".toList ++ decimal data ++ " to data address ".toList ++ decimal address ++
      "\r\n".toList
  | .readData address =>
    "Recieved data ".toList ++ decimal (m .dmem (address.setWidth 8)) ++ " from address ".toList ++
      decimal address ++ "\r\n".toList

def Action.report (m : Contents) : Action → List Char
  | .call c => c.report m
  | .startCpu => "CPU started, send s command to stop\r\n".toList
  | .stopCpu => "CPU stopped, ready to recieve commands\r\n".toList
  | .unknownCommand curChar =>
    "Recieved unknown command ".toList ++ [Char.ofNat curChar.toNat] ++ "\r\n".toList

/-- What an action makes of the runs so far and the memories. `ran k` stands
for what the processor does in run `k` until it is stopped. -/
def Action.perform (ran : Nat → Contents → Contents) (m : Nat × Contents) : Action → Nat × Contents
  | .call c => (m.1, c.perform m.2)
  | .stopCpu => (m.1 + 1, ran m.1 m.2)
  | _ => m

/-- The board, and what it printed that the host has not read yet. -/
structure Port where
  point : Point
  runs : Nat
  memory : Contents
  received : List Char

namespace Port

def serve (ran : Nat → Contents → Contents) (p : Port) (a : Action) : Port where
  point := p.point
  runs := (a.perform ran (p.runs, p.memory)).1
  memory := (a.perform ran (p.runs, p.memory)).2
  received := p.received ++ a.report p.memory

/-- `ser.write(bytes)`, and time for the board to answer. -/
def write (ran : Nat → Contents → Contents) (bytes : List Byte) (p : Port) : Port :=
  (p.point.run bytes).2.foldl (serve ran) { p with point := (p.point.run bytes).1 }

/-- `ser.readline()`. Without a line end it returns what is there. -/
def readline (p : Port) : List Char × Port :=
  ((Text.readLine '\n' p.received).1, { p with received := (Text.readLine '\n' p.received).2 })

def flushInput (p : Port) : Port := { p with received := [] }

def idle (m : Contents) : Port := { point := .dispatch, runs := 0, memory := m, received := [] }

theorem idle_write (ran : Nat → Contents → Contents) (m : Contents) (q : Request) :
    (idle m).write ran q.frame =
      { point := .dispatch
        runs := 0
        memory := q.call.perform m
        received := q.call.report m } := by
  unfold write idle
  rw [Point.run_frame]
  rfl

end Port

/-- The fields of the line for a read, which the blanks between them separate. -/
def readFields (m : Contents) (address : Word) : List (List Char) :=
  ["Recieved".toList, "data".toList, decimal (m .dmem (address.setWidth 8)), "from".toList,
    "address".toList, decimal address]

theorem report_readData (m : Contents) (address : Word) :
    (Call.readData address).report m = [' '].intercalate (readFields m address) ++ ['\r', '\n'] := by
  have text : ∀ data place : List Char,
      "Recieved data ".toList ++ data ++ " from address ".toList ++ place ++ "\r\n".toList =
        [' '].intercalate ["Recieved".toList, "data".toList, data, "from".toList, "address".toList,
          place] ++ ['\r', '\n'] := by
    intro data place
    simp
  exact text _ _

theorem readFields_solid (m : Contents) (address : Word) :
    ∀ field ∈ readFields m address, ∀ c ∈ field, isSpace c = false := by
  have data := decimal_solid (m .dmem (address.setWidth 8))
  have place := decimal_solid address
  simp only [readFields, List.forall_mem_cons]
  exact ⟨by simp [isSpace], by simp [isSpace], data, by simp [isSpace], by simp [isSpace], place, by simp⟩

theorem readLine_report (m : Contents) (address : Word) :
    Text.readLine '\n' ((Call.readData address).report m) = ((Call.readData address).report m, []) := by
  have number : ∀ w, '\n' ∉ decimal w := fun w member =>
    absurd (decimal_solid w _ member) (by decide)
  have lacks : '\n' ∉ [' '].intercalate (readFields m address) ++ ['\r'] := by
    simp [readFields, number]
  have whole := Text.readLine_append lacks []
  rwa [List.append_assoc, List.singleton_append, ← report_readData] at whole

end Tdt4255
