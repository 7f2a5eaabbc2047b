import Tdt4255.Serial.Port

/-! `host.py -r` and `host.py -d`: the data memory into a file and back. -/

namespace Tdt4255

/-- The requests of `-r`: for 0, in the loop from 1 to 254, and for 255. -/
def dumpRequests : List (List Byte) :=
  [[hostCmdReadData, 255#8, 254#8]] ++
    (List.range' 1 254).map (fun i => [hostCmdReadData, BitVec.ofNat 8 i]) ++
    [[hostCmdReadData, 255#8, 255#8]]

/-- A line of the file from a line of the board; `none` when the script
raises an error. -/
def dumpLine (long : Bool) (i1 : List Char) : Option (List Char) := do
  let fields := pySplit (pyRstrip i1)
  let address ← pyInt 10 (← fields[5]?)
  let i2 := pyHex (isLong long address) address
  let data ← pyInt 10 (← fields[2]?)
  let i3 := pyHex (long || isLong long data) (Int.land data 0xFFFFFFFF)
  return i2 ++ [' '] ++ Text.remove ['L'] i3 ++ ['\n']

/-- The file that `-r` writes, and the port afterwards. -/
def dump (long : Bool) (ran : Nat → Contents → Contents) :
    List (List Byte) → Port → Option (List Char × Port)
  | [], p => some ([], p)
  | request :: rest, p => do
    let (i1, p) := (p.write ran request).readline
    let line ← dumpLine long i1
    let (later, p) ← dump long ran rest p.flushInput
    return (line ++ later, p)

/-- The two numbers of a line of a file; `none` when the script raises an error. -/
def lineFields (line : List Char) : Option (Int × Int) := do
  let i1 := pySplit (pyRstrip line)
  let address ← pyInt 16 (← i1[0]?)
  let data ← pyInt 16 (← i1[1]?)
  return (address, data)

/-- What `-d` makes of it. -/
def reloadCommand (line : List Char) : Option HostCommand := do
  let (address, data) ← lineFields line
  return .d address data

/-- All bytes that `-d` writes for a file. -/
def reload (long : Bool) (file : List Char) : Option (List Byte) := do
  let commands ← (Text.lines '\n' file).mapM reloadCommand
  hostBytes long commands

def fileLine (address : MemAddress) (w : Word) : List Char :=
  pyHex false address.toNat ++ [' '] ++ pyHex false w.toNat

def addresses : List MemAddress := (List.range 256).map (BitVec.ofNat 8)

theorem mem_addresses (address : MemAddress) : address ∈ addresses :=
  List.mem_map.mpr ⟨address.toNat, List.mem_range.mpr address.isLt, BitVec.ofNat_toNat _ _⟩

theorem dumpRequests_eq : dumpRequests = addresses.map fun a => (Request.r a).frame := by
  have inner : (List.range' 1 254).map (fun i => [hostCmdReadData, BitVec.ofNat 8 i]) =
      (List.range' 1 254).map fun i => (Request.r (BitVec.ofNat 8 i)).frame := by
    refine List.map_congr_left fun i member => ?_
    have bounds := List.mem_range'_1.mp member
    have notZero : BitVec.ofNat 8 i ≠ 0#8 := by
      intro same
      have value := congrArg BitVec.toNat same
      simp at value
      omega
    have notFull : BitVec.ofNat 8 i ≠ 255#8 := by
      intro same
      have value := congrArg BitVec.toNat same
      simp at value
      omega
    simp [Request.frame, Request.letter, Request.payload, escape, notZero, notFull]
  have range : List.range 256 = [0] ++ List.range' 1 254 ++ [255] := by
    rw [List.range_succ, List.range_eq_range', List.range'_succ]
    rfl
  simp only [dumpRequests, inner, addresses, range, List.map_append, List.map_map]
  rfl

theorem pySplit_report (m : Contents) (address : Word) :
    pySplit (pyRstrip ((Call.readData address).report m)) = readFields m address := by
  have solid := readFields_solid m address
  have line : [' '].intercalate (readFields m address) =
      [' '].intercalate ["Recieved".toList, "data".toList, decimal (m .dmem (address.setWidth 8)),
        "from".toList, "address".toList] ++ [' '] ++ decimal address := by
    simp [readFields]
  have stripped : pyRstrip ((Call.readData address).report m) =
      [' '].intercalate (readFields m address) := by
    rw [report_readData, pyRstrip_append (by simp [isSpace]), line]
    exact pyRstrip_word (decimal_ne_nil _) (decimal_solid _) _
  rw [stripped, pySplit]
  refine List.splitOn_intercalate ' ' (fun field member blank => ?_) (by simp [readFields])
  exact absurd (solid field member ' ' blank) (by decide)

theorem isLong_byte (long : Bool) (a : MemAddress) : isLong long (a.toNat : Int) = false := by
  have small : (a.toNat : Int) < 256 := by exact_mod_cast a.isLt
  cases long <;> simp [isLong] <;> omega

theorem dumpLine_report (long : Bool) (m : Contents) (a : MemAddress) :
    dumpLine long ((Call.readData (a.setWidth 32)).report m) =
      some (fileLine a (m .dmem a) ++ ['\n']) := by
  have fields := pySplit_report m (a.setWidth 32)
  have address : pyInt 10 (decimal (a.setWidth 32)) = some (a.toNat : Int) := by
    have small : (a.setWidth 32).toNat = a.toNat := BitVec.toNat_setWidth_of_le (by decide)
    rw [pyInt_decimal, BitVec.toInt_eq_toNat_of_lt (by omega), small]
  have data := pyInt_decimal (m .dmem a)
  have place : (a.setWidth 32).setWidth 8 = a := by simp
  unfold dumpLine
  simp only [fields, readFields, List.getElem?_cons_succ, List.getElem?_cons_zero,
    Option.bind_eq_bind, Option.bind_some, address, data, isLong_byte, land_mask, remove_long, place]
  rfl

theorem dump_frames (long : Bool) (ran : Nat → Contents → Contents) (m : Contents)
    (places : List MemAddress) :
    dump long ran (places.map fun a => (Request.r a).frame) (Port.idle m) =
      some ((places.map fun a => fileLine a (m .dmem a) ++ ['\n']).flatten, Port.idle m) := by
  induction places with
  | nil => rfl
  | cons a rest ih =>
    have answer : ((Port.idle m).write ran (Request.r a).frame).readline =
        ((Call.readData (a.setWidth 32)).report m, Port.idle m) := by
      rw [Port.idle_write, Port.readline]
      simp only [Request.call, readLine_report]
      rfl
    have flushed : (Port.idle m).flushInput = Port.idle m := rfl
    rw [List.map_cons, dump, answer]
    simp only [dumpLine_report, Option.bind_eq_bind, Option.bind_some, flushed, ih]
    rfl

theorem reloadCommand_fileLine (a : MemAddress) (w : Word) :
    reloadCommand (fileLine a w ++ ['\n']) = some (Request.d a w).command := by
  have address := pyHex_solid a.toNat
  have data := pyHex_solid w.toNat
  have stripped : pyRstrip (fileLine a w ++ ['\n']) = fileLine a w := by
    rw [pyRstrip_append (by simp [isSpace]), fileLine]
    exact pyRstrip_word (by simp [pyHex_natCast]) data _
  have fields : pySplit (fileLine a w) = [pyHex false a.toNat, pyHex false w.toNat] := by
    have line : fileLine a w = [' '].intercalate [pyHex false a.toNat, pyHex false w.toNat] := by
      simp [fileLine]
    rw [pySplit, line]
    refine List.splitOn_intercalate ' ' (fun field member blank => ?_) (by simp)
    rcases List.mem_pair.mp member with rfl | rfl
    · exact absurd (address ' ' blank) (by decide)
    · exact absurd (data ' ' blank) (by decide)
  unfold reloadCommand lineFields
  simp only [stripped, fields, List.getElem?_cons_succ, List.getElem?_cons_zero,
    Option.bind_eq_bind, Option.bind_some, pyInt_pyHex]
  rfl

theorem lines_dump (content : MemAddress → Word) (places : List MemAddress) :
    Text.lines '\n' (places.map fun a => fileLine a (content a) ++ ['\n']).flatten =
      places.map fun a => fileLine a (content a) ++ ['\n'] := by
  have number : ∀ n : Nat, '\n' ∉ pyHex false n := fun n member =>
    absurd (pyHex_solid n _ member) (by decide)
  refine Text.lines_flatten fun line member => ?_
  obtain ⟨a, -, rfl⟩ := List.mem_map.mp member
  exact ⟨_, by simp [fileLine, number], rfl⟩

theorem reload_lines (long : Bool) (content : MemAddress → Word) (places : List MemAddress) :
    reload long (places.map fun a => fileLine a (content a) ++ ['\n']).flatten =
      some (places.flatMap fun a => (Request.d a (content a)).frame) := by
  have commands : (places.map fun a => fileLine a (content a) ++ ['\n']).mapM reloadCommand =
      some ((places.map fun a => Request.d a (content a)).map Request.command) := by
    induction places with
    | nil => rfl
    | cons a rest ih => simp [reloadCommand_fileLine, ih]
  rw [reload, lines_dump, commands, Option.bind_eq_bind, Option.bind_some, hostBytes_commands,
    List.flatMap_map]

/-- What `-d` makes the firmware do with a dump. -/
def restore (m : Contents) : List Call :=
  addresses.map fun a => .writeData (a.setWidth 32) (m .dmem a)

theorem perform_writes (m m' : Contents) (places : List MemAddress) (bank : Bank) (a : MemAddress) :
    perform m' (places.map fun a => .writeData (a.setWidth 32) (m .dmem a)) bank a =
      if bank = .dmem ∧ a ∈ places then m .dmem a else m' bank a := by
  induction places generalizing m' with
  | nil => simp [perform]
  | cons b rest ih =>
    have first : Call.perform m' (.writeData (b.setWidth 32) (m .dmem b)) bank a =
        if bank = .dmem ∧ a = b then m .dmem b else m' bank a := by
      simp [Call.perform, Call.writes, MemoryWrite.apply]
    rw [List.map_cons, perform, List.foldl_cons, ← perform, ih, first]
    by_cases data : bank = .dmem
    · by_cases here : a = b
      · subst here
        simp [data]
      · simp [here]
    · simp [data]

/-- A dump has a line for every address, in order, and reloading it puts the
data memory back, whatever is there by then. -/
theorem dump_reload_inverse (long : Bool) (ran : Nat → Contents → Contents) (m : Contents) :
    ∃ file, dump long ran dumpRequests (Port.idle m) = some (file, Port.idle m) ∧
      Text.lines '\n' file = addresses.map (fun a => fileLine a (m .dmem a) ++ ['\n']) ∧
      ∃ bytes, reload long file = some bytes ∧
        main bytes = ((restore m).map .call, .dispatch) ∧ (restore m).length = 256 ∧
        ∀ m', perform m' (restore m) .dmem = m .dmem ∧ perform m' (restore m) .imem = m' .imem := by
  refine ⟨_, ?_, ?_, _, reload_lines long (m .dmem) addresses, ?_, ?_, fun m' => ⟨?_, ?_⟩⟩
  · rw [dumpRequests_eq]
    exact dump_frames long ran m addresses
  · exact lines_dump (m .dmem) addresses
  · have requests := Point.run_frames (addresses.map fun a => Request.d a (m .dmem a))
    rw [List.flatMap_map] at requests
    rw [main_eq_run, requests, restore, List.map_map, List.map_map]
    rfl
  · simp [restore, addresses]
  · funext a
    rw [restore, perform_writes, if_pos ⟨rfl, mem_addresses a⟩]
  · funext a
    rw [restore, perform_writes, if_neg (by simp)]

end Tdt4255
