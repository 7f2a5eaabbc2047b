import Tdt4255.Driver.Access
import Tdt4255.Host.Encode
import Tdt4255.Lib.Transducer

/-! The firmware's `main`, fed with the characters that `getchar` delivers. -/

namespace Tdt4255

/-- What `main` does between two characters. -/
inductive Action
  | call (c : Call)
  | startCpu
  | stopCpu
  | unknownCommand (curChar : Byte)
  deriving DecidableEq, Repr

/-- Which call of `getchar` waits when the input is used up. -/
inductive Waiting
  | dispatch
  | inFrame
  | running
  deriving DecidableEq, Repr

/-- A loop that calls `getchar` until the character is not 0; `none` if it
goes on waiting. -/
def getNonZero : List Byte → Option (Byte × List Byte)
  | [] => none
  | newChar :: rest => if newChar = 0#8 then getNonZero rest else some (newChar, rest)

def readCharacter (input : List Byte) : Option (Word × List Byte) := do
  let (thisChar, input) ← getNonZero input
  if thisChar = 255#8 then
    let (newChar, input) ← getNonZero input
    if newChar = 255#8 then return (255#32, input)
    return (0#32, input)
  return (thisChar.setWidth 32, input)

def recieveAddress (input : List Byte) : Option (Word × List Byte) := readCharacter input

def joinChars (char1 char2 char3 char4 : Word) : Word :=
  char1 <<< 24 ||| char2 <<< 16 ||| char3 <<< 8 ||| char4

def recieveData (input : List Byte) : Option (Word × List Byte) := do
  let (char1, input) ← readCharacter input
  let (char2, input) ← readCharacter input
  let (char3, input) ← readCharacter input
  let (char4, input) ← readCharacter input
  return (joinChars char1 char2 char3 char4, input)

/-- `while(getchar() != HOST_CMD_START_STOP_CPU);` -/
def awaitStop : List Byte → Option (List Byte)
  | [] => none
  | newChar :: rest => if newChar = hostCmdStartStopCpu then some rest else awaitStop rest

def recieveBoth (input : List Byte) : Option ((Word × Word) × List Byte) := do
  let (address, input) ← recieveAddress input
  let (data, input) ← recieveData input
  return ((address, data), input)

/-- One round of the loop in `main`: what it does, and the input left or the
place where it waits for more. -/
def mainRound (curChar : Byte) (input : List Byte) : List Action × Except Waiting (List Byte) :=
  if curChar = 0#8 then ([], .ok input)
  else if curChar = hostCmdInstruction then
    match recieveBoth input with
    | none => ([], .error .inFrame)
    | some ((address, data), input) => ([.call (.writeInstruction address data)], .ok input)
  else if curChar = hostCmdWriteData then
    match recieveBoth input with
    | none => ([], .error .inFrame)
    | some ((address, data), input) => ([.call (.writeData address data)], .ok input)
  else if curChar = hostCmdReadData then
    match recieveAddress input with
    | none => ([], .error .inFrame)
    | some (address, input) => ([.call (.readData address)], .ok input)
  else if curChar = hostCmdStartStopCpu then
    match awaitStop input with
    | none => ([.startCpu], .error .running)
    | some input => ([.startCpu, .stopCpu], .ok input)
  else ([.unknownCommand curChar], .ok input)

/-- All actions, and where `main` waits in the end. Every round takes a
character, so as many rounds as characters are enough. -/
def mainLoop : Nat → List Byte → List Action × Waiting
  | _, [] => ([], .dispatch)
  | 0, _ :: _ => ([], .dispatch)
  | rounds + 1, curChar :: input =>
    match mainRound curChar input with
    | (actions, .error waiting) => (actions, waiting)
    | (actions, .ok input) =>
      (actions ++ (mainLoop rounds input).1, (mainLoop rounds input).2)

def main (input : List Byte) : List Action × Waiting := mainLoop input.length input

/-! The same, one character at a time. -/

inductive Point
  | dispatch
  | frame (curChar : Byte) (received : List Word) (escaped : Bool)
  | running
  deriving DecidableEq, Repr

def Point.waiting : Point → Waiting
  | .dispatch => .dispatch
  | .frame .. => .inFrame
  | .running => .running

/-- The call that a complete frame stands for. -/
def frameCall (curChar : Byte) : List Word → Option Call
  | [address] => if curChar = hostCmdReadData then some (.readData address) else none
  | [address, char1, char2, char3, char4] =>
    if curChar = hostCmdInstruction then
      some (.writeInstruction address (joinChars char1 char2 char3 char4))
    else if curChar = hostCmdWriteData then
      some (.writeData address (joinChars char1 char2 char3 char4))
    else none
  | _ => none

/-- `readCharacter` returns `char`. -/
def accept (curChar : Byte) (received : List Word) (char : Word) : Point × List Action :=
  match frameCall curChar (received ++ [char]) with
  | some c => (.dispatch, [.call c])
  | none => (.frame curChar (received ++ [char]) false, [])

def Point.step : Point → Byte → Point × List Action
  | .dispatch, newChar =>
    if newChar = 0#8 then (.dispatch, [])
    else if newChar = hostCmdInstruction ∨ newChar = hostCmdWriteData ∨
        newChar = hostCmdReadData then (.frame newChar [] false, [])
    else if newChar = hostCmdStartStopCpu then (.running, [.startCpu])
    else (.dispatch, [.unknownCommand newChar])
  | .frame curChar received false, newChar =>
    if newChar = 0#8 then (.frame curChar received false, [])
    else if newChar = 255#8 then (.frame curChar received true, [])
    else accept curChar received (newChar.setWidth 32)
  | .frame curChar received true, newChar =>
    if newChar = 0#8 then (.frame curChar received true, [])
    else accept curChar received (if newChar = 255#8 then 255#32 else 0#32)
  | .running, newChar =>
    if newChar = hostCmdStartStopCpu then (.dispatch, [.stopCpu]) else (.running, [])

def Point.run : Point → List Byte → Point × List Action := Transducer.run Point.step

namespace Point

theorem run_nil (p : Point) : p.run [] = (p, []) := rfl

theorem run_cons (p : Point) (c : Byte) (rest : List Byte) :
    p.run (c :: rest) = (((p.step c).1.run rest).1, (p.step c).2 ++ ((p.step c).1.run rest).2) := rfl

theorem run_append (p : Point) (xs ys : List Byte) :
    p.run (xs ++ ys) = (((p.run xs).1.run ys).1, (p.run xs).2 ++ ((p.run xs).1.run ys).2) :=
  Transducer.run_append _ _ _ _

/-- A zero never counts. -/
theorem step_zero (p : Point) : p.step 0#8 = (p, []) := by
  rcases p with _ | ⟨_, _, _ | _⟩ | _ <;> rfl

def after (r : Point × List Action) (rest : List Byte) : Point × List Action :=
  ((r.1.run rest).1, r.2 ++ (r.1.run rest).2)

/-- `getNonZero` skips what no state counts. -/
theorem run_getNonZero (p : Point) (input : List Byte) :
    match getNonZero input with
    | none => p.run input = (p, [])
    | some (c, rest) => c ≠ 0#8 ∧ rest.length < input.length ∧ p.run input = p.run (c :: rest) := by
  induction input with
  | nil => rfl
  | cons c input ih =>
    by_cases zero : c = 0#8
    · subst zero
      simp only [getNonZero, if_true, run_cons p 0#8, step_zero, List.nil_append]
      cases found : getNonZero input with
      | none => simpa [found] using ih
      | some pair =>
        rw [found] at ih
        obtain ⟨nonzero, shorter, same⟩ := ih
        exact ⟨nonzero, by simp; omega, same⟩
    · simp only [getNonZero, if_neg zero]
      exact ⟨zero, by simp⟩

/-- A reader that starts inside a frame either goes on waiting there or takes
some characters and ends in a known way. -/
def Reads {α : Type} (curChar : Byte) (received : List Word) (input : List Byte)
    (finish : α → Point × List Action) : Option (α × List Byte) → Prop
  | none => ∃ received' escaped,
      (frame curChar received false).run input = (frame curChar received' escaped, [])
  | some (x, rest) => rest.length < input.length ∧
      (frame curChar received false).run input = after (finish x) rest

theorem reads_readCharacter (curChar : Byte) (received : List Word) (input : List Byte) :
    Reads curChar received input (accept curChar received) (readCharacter input) := by
  have first := run_getNonZero (frame curChar received false) input
  unfold readCharacter
  cases found : getNonZero input with
  | none =>
    rw [found] at first
    exact ⟨received, false, first⟩
  | some pair =>
    obtain ⟨c, rest⟩ := pair
    rw [found] at first
    obtain ⟨nonzero, shorter, same⟩ := first
    by_cases full : c = 255#8
    · have entered : (frame curChar received false).run input =
          (frame curChar received true).run rest := by
        rw [same, run_cons, step, if_neg nonzero, if_pos full]
        rfl
      have second := run_getNonZero (frame curChar received true) rest
      cases found' : getNonZero rest with
      | none =>
        rw [found'] at second
        have waits : Reads curChar received input (accept curChar received) none :=
          ⟨received, true, entered.trans second⟩
        simpa [full, found'] using waits
      | some pair =>
        obtain ⟨d, rest'⟩ := pair
        rw [found'] at second
        obtain ⟨nonzero', shorter', same'⟩ := second
        have accepted : (frame curChar received false).run input =
            after (accept curChar received (if d = 255#8 then 255#32 else 0#32)) rest' := by
          rw [entered, same', run_cons, step, if_neg nonzero']
          rfl
        by_cases double : d = 255#8
        · rw [if_pos double] at accepted
          simpa [full, found', double, Reads] using ⟨shorter'.trans shorter, accepted⟩
        · rw [if_neg double] at accepted
          simpa [full, found', double, Reads] using ⟨shorter'.trans shorter, accepted⟩
    · have accepted : (frame curChar received false).run input =
          after (accept curChar received (c.setWidth 32)) rest := by
        rw [same, run_cons, step, if_neg nonzero, if_neg full]
        rfl
      simpa [full, Reads] using ⟨shorter, accepted⟩

theorem after_frame (p : Point) (rest : List Byte) : after (p, []) rest = p.run rest := by
  simp [after]

theorem Reads.bind {α : Type} {curChar : Byte} {received : List Word} {input : List Byte}
    {finish : α → Point × List Action} {next : Word × List Byte → Option (α × List Byte)}
    (more : ∀ char, frameCall curChar (received ++ [char]) = none)
    (reads : ∀ char rest, Reads curChar (received ++ [char]) rest finish (next (char, rest))) :
    Reads curChar received input finish ((readCharacter input).bind next) := by
  have first := reads_readCharacter curChar received input
  cases found : readCharacter input with
  | none =>
    rw [found] at first
    exact first
  | some pair =>
    obtain ⟨char, rest⟩ := pair
    rw [found] at first
    obtain ⟨shorter, same⟩ := first
    have accepted : accept curChar received char = (frame curChar (received ++ [char]) false, []) := by
      rw [accept, more]
    rw [accepted, after_frame] at same
    have second := reads char rest
    simp only [Option.bind_some]
    cases found' : next (char, rest) with
    | none =>
      rw [found'] at second
      obtain ⟨received', escaped, waits⟩ := second
      exact ⟨received', escaped, same.trans waits⟩
    | some pair =>
      rw [found'] at second
      exact ⟨second.1.trans shorter, same.trans second.2⟩

theorem Reads.last {α : Type} {curChar : Byte} {received : List Word} (result : Word → α)
    (call : α → Call) (input : List Byte)
    (complete : ∀ char, frameCall curChar (received ++ [char]) = some (call (result char))) :
    Reads curChar received input (fun x => (dispatch, [.call (call x)]))
      ((readCharacter input).bind fun pair => some (result pair.1, pair.2)) := by
  have first := reads_readCharacter curChar received input
  cases found : readCharacter input with
  | none =>
    rw [found] at first
    exact first
  | some pair =>
    obtain ⟨char, rest⟩ := pair
    rw [found] at first
    obtain ⟨shorter, same⟩ := first
    refine ⟨shorter, same.trans ?_⟩
    rw [accept, complete]

theorem reads_recieveAddress (input : List Byte) :
    Reads hostCmdReadData [] input (fun address => (dispatch, [.call (.readData address)]))
      (recieveAddress input) := by
  have last : Reads hostCmdReadData [] input (fun address => (dispatch, [.call (.readData address)]))
      ((readCharacter input).bind fun pair => some (pair.1, pair.2)) :=
    Reads.last id Call.readData input fun _ => rfl
  simpa [recieveAddress] using last

theorem reads_recieveBoth (curChar : Byte) (call : Word → Word → Call)
    (short : ∀ received : List Word, received.length < 5 → frameCall curChar received = none)
    (complete : ∀ a c1 c2 c3 c4,
      frameCall curChar [a, c1, c2, c3, c4] = some (call a (joinChars c1 c2 c3 c4)))
    (input : List Byte) :
    Reads curChar [] input (fun pair => (dispatch, [.call (call pair.1 pair.2)]))
      (recieveBoth input) := by
  unfold recieveBoth recieveAddress recieveData
  simp only [Option.bind_eq_bind, Option.pure_def, Option.bind_assoc, Option.bind_some]
  refine Reads.bind (fun _ => short _ (by simp)) fun address rest => ?_
  refine Reads.bind (fun _ => short _ (by simp)) fun char1 rest => ?_
  refine Reads.bind (fun _ => short _ (by simp)) fun char2 rest => ?_
  refine Reads.bind (fun _ => short _ (by simp)) fun char3 rest => ?_
  exact Reads.last (fun char4 => (address, joinChars char1 char2 char3 char4))
    (fun pair => call pair.1 pair.2) rest fun char4 => complete address char1 char2 char3 char4

theorem run_awaitStop (input : List Byte) :
    match awaitStop input with
    | none => running.run input = (running, [])
    | some rest => rest.length < input.length ∧
        running.run input = after (dispatch, [.stopCpu]) rest := by
  induction input with
  | nil => rfl
  | cons c input ih =>
    rw [awaitStop, run_cons, step]
    by_cases stop : c = hostCmdStartStopCpu
    · simp only [if_pos stop]
      exact ⟨by simp, rfl⟩
    · simp only [if_neg stop, List.nil_append]
      cases found : awaitStop input with
      | none => simpa [found] using ih
      | some rest =>
        rw [found] at ih
        exact ⟨ih.1.trans (by simp), ih.2⟩

theorem frameCall_short {curChar : Byte} (write : curChar ≠ hostCmdReadData) (received : List Word)
    (short : received.length < 5) : frameCall curChar received = none := by
  unfold frameCall
  split
  · exact if_neg write
  · simp at short
  · rfl

def Round (curChar : Byte) (input : List Byte) : List Action × Except Waiting (List Byte) → Prop
  | (actions, .error waiting) =>
    ∃ p : Point, p.waiting = waiting ∧ dispatch.run (curChar :: input) = (p, actions)
  | (actions, .ok rest) =>
    rest.length ≤ input.length ∧
      dispatch.run (curChar :: input) = after (dispatch, actions) rest

theorem round_frame {α : Type} {curChar : Byte} {input : List Byte} {call : α → Call}
    (enters : dispatch.step curChar = (frame curChar [] false, [])) {result : Option (α × List Byte)}
    (reads : Reads curChar [] input (fun x => (dispatch, [.call (call x)])) result) :
    Round curChar input
      (result.elim ([], .error .inFrame) fun pair => ([.call (call pair.1)], .ok pair.2)) := by
  have start : dispatch.run (curChar :: input) = (frame curChar [] false).run input := by
    rw [run_cons, enters]
    rfl
  cases result with
  | none =>
    obtain ⟨received, escaped, waits⟩ := reads
    exact ⟨_, rfl, start.trans waits⟩
  | some pair => exact ⟨reads.1.le, start.trans reads.2⟩

/-- The rounds of `i` and `d`. -/
theorem round_recieveBoth {curChar : Byte} {call : Word → Word → Call}
    (write : curChar ≠ hostCmdReadData)
    (enters : dispatch.step curChar = (frame curChar [] false, []))
    (complete : ∀ a c1 c2 c3 c4,
      frameCall curChar [a, c1, c2, c3, c4] = some (call a (joinChars c1 c2 c3 c4)))
    (input : List Byte) :
    Round curChar input
      (match recieveBoth input with
        | none => ([], .error .inFrame)
        | some ((address, data), input) => ([.call (call address data)], .ok input)) := by
  have reads := round_frame enters
    (reads_recieveBoth curChar call (frameCall_short write) complete input)
  cases found : recieveBoth input with
  | none => simpa [found] using reads
  | some pair => simpa [found] using reads

theorem round (curChar : Byte) (input : List Byte) :
    Round curChar input (mainRound curChar input) := by
  unfold mainRound
  by_cases zero : curChar = 0#8
  · subst zero
    exact ⟨le_rfl, rfl⟩
  by_cases instruction : curChar = hostCmdInstruction
  · subst instruction
    rw [if_neg zero, if_pos rfl]
    exact round_recieveBoth (by decide) rfl (fun _ _ _ _ _ => rfl) input
  by_cases write : curChar = hostCmdWriteData
  · subst write
    rw [if_neg zero, if_neg instruction, if_pos rfl]
    exact round_recieveBoth (by decide) rfl (fun _ _ _ _ _ => rfl) input
  by_cases read : curChar = hostCmdReadData
  · subst read
    have reads := round_frame rfl (reads_recieveAddress input)
    rw [if_neg zero, if_neg instruction, if_neg write, if_pos rfl]
    cases found : recieveAddress input with
    | none => simpa [found] using reads
    | some pair => simpa [found] using reads
  rw [if_neg zero, if_neg instruction, if_neg write, if_neg read]
  by_cases start : curChar = hostCmdStartStopCpu
  · subst start
    have runs := run_awaitStop input
    have enters : dispatch.run (hostCmdStartStopCpu :: input) =
        after (running, [.startCpu]) input := rfl
    rw [if_pos rfl]
    cases found : awaitStop input with
    | none =>
      rw [found] at runs
      exact ⟨running, rfl, by rw [enters, after, runs]; rfl⟩
    | some rest =>
      rw [found] at runs
      exact ⟨runs.1.le, by rw [enters, after, runs.2]; rfl⟩
  · rw [if_neg start]
    refine ⟨le_rfl, ?_⟩
    rw [run_cons, step, if_neg zero, if_neg (by simp [instruction, write, read]), if_neg start]
    rfl

end Point

open Point in
/-- The loop and the machine do the same. -/
theorem mainLoop_eq_run (rounds : Nat) {input : List Byte} (enough : input.length ≤ rounds) :
    mainLoop rounds input = ((dispatch.run input).2, (dispatch.run input).1.waiting) := by
  induction rounds generalizing input with
  | zero =>
    obtain rfl : input = [] := List.length_eq_zero_iff.mp (by omega)
    rfl
  | succ rounds ih =>
    cases input with
    | nil => rfl
    | cons c input =>
      have shorter : input.length ≤ rounds := by simpa using enough
      have one := round c input
      rw [mainLoop]
      cases result : mainRound c input with
      | mk actions goesOn =>
        rw [result] at one
        cases goesOn with
        | error waiting =>
          obtain ⟨p, rfl, same⟩ := one
          rw [same]
        | ok rest =>
          obtain ⟨less, same⟩ := one
          simp only [same, after, ih (less.trans shorter)]

theorem main_eq_run (input : List Byte) :
    main input = ((Point.dispatch.run input).2, (Point.dispatch.run input).1.waiting) :=
  mainLoop_eq_run _ le_rfl

end Tdt4255
