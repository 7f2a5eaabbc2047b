import Tdt4255.Driver.Actions
import Tdt4255.Serial.FileLoad
import Tdt4255.Serial.RunMode

/-! The host waits for a line after everything it sends. -/

namespace Tdt4255

/-- `-c` again and again: what it sends, and the line it reads. -/
def converse (ran : Nat → Contents → Contents) : List Frame → Port → List (List Char) × Port
  | [], p => ([], p)
  | f :: rest, p =>
    let (i1, p) := (p.write ran f.bytes).readline
    let (later, p) := converse ran rest p
    (i1 :: later, p)

/-- The answers that belong to the frames, with run `k` the next to end. While
the processor runs there is none to a request, and `readline` gives up. -/
def answers (ran : Nat → Contents → Contents) (running : Bool) (k : Nat) (m : Contents) :
    List Frame → List (List Char)
  | [] => []
  | .request q :: rest =>
    if running then [] :: answers ran true k m rest
    else q.call.report m :: answers ran false k (q.call.perform m) rest
  | .startStop :: rest =>
    if running then Action.stopCpu.report m :: answers ran false (k + 1) (ran k m) rest
    else Action.startCpu.report m :: answers ran true k m rest

/-- The board between two frames, with nothing on the line. -/
def Port.between (running : Bool) (m : Nat × Contents) : Port where
  point := betweenFrames running
  runs := m.1
  memory := m.2
  received := []

theorem readLine_actionReport {a : Action} (known : a.known = true) (m : Contents) :
    Text.readLine '\n' (a.report m) = (a.report m, []) := by
  have line : ∀ text : List Char, '\n' ∉ text →
      Text.readLine '\n' (text ++ ['\n']) = (text ++ ['\n'], []) :=
    fun text lacks => Text.readLine_append lacks []
  cases a with
  | call c => exact readLine_callReport c m
  | startCpu => exact line "CPU started, send s command to stop\r".toList (by decide)
  | stopCpu => exact line "CPU stopped, ready to recieve commands\r".toList (by decide)
  | unknownCommand b => simp [Action.known] at known

/-- One action at most, and its line read at once. -/
theorem serve_read (ran : Nat → Contents → Contents) (running : Bool) (m : Nat × Contents)
    {actions : List Action}
    (single : actions = [] ∨ ∃ a : Action, a.known = true ∧ actions = [a]) :
    (actions.foldl (Port.serve ran) (Port.between running m)).readline =
      ((actions.head?.map (Action.report m.2)).getD [],
        Port.between running (actions.foldl (Action.perform ran) m)) := by
  rcases single with rfl | ⟨a, known, rfl⟩
  · rfl
  · have whole := readLine_actionReport known m.2
    simp only [List.foldl_cons, List.foldl_nil, List.head?_cons, Option.map_some, Option.getD_some,
      Port.serve, Port.readline, Port.between, List.nil_append, whole]

theorem write_read (ran : Nat → Contents → Contents) {running : Bool} {f : Frame}
    (unambiguous : Unambiguous running [f]) (m : Nat × Contents) :
    ((Port.between running m).write ran f.bytes).readline =
      (((intended running [f]).head?.map (Action.report m.2)).getD [],
        Port.between (runState running [f]) ((intended running [f]).foldl (Action.perform ran) m)) := by
  have run := (run_frame_iff running f).mpr unambiguous
  have written : (Port.between running m).write ran f.bytes =
      (intended running [f]).foldl (Port.serve ran)
        (Port.between (runState running [f]) m) := by
    simp only [Port.write, Port.between, run]
  rw [written]
  refine serve_read ran _ m ?_
  cases f with
  | request q =>
    cases running with
    | true => exact Or.inl rfl
    | false => exact Or.inr ⟨.call q.call, rfl, rfl⟩
  | startStop =>
    cases running with
    | true => exact Or.inr ⟨.stopCpu, rfl, rfl⟩
    | false => exact Or.inr ⟨.startCpu, rfl, rfl⟩

/-- The host and the board stay in step: every line that the host reads
answers what it has just sent, nothing is left on the line, and the memories
hold what the frames and the runs between them have made of them. -/
theorem answers_in_step (ran : Nat → Contents → Contents) {running : Bool} {frames : List Frame}
    (unambiguous : Unambiguous running frames) (k : Nat) (m : Contents) :
    converse ran frames (Port.between running (k, m)) =
      (answers ran running k m frames,
        Port.between (runState running frames)
          ((intended running frames).foldl (Action.perform ran) (k, m))) := by
  induction frames generalizing running k m with
  | nil => rfl
  | cons f rest ih =>
    obtain ⟨first, later⟩ := (unambiguous_cons running f rest).mp unambiguous
    simp only [converse, write_read ran first, ih later]
    cases f with
    | request q => cases running <;> rfl
    | startStop => cases running <;> rfl

/-- Two runs from equal memories that end differently. -/
theorem answers_in_step_run :
    (converse (fun k m => (Call.writeData 7 (BitVec.ofNat 32 (k + 8))).perform m)
        [.request (.d 7 1), .startStop, .request (.r 7), .startStop, .request (.r 7),
          .request (.d 7 1), .startStop, .startStop, .request (.r 7)]
        (Port.between false (0, fun _ _ => 0))).1 =
      ["Wrote data 1 to data address 7\r\n".toList,
        "CPU started, send s command to stop\r\n".toList, [],
        "CPU stopped, ready to recieve commands\r\n".toList,
        "Recieved data 8 from address 7\r\n".toList,
        "Wrote data 1 to data address 7\r\n".toList,
        "CPU started, send s command to stop\r\n".toList,
        "CPU stopped, ready to recieve commands\r\n".toList,
        "Recieved data 9 from address 7\r\n".toList] := by
  have unambiguous : Unambiguous false
      [.request (.d 7 1), .startStop, .request (.r 7), .startStop, .request (.r 7),
        .request (.d 7 1), .startStop, .startStop, .request (.r 7)] := by
    simp [Unambiguous, Request.payload, hostCmdStartStopCpu]
  rw [answers_in_step _ unambiguous]
  decide

end Tdt4255
