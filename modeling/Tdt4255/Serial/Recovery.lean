import Tdt4255.Driver.Resync
import Tdt4255.System

/-! A host that does not know what has been sent before it. -/

namespace Tdt4255

def unknownLetter : Byte := 0x78#8

/-- `xxxxxrs`: five letters end any frame, and `s` ends a run or the frame
that `r` begins. -/
def recovery : List Byte :=
  List.replicate 5 unknownLetter ++ [hostCmdReadData, hostCmdStartStopCpu]

namespace Point

/-- Frames have a letter that begins one and are not complete. -/
def Possible : Point → Prop
  | .frame curChar received _ =>
    curChar = hostCmdReadData ∧ received = [] ∨
      (curChar = hostCmdInstruction ∨ curChar = hostCmdWriteData) ∧ received.length < 5
  | _ => True

/-- How many characters are enough to end the frame. -/
def missing : Point → Nat
  | .frame curChar received _ => if curChar = hostCmdReadData then 1 else 5 - received.length
  | _ => 0

theorem accept_possible {curChar : Byte} {received : List Word} {escaped : Bool}
    (possible : (frame curChar received escaped).Possible) (char : Word) :
    (∃ c, accept curChar received char = (dispatch, [.call c])) ∨
      ∃ p : Point, accept curChar received char = (p, []) ∧ p.Possible ∧
        p.missing + 1 = (frame curChar received escaped).missing := by
  rcases possible with ⟨rfl, rfl⟩ | ⟨write, short⟩
  · exact Or.inl ⟨.readData char, rfl⟩
  · have notRead : curChar ≠ hostCmdReadData := by rcases write with rfl | rfl <;> decide
    rcases Nat.lt_succ_iff_lt_or_eq.mp short with shorter | last
    · have none : frameCall curChar (received ++ [char]) = none := by
        refine frameCall_short notRead _ ?_
        rw [List.length_append, List.length_singleton]
        omega
      refine Or.inr ⟨frame curChar (received ++ [char]) false, by rw [accept, none], ?_, ?_⟩
      · refine Or.inr ⟨write, ?_⟩
        rw [List.length_append, List.length_singleton]
        omega
      · simp only [missing, if_neg notRead, List.length_append, List.length_singleton]
        omega
    · obtain ⟨address, char1, char2, char3, rfl⟩ := List.length_eq_four.mp last
      rcases write with rfl | rfl
      · exact Or.inl ⟨.writeInstruction address (joinChars char1 char2 char3 char), rfl⟩
      · exact Or.inl ⟨.writeData address (joinChars char1 char2 char3 char), rfl⟩

theorem step_possible {p : Point} (possible : p.Possible) (newChar : Byte) :
    (p.step newChar).1.Possible := by
  have accepted : ∀ {curChar received escaped}, (frame curChar received escaped).Possible →
      ∀ char, (accept curChar received char).1.Possible := by
    intro curChar received escaped possible char
    rcases accept_possible possible char with ⟨c, ends⟩ | ⟨q, goesOn, further, -⟩
    · rw [ends]
      trivial
    · rw [goesOn]
      exact further
  rcases p with _ | ⟨curChar, received, _ | _⟩ | _
  · simp only [Point.step]
    split_ifs with zero letter start
    · trivial
    · rcases letter with rfl | rfl | rfl
      · exact Or.inr ⟨Or.inl rfl, by decide⟩
      · exact Or.inr ⟨Or.inr rfl, by decide⟩
      · exact Or.inl ⟨rfl, rfl⟩
    · trivial
    · trivial
  · simp only [Point.step]
    split_ifs
    · exact possible
    · exact possible
    · exact accepted possible _
  · simp only [Point.step]
    split_ifs
    · exact possible
    · exact accepted possible _
    · exact accepted possible _
  · simp only [Point.step]
    split_ifs <;> trivial

theorem run_possible {p : Point} (possible : p.Possible) (input : List Byte) :
    (p.run input).1.Possible := by
  induction input generalizing p with
  | nil => exact possible
  | cons c input ih => exact ih (step_possible possible c)

/-- A letter that means nothing is taken for a character of the frame. -/
theorem step_unknownLetter (curChar : Byte) (received : List Word) (escaped : Bool) :
    ∃ char, (frame curChar received escaped).step unknownLetter = accept curChar received char := by
  cases escaped with
  | false => exact ⟨unknownLetter.setWidth 32, rfl⟩
  | true => exact ⟨0#32, rfl⟩

theorem run_unknownLetters {p : Point} (possible : p.Possible) {n : Nat} (enough : p.missing ≤ n) :
    ∃ q actions, p.run (List.replicate n unknownLetter) = (q, actions) ∧
      (q = dispatch ∨ q = running) ∧ .startCpu ∉ actions := by
  induction n generalizing p with
  | zero =>
    refine ⟨p, [], rfl, ?_, by simp⟩
    rcases p with _ | ⟨curChar, received, escaped⟩ | _
    · exact Or.inl rfl
    · rcases possible with ⟨rfl, rfl⟩ | ⟨write, short⟩
      · simp [missing] at enough
      · have notRead : curChar ≠ hostCmdReadData := by rcases write with rfl | rfl <;> decide
        simp only [missing, if_neg notRead] at enough
        omega
    · exact Or.inr rfl
  | succ n ih =>
    have next : ∃ q actions, p.step unknownLetter = (q, actions) ∧ q.Possible ∧ q.missing ≤ n ∧
        .startCpu ∉ actions := by
      rcases p with _ | ⟨curChar, received, escaped⟩ | _
      · exact ⟨dispatch, [.unknownCommand unknownLetter], rfl, trivial, Nat.zero_le n, by simp⟩
      · obtain ⟨char, taken⟩ := step_unknownLetter curChar received escaped
        rcases accept_possible possible char with ⟨c, ends⟩ | ⟨q, goesOn, further, less⟩
        · exact ⟨dispatch, [.call c], taken.trans ends, trivial, Nat.zero_le n, by simp⟩
        · exact ⟨q, [], taken.trans goesOn, further, by omega, by simp⟩
      · exact ⟨running, [], rfl, trivial, Nat.zero_le n, by simp⟩
    obtain ⟨q, actions, step, further, less, quiet⟩ := next
    obtain ⟨r, actions', run, ends, quiet'⟩ := ih further less
    refine ⟨r, actions ++ actions', ?_, ends, by simp [quiet, quiet']⟩
    rw [List.replicate_succ, run_cons, step, run]

theorem missing_le {p : Point} : p.missing ≤ 5 := by
  unfold missing
  split
  · split_ifs <;> omega
  · omega

theorem run_recovery {p : Point} (possible : p.Possible) :
    ∃ actions, p.run recovery = (dispatch, actions) ∧ .startCpu ∉ actions := by
  obtain ⟨q, actions, letters, rfl | rfl, quiet⟩ := run_unknownLetters possible missing_le
  · refine ⟨actions ++ [.call (.readData 0x73)], ?_, by simp [quiet]⟩
    rw [recovery, run_append, letters]
    rfl
  · refine ⟨actions ++ [.stopCpu], ?_, by simp [quiet]⟩
    rw [recovery, run_append, letters]
    rfl

end Point

theorem run_garbage (garbage later : List Byte) : ∃ actions,
    Point.dispatch.run (garbage ++ (recovery ++ later)) =
        ((Point.dispatch.run later).1, (main garbage).1 ++ actions ++ (Point.dispatch.run later).2) ∧
      .startCpu ∉ actions := by
  obtain ⟨actions, recovers, quiet⟩ := Point.run_recovery (Point.run_possible (p := .dispatch) trivial garbage)
  refine ⟨actions, ?_, quiet⟩
  rw [Point.run_append, Point.run_append, recovers, main_eq_run, List.append_assoc]

/-- Seven letters bring `main` back to where it waits for a command, whatever
has arrived before and wherever it was interrupted. They start nothing, and
what comes after them is taken as if it were the first thing to come. -/
theorem main_recovers (garbage later : List Byte) : ∃ actions,
    main (garbage ++ (recovery ++ later)) =
        ((main garbage).1 ++ actions ++ (main later).1, (main later).2) ∧
      .startCpu ∉ actions := by
  obtain ⟨actions, run, quiet⟩ := run_garbage garbage later
  refine ⟨actions, ?_, quiet⟩
  rw [main_eq_run, run, main_eq_run later]

/-- The seven letters and a read of address `x`, whose word is thrown away. -/
def greeting : List Byte := recovery ++ [hostCmdReadData, unknownLetter]

theorem run_greeting (garbage later : List Byte) : ∃ before,
    (Point.dispatch.run (garbage ++ (greeting ++ later))).2 =
      before ++ .call (.readData 0x78) :: (Point.dispatch.run later).2 := by
  obtain ⟨actions, run, -⟩ := run_garbage garbage ([hostCmdReadData, unknownLetter] ++ later)
  refine ⟨(main garbage).1 ++ actions, ?_⟩
  rw [greeting, List.append_assoc, run]
  rfl

/-- After nine characters the board does what the host asks for, whatever the
host before it has left behind: in the line, in the firmware, in the bus
registers, in `com`, in the memories and in a processor that may be running. -/
theorem greeting_recovers (long : Bool) {frames : List Frame}
    (unambiguous : Unambiguous false frames) (garbage : List Byte) (u : UserLogic)
    (cycles : Nat → BusCycle) (often : ∀ k, ∃ j, k ≤ j ∧ (cycles j).fires = true) :
    ∃ bytes, hostBytes long (frames.map Frame.command) = some bytes ∧
      ∀ stream, Transducer.Stuffed 0#8 (greeting ++ bytes) stream →
        ∃ k s, s = Sampled.run Session.step cycles (Session.meet (main (garbage ++ stream)).1 u) k ∧
          s.pending = (intended false frames).flatMap Action.accesses ∧
          ∃ l, ∀ j t, l ≤ j →
            t = Sampled.run Traced.step (fun n => cycles (k + n)) { session := s, trace := [] } j →
            t.session.pending = [] ∧ t.trace = (intended false frames).flatMap Action.events ∧
              Outcome s.contents s.returned (intended false frames) t.session.contents
                t.session.returned := by
  refine ⟨_, hostBytes_frames long frames, fun stream stuffed => ?_⟩
  have treated : Treated false frames :=
    (treated_prefixes_iff false frames).mpr unambiguous frames List.prefix_rfl
  have received : (Point.dispatch.run (frames.flatMap Frame.bytes)).2 = intended false frames :=
    congrArg Prod.snd treated
  obtain ⟨before, greeted⟩ := run_greeting garbage (frames.flatMap Frame.bytes)
  have served : (main (garbage ++ stream)).1 =
      before ++ .call (.readData 0x78) :: intended false frames := by
    rw [← received, ← greeted, main_eq_run, Point.run_append, Point.run_append]
    have same : (Point.dispatch.run garbage).1.run stream =
        (Point.dispatch.run garbage).1.run (greeting ++ frames.flatMap Frame.bytes) :=
      Transducer.run_stuffed _ Point.step_zero stuffed _
    rw [same]
  have bracketed : Bracketed false (intended false frames) :=
    (served ▸ main_bracketed (garbage ++ stream)).after_call
  obtain ⟨k, s, reached, pending, -, -, complete⟩ :=
    Session.resynchronises before (intended false frames) (.readData 0x78)
      (Session.meet (main (garbage ++ stream)).1 u) (congrArg (List.flatMap Action.accesses) served)
      bracketed often
  exact ⟨k, s, reached, pending, complete⟩

/-- A host that died in the middle of a frame, while the processor was running. -/
theorem greeting_recovers_running :
    let empty : Memory 32 8 := { mem := fun _ => 0, addressReg := 0 }
    let u : UserLogic :=
      { slvReg0 := cmdRun
        slvReg1 := 0
        slvReg2 := 0
        loader :=
          { com := { Com.afterReset with state := .run }
            mems := { imem := empty, dmem := empty } } }
    let cycle : BusCycle := { fires := true, proc := stubborn }
    ∃ bytes k l s t, hostBytes true [.d 0x07 0xFF00, .r 0x07] = some bytes ∧
      s = Sampled.run Session.step (fun _ => cycle)
        (Session.meet (main ([0x64#8, 0x73#8] ++ (greeting ++ bytes))).1 u) k ∧
      t = Sampled.run Traced.step (fun _ => cycle) { session := s, trace := [] } l ∧
      t.session.returned = s.returned ++ [0xFF00#32] := by
  intro empty u cycle
  have unambiguous : Unambiguous false
      [.request (.d 7#8 0xFF00#32), .request (.r 7#8)] := ⟨by simp, by simp, trivial⟩
  obtain ⟨bytes, sent, recovers⟩ := greeting_recovers true unambiguous [0x64#8, 0x73#8] u
    (fun _ => cycle) fun k => ⟨k, le_rfl, rfl⟩
  obtain ⟨k, s, reached, -, l, complete⟩ := recovers _ (.refl _ _)
  obtain ⟨-, -, -, returned⟩ := complete l _ le_rfl rfl
  refine ⟨bytes, k, l, s, _, sent, reached, rfl, returned.trans ?_⟩
  rw [List.append_assoc]
  rfl

end Tdt4255
