import Tdt4255.Serial.RoundTrip

/-! Invocations of `host.py` that ask for no write. -/

namespace Tdt4255

/-- Command `f`: every argument is written on its own, up to the first that
raises an error. There is no letter and no address. -/
def functionBytes (long : Bool) : List Int → List Byte
  | [] => []
  | x :: xarguments =>
    match encodeData long x with
    | none => []
    | some s => s ++ functionBytes long xarguments

inductive Invocation
  | r (addr : Int)
  | f (xarguments : List Word)

/-- What goes over the line, possibly nothing. -/
def Invocation.written (long : Bool) : Invocation → List Byte
  | .r addr => ((HostCommand.r addr).bytes long).getD []
  | .f xarguments => functionBytes long (xarguments.map fun w => (w.toNat : Int))

/-- From its dispatch loop back to it, `main` writes nothing and starts nothing. -/
structure ReadsOnly (bytes : List Byte) : Prop where
  noInstruction : ∀ address data, Action.call (.writeInstruction address data) ∉ (main bytes).1
  noData : ∀ address data, Action.call (.writeData address data) ∉ (main bytes).1
  noStart : Action.startCpu ∉ (main bytes).1
  returns : (main bytes).2 = .dispatch

def wordBytes (w : Word) : List Byte := [byteOf w 3, byteOf w 2, byteOf w 1, byteOf w 0]

/-- But for the byte behind each `r`, none is `i`, `d` or `s`, and no `r` that
counts is the last. -/
def Quiet (behindR : Bool) : List Byte → Prop
  | [] => behindR = false
  | b :: rest =>
    if behindR then Quiet false rest
    else (b ≠ hostCmdInstruction ∧ b ≠ hostCmdWriteData ∧ b ≠ hostCmdStartStopCpu) ∧
      Quiet (b = hostCmdReadData) rest

def Invocation.Quiet : Invocation → Prop
  | .r _ => True
  | .f xarguments => Tdt4255.Quiet false (xarguments.flatMap wordBytes)

theorem functionBytes_toNat (long : Bool) (xarguments : List Word) :
    functionBytes long (xarguments.map fun w => (w.toNat : Int)) =
      (xarguments.flatMap wordBytes).flatMap escape := by
  induction xarguments with
  | nil => rfl
  | cons w rest ih =>
    simp only [List.map_cons, functionBytes, encodeData_toNat, ih, List.flatMap_cons,
      List.flatMap_append, wordBytes, List.flatMap_nil, List.append_assoc, List.append_nil]

/-! Runs of the machine that read only. -/

def Action.Reads : Action → Prop
  | .call (.readData _) | .unknownCommand _ | .stopCpu => True
  | .call _ | .startCpu => False

def Tame (result : Point × List Action) : Prop :=
  result.1.waiting = .dispatch ∧ ∀ a ∈ result.2, a.Reads

theorem readsOnly_iff_tame (bytes : List Byte) :
    ReadsOnly bytes ↔ Tame (Point.dispatch.run bytes) := by
  have same := main_eq_run bytes
  constructor
  · intro only
    refine ⟨?_, fun a member => ?_⟩
    · simpa [same] using only.returns
    · have inMain : a ∈ (main bytes).1 := by rwa [same]
      rcases a with (⟨address, data⟩ | ⟨address, data⟩ | address) | _ | _ | curChar
      · exact only.noInstruction address data inMain
      · exact only.noData address data inMain
      · trivial
      · exact only.noStart inMain
      · trivial
      · trivial
  · rintro ⟨returns, reads⟩
    have inRun : ∀ a ∈ (main bytes).1, a.Reads := by rwa [same]
    exact ⟨fun _ _ member => inRun _ member, fun _ _ member => inRun _ member,
      fun member => inRun _ member, by rwa [same]⟩

theorem tame_append {p q : Point} {xs : List Byte} {actions : List Action}
    (front : p.run xs = (q, actions)) (ys : List Byte) :
    Tame (p.run (xs ++ ys)) ↔ (∀ a ∈ actions, a.Reads) ∧ Tame (q.run ys) := by
  rw [Point.run_append, front, Tame, Tame, List.forall_mem_append]
  tauto

def quietPoint (behindR : Bool) : Point := if behindR then .frame hostCmdReadData [] false else .dispatch

/-- A letter without a meaning is reported, also as the two bytes of an escape. -/
theorem run_escape_unknown {b : Byte} (instruction : b ≠ hostCmdInstruction)
    (write : b ≠ hostCmdWriteData) (read : b ≠ hostCmdReadData) (start : b ≠ hostCmdStartStopCpu) :
    ∃ actions : List Action, Point.dispatch.run (escape b) = (.dispatch, actions) ∧
      ∀ a ∈ actions, a.Reads := by
  by_cases zero : b = 0#8
  · subst zero
    exact ⟨[.unknownCommand 255#8, .unknownCommand 254#8], rfl, by simp [Action.Reads]⟩
  · by_cases full : b = 255#8
    · subst full
      exact ⟨[.unknownCommand 255#8, .unknownCommand 255#8], rfl, by simp [Action.Reads]⟩
    · refine ⟨[.unknownCommand b], ?_, by simp [Action.Reads]⟩
      rw [escape, if_neg zero, if_neg full, Point.run_cons, Point.step, if_neg zero,
        if_neg (by simp [instruction, write, read]), if_neg start]
      rfl

section Write

variable {letter : Byte} (write : letter = hostCmdInstruction ∨ letter = hostCmdWriteData)

include write

theorem dispatch_step_write : letter ≠ hostCmdReadData ∧
    Point.dispatch.step letter = (.frame letter [] false, []) := by
  rcases write with rfl | rfl
  · exact ⟨by decide, rfl⟩
  · exact ⟨by decide, rfl⟩

theorem run_write_short {rest : List Byte} (short : rest.length < 5) :
    Point.dispatch.run (letter :: rest.flatMap escape) =
      (.frame letter (rest.map (BitVec.setWidth 32)) false, []) := by
  obtain ⟨notRead, enters⟩ := dispatch_step_write write
  have collected : (Point.frame letter [] false).run (rest.flatMap escape) =
      (.frame letter ([] ++ rest.map (BitVec.setWidth 32)) false, []) := by
    refine Point.run_payload letter [] fun k bound => Point.frameCall_short notRead _ ?_
    rw [List.nil_append, List.length_map, List.length_take]
    omega
  rw [Point.run_cons, enters, collected]
  rfl

theorem run_write_complete (a c1 c2 c3 c4 : Byte) :
    ∃ c, ¬ (Action.call c).Reads ∧
      Point.dispatch.run (letter :: [a, c1, c2, c3, c4].flatMap escape) = (.dispatch, [.call c]) := by
  obtain ⟨notRead, enters⟩ := dispatch_step_write write
  have short : ∀ k < [a, c1, c2, c3].length,
      frameCall letter (([a, c1, c2, c3].take (k + 1)).map (BitVec.setWidth 32)) = none := by
    intro k bound
    refine Point.frameCall_short notRead _ ?_
    rw [List.length_map, List.length_take]
    exact (min_le_right _ _).trans_lt (by simp)
  rcases write with rfl | rfl
  · exact ⟨_, id, Point.run_complete [a, c1, c2, c3] enters short rfl⟩
  · exact ⟨_, id, Point.run_complete [a, c1, c2, c3] enters short rfl⟩

/-- Behind `i` or `d` there is either a write or a wait for more. -/
theorem write_not_tame (rest : List Byte) :
    ¬ Tame (Point.dispatch.run (letter :: rest.flatMap escape)) := by
  match rest with
  | a :: c1 :: c2 :: c3 :: c4 :: more =>
    obtain ⟨c, writes, frame⟩ := run_write_complete write a c1 c2 c3 c4
    have split : letter :: (a :: c1 :: c2 :: c3 :: c4 :: more).flatMap escape =
        letter :: [a, c1, c2, c3, c4].flatMap escape ++ more.flatMap escape := by
      simp
    rw [split, tame_append frame]
    exact fun tame => writes (tame.1 _ List.mem_cons_self)
  | [] | [_] | [_, _] | [_, _, _] | [_, _, _, _] =>
    rw [run_write_short write (by simp)]
    exact fun tame => absurd tame.1 (by simp [Point.waiting])

end Write

theorem tame_iff_quiet (behindR : Bool) (bytes : List Byte) :
    Tame ((quietPoint behindR).run (bytes.flatMap escape)) ↔ Quiet behindR bytes := by
  induction bytes generalizing behindR with
  | nil => cases behindR <;> simp [Quiet, quietPoint, Tame, Point.run_nil, Point.waiting]
  | cons b rest ih =>
    rw [List.flatMap_cons]
    cases behindR with
    | true =>
      have address : (quietPoint true).run (escape b) =
          (quietPoint false, [.call (.readData (b.setWidth 32))]) :=
        Point.run_escape hostCmdReadData [] b
      rw [tame_append address, ih]
      simp [Quiet, Action.Reads]
    | false =>
      by_cases instruction : b = hostCmdInstruction
      · subst instruction
        exact iff_of_false (write_not_tame (.inl rfl) rest) fun quiet => quiet.1.1 rfl
      by_cases write : b = hostCmdWriteData
      · subst write
        exact iff_of_false (write_not_tame (.inr rfl) rest) fun quiet => quiet.1.2.1 rfl
      by_cases start : b = hostCmdStartStopCpu
      · subst start
        have starts : (quietPoint false).run (escape hostCmdStartStopCpu) = (.running, [.startCpu]) := rfl
        rw [tame_append starts]
        exact iff_of_false (fun tame => tame.1 _ List.mem_cons_self) fun quiet => quiet.1.2.2 rfl
      by_cases read : b = hostCmdReadData
      · subst read
        have enters : (quietPoint false).run (escape hostCmdReadData) = (quietPoint true, []) := rfl
        rw [tame_append enters, ih]
        simp [Quiet, hostCmdReadData, hostCmdInstruction, hostCmdWriteData, hostCmdStartStopCpu]
      · obtain ⟨actions, reported, reads⟩ := run_escape_unknown instruction write read start
        have stays : (quietPoint false).run (escape b) = (quietPoint false, actions) := reported
        rw [tame_append stays, ih, and_iff_right reads]
        simp [Quiet, instruction, write, start, read]

/-- Reading commands and function words leave the memories alone precisely
when the words have no command letter in the wrong place. -/
theorem reads_only_iff (long : Bool) (invocation : Invocation) :
    ReadsOnly (invocation.written long) ↔ invocation.Quiet := by
  cases invocation with
  | r addr =>
    refine iff_of_true ((readsOnly_iff_tame _).mpr ?_) trivial
    cases written : escapeChr addr with
    | none => simp [Invocation.written, HostCommand.bytes, written, Tame, Point.run_nil, Point.waiting]
    | some address =>
      obtain ⟨b, rfl⟩ := exists_byte_of_escapeChr written
      have sent := Request.command_bytes long (.r b)
      have frame : (Invocation.r b.toNat).written long = (Request.r b).frame := by
        rw [Invocation.written]
        exact congrArg (Option.getD · []) sent
      rw [frame, Point.run_frame]
      exact ⟨rfl, by simp [Action.Reads, Request.call]⟩
  | f xarguments =>
    rw [Invocation.written, functionBytes_toNat, readsOnly_iff_tame]
    exact tame_iff_quiet false _

/-- The data bytes 64 01 02 03 04 05 of two function words are the frame of a
write to data memory. -/
theorem function_words_write :
    Action.call (.writeData 0x01#32 0x02030405#32) ∈
        (main ((Invocation.f [0x64010203#32, 0x04050000#32]).written true)).1 ∧
      ¬ ReadsOnly ((Invocation.f [0x64010203#32, 0x04050000#32]).written true) := by
  have bytes : (Invocation.f [0x64010203#32, 0x04050000#32]).written true =
      [0x64, 0x01, 0x02, 0x03, 0x04, 0x05, 0xFF, 0xFE, 0xFF, 0xFE] :=
    functionBytes_toNat true [0x64010203#32, 0x04050000#32]
  have written : Action.call (.writeData 0x01#32 0x02030405#32) ∈
      (main ((Invocation.f [0x64010203#32, 0x04050000#32]).written true)).1 := by
    rw [bytes]
    decide
  exact ⟨written, fun only => only.noData _ _ written⟩

end Tdt4255
