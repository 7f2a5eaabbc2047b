import Tdt4255.Driver.Firmware

/-! What the firmware makes of the bytes that the host writes. -/

namespace Tdt4255

/-- Commands whose address is a byte and whose data is a word. -/
inductive Request
  | i (addr : Byte) (data : Word)
  | d (addr : Byte) (data : Word)
  | r (addr : Byte)
  deriving DecidableEq, Repr

namespace Request

def command : Request → HostCommand
  | .i addr data => .i addr.toNat data.toNat
  | .d addr data => .d addr.toNat data.toNat
  | .r addr => .r addr.toNat

def call : Request → Call
  | .i addr data => .writeInstruction (addr.setWidth 32) data
  | .d addr data => .writeData (addr.setWidth 32) data
  | .r addr => .readData (addr.setWidth 32)

def letter : Request → Byte
  | .i .. => hostCmdInstruction
  | .d .. => hostCmdWriteData
  | .r _ => hostCmdReadData

/-- The bytes behind the letter, before they are escaped. -/
def payload : Request → List Byte
  | .i addr data => [addr, byteOf data 3, byteOf data 2, byteOf data 1, byteOf data 0]
  | .d addr data => [addr, byteOf data 3, byteOf data 2, byteOf data 1, byteOf data 0]
  | .r addr => [addr]

def frame (q : Request) : List Byte := q.letter :: q.payload.flatMap escape

theorem command_bytes (long : Bool) (q : Request) : q.command.bytes long = some q.frame := by
  cases q <;> simp [command, HostCommand.bytes, escapeChr_toNat, encodeData_toNat, frame, letter,
    payload]

theorem joinChars_byteOf (w : Word) :
    joinChars ((byteOf w 3).setWidth 32) ((byteOf w 2).setWidth 32) ((byteOf w 1).setWidth 32)
      ((byteOf w 0).setWidth 32) = w := by
  apply BitVec.eq_of_getLsbD_eq
  intro i bound
  simp only [joinChars, byteOf, BitVec.getLsbD_or, BitVec.getLsbD_shiftLeft, BitVec.getLsbD_setWidth,
    BitVec.getLsbD_extractLsb']
  grind

end Request

namespace Point

theorem run_escape (curChar : Byte) (received : List Word) (b : Byte) :
    (Point.frame curChar received false).run (escape b) =
      accept curChar received (b.setWidth 32) := by
  unfold escape
  by_cases zero : b = 0#8
  · subst zero
    simp [run_cons, run_nil, step]
  · by_cases full : b = 255#8
    · subst full
      simp [run_cons, run_nil, step]
    · simp [zero, full, run_cons, run_nil, step]

theorem run_payload (curChar : Byte) (received : List Word) {payload : List Byte}
    (more : ∀ k < payload.length, frameCall curChar
      (received ++ (payload.take (k + 1)).map (BitVec.setWidth 32)) = none) :
    (Point.frame curChar received false).run (payload.flatMap escape) =
      (Point.frame curChar (received ++ payload.map (BitVec.setWidth 32)) false, []) := by
  induction payload generalizing received with
  | nil => simp [run_nil]
  | cons b rest ih =>
    have first := more 0 (by simp)
    simp only [Nat.zero_add, List.take_succ_cons, List.take_zero, List.map_cons, List.map_nil] at first
    have later := ih (received ++ [b.setWidth 32]) fun k bound => by
      simpa using more (k + 1) (by simpa using bound)
    rw [List.flatMap_cons, run_append, run_escape, accept, first, later]
    simp

theorem run_complete {curChar : Byte} (init : List Byte) {last : Byte} {c : Call}
    (enters : dispatch.step curChar = (frame curChar [] false, []))
    (more : ∀ k < init.length, frameCall curChar
      ((init.take (k + 1)).map (BitVec.setWidth 32)) = none)
    (complete : frameCall curChar ((init ++ [last]).map (BitVec.setWidth 32)) = some c) :
    dispatch.run (curChar :: (init ++ [last]).flatMap escape) = (dispatch, [.call c]) := by
  have collected : (frame curChar [] false).run (init.flatMap escape) =
      (frame curChar ([] ++ init.map (BitVec.setWidth 32)) false, []) :=
    run_payload curChar [] (by simpa using more)
  rw [List.map_append, List.map_singleton] at complete
  rw [run_cons, enters, List.flatMap_append, run_append, collected, List.flatMap_singleton,
    run_escape, List.nil_append, accept, complete]
  rfl

theorem run_frame (q : Request) : dispatch.run q.frame = (dispatch, [.call q.call]) := by
  have short : ∀ curChar : Byte, curChar ≠ hostCmdReadData → ∀ init : List Byte,
      init.length = 4 → ∀ k < init.length,
        frameCall curChar ((init.take (k + 1)).map (BitVec.setWidth 32)) = none := by
    intro curChar write init four k bound
    refine frameCall_short write _ ?_
    rw [List.length_map, List.length_take]
    omega
  cases q with
  | i addr data =>
    refine run_complete [addr, byteOf data 3, byteOf data 2, byteOf data 1] rfl
      (short hostCmdInstruction (by decide) _ rfl) ?_
    exact congrArg (fun w => some (Call.writeInstruction _ w)) (Request.joinChars_byteOf data)
  | d addr data =>
    refine run_complete [addr, byteOf data 3, byteOf data 2, byteOf data 1] rfl
      (short hostCmdWriteData (by decide) _ rfl) ?_
    exact congrArg (fun w => some (Call.writeData _ w)) (Request.joinChars_byteOf data)
  | r addr => exact run_complete [] rfl (by simp) rfl

theorem run_frames (requests : List Request) :
    dispatch.run (requests.flatMap Request.frame) =
      (dispatch, requests.map fun q => .call q.call) := by
  induction requests with
  | nil => rfl
  | cons q rest ih => rw [List.flatMap_cons, run_append, run_frame, ih]; rfl

end Point

theorem hostBytes_commands (long : Bool) (requests : List Request) :
    hostBytes long (requests.map Request.command) = some (requests.flatMap Request.frame) := by
  have each : (requests.map Request.command).mapM (HostCommand.bytes long) =
      some (requests.map Request.frame) := by
    induction requests with
    | nil => rfl
    | cons q rest ih => simp [Request.command_bytes, ih]
  rw [hostBytes, each, Option.map_some, List.flatMap_def]

/-- Whatever the host asks for, the firmware performs, in order and with the
same values, through any number of zero bytes on the line; nothing else
happens and nothing is left over. -/
theorem serial_round_trip (long : Bool) (requests : List Request) :
    ∃ bytes, hostBytes long (requests.map Request.command) = some bytes ∧
      ∀ stream, Transducer.Stuffed 0#8 bytes stream →
        main stream = (requests.map fun q => .call q.call, .dispatch) := by
  refine ⟨_, hostBytes_commands long requests, fun stream stuffed => ?_⟩
  have same : Point.dispatch.run stream = Point.dispatch.run (requests.flatMap Request.frame) :=
    Transducer.run_stuffed _ Point.step_zero stuffed _
  rw [main_eq_run, same, Point.run_frames]
  rfl

/-- Data bytes that are command letters, a zero and an FF, and zeros on the
line. -/
theorem serial_round_trip_letters :
    main [0x00, 0x64, 0x69, 0x00, 0xFF, 0x00, 0x00, 0xFE, 0xFF, 0xFF, 0x73, 0x64, 0x00] =
      ([.call (.writeData 0x69#32 0x00FF7364#32)], .dispatch) := by
  obtain ⟨bytes, sent, received⟩ := serial_round_trip true [.d 0x69#8 0x00FF7364#32]
  have frame : bytes = [0x64, 0x69, 0xFF, 0xFE, 0xFF, 0xFF, 0x73, 0x64] :=
    Option.some.inj (sent.symm.trans (hostBytes_commands true _))
  subst frame
  refine received _ ?_
  exact .filler (.keep _ (.keep _ (.filler (.keep _ (.filler (.filler (.keep _ (.keep _ (.keep _
    (.keep _ (.keep _ (.filler .nil))))))))))))

end Tdt4255
