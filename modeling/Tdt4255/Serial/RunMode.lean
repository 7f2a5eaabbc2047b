import Tdt4255.Serial.RoundTrip

/-! Frames that arrive while the processor runs. -/

namespace Tdt4255

inductive Frame
  | request (q : Request)
  | startStop
  deriving DecidableEq, Repr

namespace Frame

def command : Frame → HostCommand
  | .request q => q.command
  | .startStop => .s

def bytes : Frame → List Byte
  | .request q => q.frame
  | .startStop => [hostCmdStartStopCpu]

theorem command_bytes (long : Bool) (f : Frame) : f.command.bytes long = some f.bytes := by
  cases f with
  | request q => exact q.command_bytes long
  | startStop => rfl

end Frame

/-- Only `s` starts or stops the processor. -/
def runState (running : Bool) : List Frame → Bool
  | [] => running
  | .request _ :: rest => runState running rest
  | .startStop :: rest => runState (!running) rest

/-- Requests are executed while it is stopped and ignored while it runs. -/
def intended (running : Bool) : List Frame → List Action
  | [] => []
  | .request q :: rest => (if running then [] else [.call q.call]) ++ intended running rest
  | .startStop :: rest => (if running then .stopCpu else .startCpu) :: intended (!running) rest

def waitingFor (running : Bool) : Waiting := if running then .running else .dispatch

/-- The firmware keeps to that after every frame. -/
def OnlySStops (frames : List Frame) : Prop :=
  ∀ delivered, delivered <+: frames →
    main (delivered.flatMap Frame.bytes) =
      (intended false delivered, waitingFor (runState false delivered))

/-- No address or data byte of a frame that arrives while the processor runs
is the letter `s`. -/
def Unambiguous (running : Bool) : List Frame → Prop
  | [] => True
  | .request q :: rest =>
    (running = true → hostCmdStartStopCpu ∉ q.payload) ∧ Unambiguous running rest
  | .startStop :: rest => Unambiguous (!running) rest

/-- The point at which `main` waits between two frames. -/
def betweenFrames (running : Bool) : Point := if running then .running else .dispatch

theorem waiting_eq_iff (p : Point) (running : Bool) :
    p.waiting = waitingFor running ↔ p = betweenFrames running := by
  cases running <;> cases p <;> simp [Point.waiting, waitingFor, betweenFrames]

theorem mem_escape_iff (b : Byte) :
    hostCmdStartStopCpu ∈ escape b ↔ hostCmdStartStopCpu = b := by
  unfold escape
  split_ifs with zero full
  · subst zero
    decide
  · subst full
    decide
  · simp

theorem mem_frame_iff (q : Request) :
    hostCmdStartStopCpu ∈ q.frame ↔ hostCmdStartStopCpu ∈ q.payload := by
  have letter : hostCmdStartStopCpu ≠ q.letter := by
    cases q <;> simp [Request.letter, hostCmdStartStopCpu, hostCmdInstruction, hostCmdWriteData,
      hostCmdReadData]
  simp [Request.frame, letter, mem_escape_iff]

theorem running_skips {bytes : List Byte} (none : hostCmdStartStopCpu ∉ bytes) :
    Point.running.run bytes = (.running, []) := by
  refine Transducer.run_of_ignored _ fun c member => ?_
  have other : c ≠ hostCmdStartStopCpu := fun same => none (same ▸ member)
  exact if_neg other

theorem running_stops {bytes : List Byte} (some : hostCmdStartStopCpu ∈ bytes) :
    (Point.running.run bytes).2 ≠ [] := by
  induction bytes with
  | nil => simp at some
  | cons c rest ih =>
    rw [Point.run_cons, Point.step]
    by_cases stop : c = hostCmdStartStopCpu
    · simp [stop]
    · have later : hostCmdStartStopCpu ∈ rest := by
        rcases List.mem_cons.mp some with same | later
        · exact absurd same.symm stop
        · exact later
      simpa [stop] using ih later

theorem run_frame_iff (running : Bool) (f : Frame) :
    (betweenFrames running).run f.bytes =
        (betweenFrames (runState running [f]), intended running [f]) ↔
      Unambiguous running [f] := by
  cases f with
  | startStop => cases running <;> simp [Unambiguous] <;> rfl
  | request q =>
    cases running with
    | false =>
      have executed := Point.run_frame q
      simp [Unambiguous, betweenFrames, runState, intended, Frame.bytes, executed]
    | true =>
      by_cases ambiguous : hostCmdStartStopCpu ∈ q.payload
      · have stops : (Point.running.run q.frame).2 ≠ [] :=
          running_stops ((mem_frame_iff q).mpr ambiguous)
        refine iff_of_false (fun ignored => stops (congrArg Prod.snd ignored)) ?_
        exact fun unambiguous => unambiguous.1 rfl ambiguous
      · have skips : Point.running.run q.frame = (.running, []) :=
          running_skips (mt (mem_frame_iff q).mp ambiguous)
        exact iff_of_true skips ⟨fun _ => ambiguous, trivial⟩

theorem runState_cons (running : Bool) (f : Frame) (rest : List Frame) :
    runState running (f :: rest) = runState (runState running [f]) rest := by
  cases f <;> rfl

theorem intended_cons (running : Bool) (f : Frame) (rest : List Frame) :
    intended running (f :: rest) =
      intended running [f] ++ intended (runState running [f]) rest := by
  cases f <;> simp [intended, runState]

theorem unambiguous_cons (running : Bool) (f : Frame) (rest : List Frame) :
    Unambiguous running (f :: rest) ↔
      Unambiguous running [f] ∧ Unambiguous (runState running [f]) rest := by
  cases f <;> simp [Unambiguous, runState]

def Treated (running : Bool) (frames : List Frame) : Prop :=
  (betweenFrames running).run (frames.flatMap Frame.bytes) =
    (betweenFrames (runState running frames), intended running frames)

theorem treated_nil (running : Bool) : Treated running [] := rfl

theorem treated_cons_iff {running : Bool} {f : Frame} (first : Treated running [f])
    (rest : List Frame) :
    Treated running (f :: rest) ↔ Treated (runState running [f]) rest := by
  unfold Treated at first ⊢
  rw [List.flatMap_singleton] at first
  rw [List.flatMap_cons, Point.run_append, first, runState_cons running f rest,
    intended_cons running f rest]
  simp [Prod.ext_iff]

theorem treated_prefixes_iff (running : Bool) (frames : List Frame) :
    (∀ delivered, delivered <+: frames → Treated running delivered) ↔
      Unambiguous running frames := by
  induction frames generalizing running with
  | nil => exact iff_of_true (by simp [treated_nil]) trivial
  | cons f rest ih =>
    have single : Treated running [f] ↔ Unambiguous running [f] := by
      rw [Treated, List.flatMap_singleton]
      exact run_frame_iff running f
    rw [unambiguous_cons, ← ih]
    constructor
    · intro all
      have first : Treated running [f] := all [f] (by simp)
      refine ⟨single.mp first, fun delivered earlier => ?_⟩
      exact (treated_cons_iff first delivered).mp (all _ ((List.prefix_cons_inj f).mpr earlier))
    · rintro ⟨unambiguous, later⟩ delivered earlier
      have first := single.mpr unambiguous
      rcases List.prefix_cons_iff.mp earlier with rfl | ⟨delivered', rfl, earlier'⟩
      · exact treated_nil running
      · exact (treated_cons_iff first _).mpr (later _ earlier')

theorem main_treated_iff (frames : List Frame) :
    main (frames.flatMap Frame.bytes) =
        (intended false frames, waitingFor (runState false frames)) ↔ Treated false frames := by
  rw [main_eq_run, Prod.mk.injEq, waiting_eq_iff, and_comm, Treated, Prod.ext_iff]
  rfl

/-- The firmware tells frames apart while the processor runs precisely when
none of them carries the letter `s`. -/
theorem only_s_stops_iff (frames : List Frame) :
    OnlySStops frames ↔ Unambiguous false frames := by
  rw [← treated_prefixes_iff, OnlySStops]
  exact forall₂_congr fun delivered _ => main_treated_iff delivered

/-- A word for data memory address 0x73, sent while the processor runs: it is
stopped, and the zero data bytes behind the address are taken for commands. -/
theorem data_byte_stops_processor :
    ¬ OnlySStops [.startStop, .request (.d 0x73#8 5#32)] := by
  intro all
  have both := all _ List.prefix_rfl
  revert both
  decide

end Tdt4255
