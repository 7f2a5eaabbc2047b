import Tdt4255.Hardware.Boundary
import Tdt4255.Driver.Reads
import Tdt4255.Serial.RunMode

/-! The whole system: the host's bytes, the firmware, the bus, and the design
with its own processor. -/

namespace Tdt4255

/-- `user_logic` around the whole of `toplevel`, and the driver. -/
structure Board where
  pending : List Access
  returned : List Word
  slvReg0 : Word
  slvReg1 : Word
  slvReg2 : Word
  toplevel : Toplevel

namespace Board

/-- The part of it that the processor is outside of. -/
def session (b : Board) : Session where
  pending := b.pending
  returned := b.returned
  logic :=
    { slvReg0 := b.slvReg0
      slvReg1 := b.slvReg1
      slvReg2 := b.slvReg2
      loader := b.toplevel.loader }
  log := []

def busIn (b : Board) : BusIn where
  command := b.slvReg0
  busAddressIn := b.slvReg1
  busDataIn := b.slvReg2

/-- What the processor drives when the memories take it over. -/
def cycle (reading : Reading) (fires : Bool) (b : Board) : BusCycle where
  fires := fires
  proc := (b.toplevel.machine.fallingEdge reading false).out

def step (reading : Reading) (fires : Bool) (b : Board) : Board :=
  let next := b.session.step (b.cycle reading fires)
  { pending := next.pending
    returned := next.returned
    slvReg0 := next.logic.slvReg0
    slvReg1 := next.logic.slvReg1
    slvReg2 := next.logic.slvReg2
    toplevel := b.toplevel.period reading false b.busIn }

def contents (b : Board) : Contents := b.toplevel.machine.mems.contents

theorem step_session (reading : Reading) (fires : Bool) (b : Board) :
    (b.step reading fires).session = { b.session.step (b.cycle reading fires) with log := [] } := by
  have loader := Toplevel.period_loader reading false b.busIn b.toplevel
  simp only [session, step, loader]
  rfl

/-- The session shows what the board does. -/
def Shown (b : Board) (t : Traced) : Prop := Session.Framed [] [] b.session t.session

/-- The board is a session with one particular processor. -/
theorem Shown.step {reading : Reading} {fires : Bool} {b : Board} {t : Traced} (shown : b.Shown t) :
    (b.step reading fires).Shown (t.step (b.cycle reading fires)) := by
  have next := Session.Framed.step (b.cycle reading fires) shown fun _ more => absurd rfl more
  rw [Shown, step_session]
  exact ⟨next.logic, next.pending, next.returned⟩

theorem Shown.contents {b : Board} {t : Traced} (shown : b.Shown t) :
    t.session.contents = b.contents := by
  rw [Session.contents, shown.logic]
  rfl

/-- The driver is about to do what `main` makes of its input. -/
def begin (actions : List Action) (t : Toplevel) : Board where
  pending := actions.flatMap Action.accesses
  returned := []
  slvReg0 := 0
  slvReg1 := 0
  slvReg2 := 0
  toplevel := t

variable (reading : Reading) (fires : Nat → Bool)

def run (b : Board) : Nat → Board := Sampled.run (step reading) fires b

end Board

/-- Every access comes in the end. -/
def Fair (fires : Nat → Bool) : Prop := ∀ k, ∃ j, k ≤ j ∧ fires j = true

/-- Eventually, and from then on. -/
def Eventually (p : Nat → Prop) : Prop := ∃ k, ∀ j, k ≤ j → p j

namespace Board

/-- What the processor of the board drives along its run. -/
def cycles (reading : Reading) (fires : Nat → Bool) (b : Board) (j : Nat) : BusCycle :=
  cycle reading (fires j) (b.run reading fires j)

theorem shown_run (reading : Reading) (fires : Nat → Bool) (actions : List Action) {t : Toplevel}
    (reset : t.com = .afterReset) (k : Nat) :
    ((begin actions t).run reading fires k).Shown
      (Sampled.run Traced.step ((begin actions t).cycles reading fires)
        (Traced.begin actions t.machine.mems) k) := by
  have start : (begin actions t).Shown (Traced.begin actions t.machine.mems) := by
    refine ⟨?_, (List.append_nil _).symm, rfl⟩
    simp [session, begin, Traced.begin, UserLogic.afterReset, Toplevel.loader, reset]
  exact Sampled.run_simulated (step reading) (cycle reading) (fun _ _ _ => Shown.step) fires start k

variable (reading : Reading) {fires : Nat → Bool} {actions : List Action} {t : Toplevel}

theorem outcome (fair : Fair fires) (bracketed : Bracketed false actions)
    (reset : t.com = .afterReset) :
    Eventually fun k =>
      ((begin actions t).run reading fires k).pending = [] ∧
        Outcome t.machine.mems.contents [] actions ((begin actions t).run reading fires k).contents
          ((begin actions t).run reading fires k).returned := by
  have shown := shown_run reading fires actions reset
  have often : ∀ k, ∃ j, k ≤ j ∧ ((begin actions t).cycles reading fires j).fires = true := fair
  obtain ⟨-, k, served⟩ := bracketed.served t.machine.mems often
  refine ⟨k, fun j later => ?_⟩
  obtain ⟨through, -, outcome⟩ := served j _ later rfl
  rw [(shown j).contents, (shown j).returned] at outcome
  rw [(shown j).pending, List.append_nil] at through
  exact ⟨through, outcome⟩

/-- At every step, not only in the end. -/
theorem readsNext (fires : Nat → Bool) (bracketed : Bracketed false actions)
    (reset : t.com = .afterReset) (k : Nat) :
    ReadsNext (actions.filterMap Action.read?) ((begin actions t).run reading fires k).contents
      ((begin actions t).run reading fires k).returned
      ((begin actions t).run reading fires (k + 1)).returned := by
  have shown := shown_run reading fires actions reset
  have phase := Sampled.run_invariant Traced.step (fun cycle _ phase => Phase.step cycle phase)
    ((begin actions t).cycles reading fires) (bracketed.begins t.machine.mems) k
  have next := phase.readsNext ((begin actions t).cycles reading fires k)
  have after := (shown (k + 1)).returned
  rw [Sampled.run_succ, Traced.step_session, List.nil_append] at after
  rwa [after, (shown k).contents, (shown k).returned, filterMap_known, List.nil_append] at next

end Board

theorem Outcome.of_calls {m m' : Contents} {returned returned' : List Word} {calls : List Call}
    (outcome : Outcome m returned (calls.map Action.call) m' returned') :
    m' = perform m calls ∧ returned' = returned ++ results m calls := by
  induction calls generalizing m returned with
  | nil => exact ⟨outcome.1, outcome.2.trans (List.append_nil _).symm⟩
  | cons c rest ih =>
    obtain ⟨contents, words⟩ := ih outcome
    exact ⟨contents, by rw [words, results, List.append_assoc]⟩

theorem bracketed_calls (calls : List Call) : Bracketed false (calls.map Action.call) := by
  induction calls with
  | nil => trivial
  | cons c rest ih => exact ih

/-- What the host asks for is what the memories of the design hold in the end,
and what the driver has read: through zeros on the line, over any spacing of
the bus accesses, with any processor running beside, whatever state it and the
memories are in. -/
theorem requests_reach_memory (long : Bool) (requests : List Request) (reading : Reading)
    {fires : Nat → Bool} (fair : Fair fires) {t : Toplevel} (reset : t.com = .afterReset) :
    ∃ bytes, hostBytes long (requests.map Request.command) = some bytes ∧
      ∀ stream, Transducer.Stuffed 0#8 bytes stream → Eventually fun k =>
        ((Board.begin (main stream).1 t).run reading fires k).pending = [] ∧
          ((Board.begin (main stream).1 t).run reading fires k).contents =
            perform t.machine.mems.contents (requests.map Request.call) ∧
          ((Board.begin (main stream).1 t).run reading fires k).returned =
            results t.machine.mems.contents (requests.map Request.call) := by
  refine ⟨_, hostBytes_commands long requests, fun stream stuffed => ?_⟩
  have received : (main stream).1 = (requests.map Request.call).map Action.call := by
    rw [main_eq_run]
    change (Transducer.run Point.step .dispatch stream).2 = _
    rw [Transducer.run_stuffed _ Point.step_zero stuffed]
    exact (congrArg Prod.snd (Point.run_frames requests)).trans (by simp)
  rw [received]
  obtain ⟨k, served⟩ := Board.outcome reading fair (bracketed_calls _) reset
  exact ⟨k, fun j later => ⟨(served j later).1, (served j later).2.of_calls⟩⟩

def blank : Toplevel where
  com := .afterReset
  machine := Machine.atBoundary (fun _ => 0) (fun _ => 0) (fun _ => 0) 0

theorem always_fair : Fair fun _ => true := fun k => ⟨k, le_rfl, rfl⟩

theorem requests_reach_memory_echo :
    ∃ bytes, hostBytes true [.d 0x07 0xFF00, .r 0x07] = some bytes ∧ Eventually fun k =>
      ((Board.begin (main bytes).1 blank).run .eventDriven (fun _ => true) k).returned =
        [0xFF00#32] := by
  obtain ⟨bytes, sent, reached⟩ :=
    requests_reach_memory true [.d 0x07#8 0xFF00#32, .r 0x07#8] .eventDriven always_fair
      (t := blank) rfl
  obtain ⟨k, ends⟩ := reached bytes (.refl _ _)
  exact ⟨bytes, sent, k, fun j later => (ends j later).2.2⟩

/-! Requests with programs run between them. -/

def Action.call? : Action → Option Call
  | .call c => some c
  | _ => none

theorem Call.perform_imem (c : Call) {m m' : Contents} (same : m .imem = m' .imem) :
    c.perform m .imem = c.perform m' .imem := by
  funext a
  cases c <;> simp [Call.perform, Call.writes, MemoryWrite.apply, same]

theorem perform_imem (calls : List Call) {m m' : Contents} (same : m .imem = m' .imem) :
    perform m calls .imem = perform m' calls .imem := by
  induction calls generalizing m m' with
  | nil => exact same
  | cons c rest ih => exact ih (c.perform_imem same)

theorem stores_imem {stores : List MemoryWrite} (data : ∀ w ∈ stores, w.bank = .dmem) (m : Contents) :
    stores.foldl MemoryWrite.apply m .imem = m .imem := by
  induction stores generalizing m with
  | nil => rfl
  | cons w rest ih =>
    rw [List.foldl_cons, ih fun v member => data v (List.mem_cons_of_mem _ member)]
    funext a
    simp [MemoryWrite.apply, data w List.mem_cons_self]

theorem Outcome.imem {m m' : Contents} {returned returned' : List Word} {actions : List Action}
    (outcome : Outcome m returned actions m' returned') :
    m' .imem = perform m (actions.filterMap Action.call?) .imem := by
  induction actions generalizing m returned with
  | nil => exact congrFun outcome.1 _
  | cons a rest ih =>
    cases a with
    | call c => exact ih (m := c.perform m) outcome
    | startCpu =>
      obtain ⟨stores, data, outcome⟩ := outcome
      exact (ih outcome).trans (perform_imem _ (stores_imem data m))
    | stopCpu => exact ih (m := m) outcome
    | unknownCommand b => exact ih (m := m) outcome

theorem hostBytes_frames (long : Bool) (frames : List Frame) :
    hostBytes long (frames.map Frame.command) = some (frames.flatMap Frame.bytes) := by
  have each : (frames.map Frame.command).mapM (HostCommand.bytes long) =
      some (frames.map Frame.bytes) := by
    induction frames with
    | nil => rfl
    | cons f rest ih => simp [Frame.command_bytes, ih]
  rw [hostBytes, each, Option.map_some, List.flatMap_def]

/-- No program changes the program: whatever is loaded and run, instruction
memory ends as the instructions sent while the processor stood still have left
it. The reads are answered one after the other, each with the word that data
memory holds at its address in the cycle that returns it. -/
theorem programs_keep_code (long : Bool) {frames : List Frame}
    (unambiguous : Unambiguous false frames) (reading : Reading)
    {fires : Nat → Bool} (fair : Fair fires) {t : Toplevel} (reset : t.com = .afterReset) :
    ∃ bytes, hostBytes long (frames.map Frame.command) = some bytes ∧
      ∀ stream, Transducer.Stuffed 0#8 bytes stream →
        (∀ k, ReadsNext ((intended false frames).filterMap Action.read?)
          ((Board.begin (main stream).1 t).run reading fires k).contents
          ((Board.begin (main stream).1 t).run reading fires k).returned
          ((Board.begin (main stream).1 t).run reading fires (k + 1)).returned) ∧
        Eventually fun k =>
          ((Board.begin (main stream).1 t).run reading fires k).pending = [] ∧
            ((Board.begin (main stream).1 t).run reading fires k).contents .imem =
              perform t.machine.mems.contents
                ((intended false frames).filterMap Action.call?) .imem ∧
            Outcome t.machine.mems.contents [] (intended false frames)
              ((Board.begin (main stream).1 t).run reading fires k).contents
              ((Board.begin (main stream).1 t).run reading fires k).returned := by
  refine ⟨_, hostBytes_frames long frames, fun stream stuffed => ?_⟩
  have treated : Treated false frames :=
    (treated_prefixes_iff false frames).mpr unambiguous frames List.prefix_rfl
  have received : (main stream).1 = intended false frames := by
    rw [main_eq_run]
    change (Transducer.run Point.step .dispatch stream).2 = _
    rw [Transducer.run_stuffed _ Point.step_zero stuffed]
    exact congrArg Prod.snd treated
  have bracketed := main_bracketed stream
  rw [received] at bracketed ⊢
  obtain ⟨k, served⟩ := Board.outcome reading fair bracketed reset
  exact ⟨Board.readsNext reading fires bracketed reset,
    k, fun j later => ⟨(served j later).1, (served j later).2.imem, (served j later).2⟩⟩

theorem programs_keep_code_between :
    ∃ bytes, hostBytes true [.s, .s, .i 0x03 0x08000003] = some bytes ∧ Eventually fun k =>
      ((Board.begin (main bytes).1 blank).run .eventDriven (fun _ => true) k).contents .imem 3#8 =
        0x08000003#32 := by
  have unambiguous : Unambiguous false
      [.startStop, .startStop, .request (.i 3#8 0x08000003#32)] := ⟨by decide, trivial⟩
  obtain ⟨bytes, sent, reached⟩ :=
    programs_keep_code true unambiguous .eventDriven always_fair (t := blank) rfl
  obtain ⟨-, k, ends⟩ := reached bytes (.refl _ _)
  exact ⟨bytes, sent, k, fun j later => (congrFun (ends j later).2.1 _).trans rfl⟩

end Tdt4255
