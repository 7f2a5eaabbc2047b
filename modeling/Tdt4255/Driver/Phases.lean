import Tdt4255.Driver.Protocol

/-! How far `com` may have come between the bus accesses of one call. -/

namespace Tdt4255

namespace Call

def address : Call → Word
  | .writeInstruction address _ => address
  | .writeData address _ => address
  | .readData address => address

def data : Call → Word
  | .writeInstruction _ data => data
  | .writeData _ data => data
  | .readData _ => 0

def command : Call → Word
  | .writeInstruction .. => cmdWi
  | .writeData .. => cmdWd
  | .readData _ => cmdRd

def busy : Call → ComState
  | .writeInstruction .. => .wi
  | .writeData .. => .wd
  | .readData _ => .rd1

def writes : Call → List MemoryWrite
  | .writeInstruction address data =>
    [{ bank := .imem, address := address.setWidth 8, value := data }]
  | .writeData address data => [{ bank := .dmem, address := address.setWidth 8, value := data }]
  | .readData _ => []

/-- The command stands in its register after so many accesses. -/
def held : Call → Nat → Bool
  | .readData _, i => i = 2 ∨ i = 3 ∨ i = 4
  | _, i => i = 3

end Call

/-- The progress of `com` through one call. It leaves `waiting` when it has
seen the command and `accepted` with the address and the data. -/
inductive Stage
  | rest
  | waiting
  | accepted
  | stored
  | addressed
  | latched
  | loaded
  | shown
  | finished
  deriving DecidableEq, Repr

namespace Stage

def next (c : Call) (held : Bool) : Stage → Stage
  | .rest => if held then .accepted else .waiting
  | .waiting => if held then .accepted else .waiting
  | .accepted =>
    match c with
    | .readData _ => .addressed
    | _ => .stored
  | .stored => if held then .stored else .finished
  | .addressed => .latched
  | .latched => .loaded
  | .loaded => if held then .shown else .finished
  | .shown => if held then .shown else .finished
  | .finished => .finished

def possible : Call → Nat → List Stage
  | .readData _, 0 => [.rest, .waiting]
  | .readData _, 1 => [.waiting]
  | .readData _, 2 => [.waiting, .accepted, .addressed, .latched, .loaded, .shown]
  | .readData _, 3 => [.shown]
  | .readData _, 4 => [.shown]
  | .readData _, 5 => [.shown, .finished]
  | .readData _, _ => [.finished]
  | _, 0 => [.rest, .waiting]
  | _, 1 => [.rest, .waiting]
  | _, 2 => [.rest, .waiting]
  | _, 3 => [.waiting, .accepted, .stored]
  | _, 4 => [.accepted, .stored, .finished]
  | _, 5 => [.stored, .finished]
  | _, _ => [.finished]

theorem possible_six (c : Call) : possible c 6 = [.finished] := by
  cases c <;> rfl

theorem next_possible (c : Call) {i : Nat} {stage : Stage} (allowed : stage ∈ possible c i) :
    stage.next c (c.held i) ∈ possible c i := by
  cases c <;> rcases i with _ | _ | _ | _ | _ | _ | i <;> fin_cases allowed <;>
    simp [next, Call.held, possible]

theorem registers_of_accepted {c : Call} {i : Nat} (allowed : .accepted ∈ possible c i) :
    0 < i ∧ i < 5 ∧ (c.writes ≠ [] → 1 < i) := by
  cases c <;> rcases i with _ | _ | _ | _ | _ | _ | i <;>
    simp [possible, Call.writes] at allowed ⊢

theorem not_held_of_finished {c : Call} {i : Nat} (allowed : .finished ∈ possible c i) :
    c.held i = false := by
  cases c <;> rcases i with _ | _ | _ | _ | _ | _ | i <;> simp [possible, Call.held] at allowed ⊢

def distance : Stage → Nat
  | .waiting => 5
  | .accepted => 4
  | .addressed => 3
  | .latched => 2
  | .loaded => 1
  | _ => 0

theorem distance_next {c : Call} {i : Nat} {stage : Stage} (allowed : stage ∈ possible c i)
    (waits : c.accesses[i]? = some .wait) :
    (stage.next c (c.held i)).distance = stage.distance - 1 ∧
      (stage ≠ .shown → 0 < stage.distance) := by
  cases c <;> rcases i with _ | _ | _ | _ | _ | _ | i <;>
    simp [Call.accesses, writeData, readData] at waits
  fin_cases allowed <;> simp [next, Call.held, distance]

/-- Only `wait` holds the driver back, until the word is shown. -/
theorem next_possible_succ (c : Call) {i : Nat} {stage : Stage} (allowed : stage ∈ possible c i)
    (ready : c.accesses[i]? = some .wait → stage = .shown) :
    stage.next c (c.held i) ∈ possible c (i + 1) := by
  cases c <;> rcases i with _ | _ | _ | _ | _ | _ | i <;> fin_cases allowed <;>
    simp [next, Call.held, possible, Call.accesses, readData] at ready ⊢

end Stage

namespace Session

/-- The signals that witness a stage, with the stores decided before the call
and the word it is to read. -/
def AtStage (c : Call) (before : List MemoryWrite) (value : Word) (s : Session) : Stage → Prop
  | .rest => s.com.state = .idle ∧ s.committed = before
  | .waiting => s.com.state = .idle ∧ s.committed = before ∧ s.com.status ≠ statusDone
  | .accepted => s.com.state = c.busy ∧ s.committed = before ∧ s.com.status ≠ statusDone
  | .stored => s.com.state = .done ∧ s.committed = before ++ c.writes
  | .addressed =>
    s.com.state = .rd2 ∧ s.committed = before ++ c.writes ∧ s.com.status ≠ statusDone ∧
      s.com.out.readAddr = c.address
  | .latched =>
    s.com.state = .rd3 ∧ s.committed = before ++ c.writes ∧ s.com.status ≠ statusDone ∧
      s.logic.loader.mems.dmem.addressReg = c.address
  | .loaded =>
    s.com.state = .done ∧ s.committed = before ++ c.writes ∧ s.com.status ≠ statusDone ∧
      s.com.internalDataOut = value
  | .shown =>
    s.com.state = .done ∧ s.committed = before ++ c.writes ∧ s.com.status = statusDone ∧
      s.com.internalDataOut = value ∧ s.com.busDataOut = value
  | .finished => s.com.state = .idle ∧ s.committed = before ++ c.writes

variable {c : Call} {before : List MemoryWrite} {start : Contents} {s : Session} {cycle : BusCycle}

theorem AtStage.notRun {value : Word} {stage : Stage} (at_stage : s.AtStage c before value stage) :
    s.com.state ≠ .run := by
  cases stage <;> rw [at_stage.1] <;> first | decide | (cases c <;> simp [Call.busy])

/-- While the driver waits, only a shown word raises the status. -/
theorem AtStage.shown_of_done {value : Word} {stage : Stage} {i : Nat}
    (at_stage : s.AtStage c before value stage) (allowed : stage ∈ Stage.possible c i)
    (waits : c.accesses[i]? = some .wait) (done : s.com.status = statusDone) : stage = .shown := by
  have member : stage ∈ [Stage.waiting, .accepted, .addressed, .latched, .loaded, .shown] := by
    cases c <;> rcases i with _ | _ | _ | _ | _ | _ | i <;>
      simp [Call.accesses, writeData, readData] at waits
    exact allowed
  fin_cases member <;> simp [AtStage, done] at at_stage ⊢

def waitDistance (c : Com) : Nat :=
  match c.state with
  | .idle => 5
  | .rd1 => 4
  | .rd2 => 3
  | .rd3 => 2
  | .done => if c.status = statusDone then 0 else 1
  | _ => 0

theorem waitDistance_le (c : Com) : waitDistance c ≤ 5 := by
  unfold waitDistance
  split <;> (try split_ifs) <;> omega

theorem AtStage.waitDistance {value : Word} {stage : Stage} {i : Nat}
    (at_stage : s.AtStage c before value stage) (allowed : stage ∈ Stage.possible c i)
    (waits : c.accesses[i]? = some .wait) : waitDistance s.com = stage.distance := by
  cases c <;> rcases i with _ | _ | _ | _ | _ | _ | i <;>
    simp [Call.accesses, writeData, readData] at waits
  fin_cases allowed <;>
    simp_all [AtStage, Session.waitDistance, Stage.distance, Call.busy]

def found (start : Contents) (before : List MemoryWrite) (c : Call) : Word :=
  (before ++ c.writes).foldl MemoryWrite.apply start .dmem (c.address.setWidth 8)

theorem next_command (c : Call) : ComState.next c.command .idle = c.busy := by
  cases c <;> rfl

theorem next_command_done (c : Call) : ComState.next c.command .done = .done := by
  cases c <;> rfl

theorem next_none_idle : ComState.next cmdNone .idle = .idle := by decide

theorem step_idle {held : Bool} {value : Word} (sound : s.Sound start)
    (idle : s.com.state = .idle) (kept : s.committed = before)
    (r0 : s.logic.slvReg0 = if held then c.command else cmdNone) :
    (s.step cycle).AtStage c before value (if held then .accepted else .waiting) := by
  have state := step_state cycle s
  have committed := step_committed cycle sound.stopped
  have fresh : (s.step cycle).com.status ≠ statusDone := by simp [step_status, idle]
  simp only [idle, ComState.stores, List.append_nil, kept] at committed
  rw [idle, r0] at state
  cases held with
  | false => exact ⟨state, committed, fresh⟩
  | true => exact ⟨state.trans (next_command c), committed, fresh⟩

theorem step_loaded {held : Bool} {value : Word} (sound : s.Sound start)
    (done : s.com.state = .done) (kept : s.committed = before ++ c.writes)
    (loaded : s.com.internalDataOut = value)
    (r0 : s.logic.slvReg0 = if held then c.command else cmdNone) :
    (s.step cycle).AtStage c before value (if held then .shown else .finished) := by
  have state := step_state cycle s
  have committed := step_committed cycle sound.stopped
  simp only [done, ComState.stores, List.append_nil, kept] at committed
  rw [done, r0] at state
  have data := Com.risingEdge_done s.logic.slvReg0 s.logic.slvReg1 s.logic.slvReg2
    s.logic.loader.mems.dmem.readData s.com done
  rw [← step_com cycle, loaded] at data
  cases held with
  | false => exact ⟨state, committed⟩
  | true =>
    exact ⟨state.trans (next_command_done c), committed, (step_status cycle s).mpr done, data⟩

/-- One cycle of `com` from a known stage. -/
theorem AtStage.step {stage : Stage} {held : Bool} (sound : s.Sound start)
    (at_stage : s.AtStage c before (found start before c) stage)
    (r0 : s.logic.slvReg0 = if held then c.command else cmdNone)
    (r1 : stage = .accepted → s.logic.slvReg1 = c.address)
    (r2 : stage = .accepted → c.writes ≠ [] → s.logic.slvReg2 = c.data)
    (ends : stage = .finished → held = false) :
    (s.step cycle).AtStage c before (found start before c) (stage.next c held) := by
  have state := step_state cycle s
  have status := step_status cycle s
  have committed := step_committed cycle sound.stopped
  cases stage with
  | rest => exact step_idle sound at_stage.1 at_stage.2 r0
  | waiting => exact step_idle sound at_stage.1 at_stage.2.1 r0
  | accepted =>
    obtain ⟨busy, kept, -⟩ := at_stage
    rw [busy, kept, r1 rfl] at committed
    rw [busy] at state
    cases c with
    | writeInstruction a d =>
      rw [r2 rfl (by simp [Call.writes])] at committed
      exact ⟨state, committed⟩
    | writeData a d =>
      rw [r2 rfl (by simp [Call.writes])] at committed
      exact ⟨state, committed⟩
    | readData a =>
      refine ⟨state, committed, by simp [status, busy, Call.busy], ?_⟩
      rw [step_com, Com.risingEdge_readAddr _ _ _ _ _ busy, r1 rfl]
  | stored =>
    obtain ⟨done, kept⟩ := at_stage
    simp only [done, ComState.stores, List.append_nil, kept] at committed
    rw [done, r0] at state
    cases held with
    | false => exact ⟨state, committed⟩
    | true => exact ⟨state.trans (next_command_done c), committed⟩
  | addressed =>
    obtain ⟨rd2, kept, -, address⟩ := at_stage
    simp only [rd2, ComState.stores, List.append_nil, kept] at committed
    rw [rd2] at state
    refine ⟨state, committed, by simp [status, rd2], ?_⟩
    rw [step_addressReg sound.stopped, address]
  | latched =>
    obtain ⟨rd3, kept, -, address⟩ := at_stage
    simp only [rd3, ComState.stores, List.append_nil, kept] at committed
    rw [rd3] at state
    refine ⟨state, committed, by simp [status, rd3], ?_⟩
    have log := sound.committed_eq_log (by rw [rd3]; decide)
    have cell : s.logic.loader.mems.dmem.mem = _ := congrFun sound.contents .dmem
    rw [step_com, Com.risingEdge_internalDataOut _ _ _ _ _ rd3, Memory.readData, cell, address,
      ← log, kept, found]
  | loaded =>
    obtain ⟨done, kept, -, value⟩ := at_stage
    exact step_loaded sound done kept value r0
  | shown =>
    obtain ⟨done, kept, -, value, -⟩ := at_stage
    exact step_loaded sound done kept value r0
  | finished =>
    obtain ⟨idle, kept⟩ := at_stage
    simp only [idle, ComState.stores, List.append_nil, kept] at committed
    rw [idle, r0, ends rfl] at state
    exact ⟨state, committed⟩

end Session

end Tdt4255
