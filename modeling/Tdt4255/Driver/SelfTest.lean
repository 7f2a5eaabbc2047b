import Tdt4255.Driver.Resync

/-! `MIPS_SelfTest`, generated for a peripheral whose registers can be read
back, on the peripheral there is. -/

namespace Tdt4255

inductive XStatus
  | success
  | failure
  deriving DecidableEq, Repr

/-- Where the self-test is: about to write or to read back the register at
`offset`, with `rest` still to be tested, or through. -/
inductive SelfTest
  | write (offset : Nat) (value : Word) (rest : List (Nat × Word))
  | read (offset : Nat) (value : Word) (rest : List (Nat × Word))
  | returned (status : XStatus)
  deriving DecidableEq, Repr

namespace SelfTest

def next : List (Nat × Word) → SelfTest
  | [] => returned .success
  | (offset, value) :: rest => write offset value rest

def access : SelfTest → Option Access
  | write offset value _ => some (.writeReg offset value)
  | read offset _ _ => some (.readReg offset)
  | returned _ => none

/-- What follows on an access that has brought `reg32Value`. -/
def after (reg32Value : Word) : SelfTest → SelfTest
  | write offset value rest => read offset value rest
  | read _ value rest => if reg32Value ≠ value then returned .failure else next rest
  | returned status => returned status

end SelfTest

def mipsSelfTest : SelfTest := .next [(0, 1), (4, 2), (8, 3), (12, 4), (16, 5)]

/-- The self-test at work. -/
structure Tested where
  test : SelfTest
  logic : UserLogic
  trace : List PortEvent

namespace Tested

def current (cycle : BusCycle) (s : Tested) : Option Access :=
  if cycle.fires = true then s.test.access else none

def bus (cycle : BusCycle) (s : Tested) : Bus2Ip :=
  match s.current cycle with
  | some a => a.bus
  | none => .idle

def step (cycle : BusCycle) (s : Tested) : Tested :=
  let logic := s.logic.risingEdge false (s.bus cycle) cycle.proc
  { test :=
      match s.current cycle with
      | some _ => s.test.after (s.logic.ip2BusData (s.bus cycle))
      | none => s.test
    logic := logic
    trace := s.trace ++ portEvents s.logic.loader.com.out logic.loader.com.out }

def begin (u : UserLogic) : Tested := { test := mipsSelfTest, logic := u, trace := [] }

def com (s : Tested) : Com := s.logic.loader.com

def contents (s : Tested) : Contents := s.logic.loader.mems.contents

/-- What is left when the first register has been written. -/
def reading : SelfTest := .read 0 1 [(4, 2), (8, 3), (12, 4), (16, 5)]

/-- The two registers that the first test does not touch. -/
def operands (s : Tested) : Word × Word := (s.logic.slvReg1, s.logic.slvReg2)

variable {cycle : BusCycle} {s : Tested}

theorem step_waits (waits : s.current cycle = none) :
    (s.step cycle).test = s.test ∧ (s.step cycle).logic.slvReg0 = s.logic.slvReg0 ∧
      (s.step cycle).operands = s.operands := by
  simp [step, bus, waits, operands, UserLogic.risingEdge, Bus2Ip.idle]

/-- `SLAVE_REG_READ_PROC` does not know the registers that the driver writes. -/
theorem step_reads (reads : s.test = reading) (fires : cycle.fires = true) :
    (s.step cycle).test = .returned .failure ∧
      (s.step cycle).logic.slvReg0 = s.logic.slvReg0 ∧ (s.step cycle).operands = s.operands := by
  have now : s.current cycle = some (.readReg 0) := by
    rw [current, if_pos fires, reads]
    rfl
  refine ⟨?_, ?_, ?_⟩
  · simp only [step, now, reads, bus]
    rfl
  · simp [step, bus, now, UserLogic.risingEdge, Access.bus]
  · simp [step, bus, now, operands, UserLogic.risingEdge, Access.bus]

theorem step_writes (writes : s.test = mipsSelfTest) (fires : cycle.fires = true) :
    (s.step cycle).test = reading ∧ (s.step cycle).logic.slvReg0 = cmdWi ∧
      (s.step cycle).operands = s.operands := by
  have now : s.current cycle = some (.writeReg 0 1) := by
    rw [current, if_pos fires, writes]
    rfl
  refine ⟨?_, ?_, ?_⟩
  · simp only [step, now, writes]
    rfl
  · simp [step, bus, now, UserLogic.risingEdge, Access.bus, chipEnable, mergeBytes_all, cmdWi]
  · simp [step, bus, now, operands, UserLogic.risingEdge, Access.bus, chipEnable]

theorem step_failed (cycle : BusCycle) (failed : s.test = .returned .failure) :
    (s.step cycle).test = .returned .failure ∧ (s.step cycle).logic.slvReg0 = s.logic.slvReg0 ∧
      (s.step cycle).operands = s.operands := by
  have now : s.current cycle = none := by
    rw [current, failed]
    exact ite_self none
  obtain ⟨waits, kept, same⟩ := step_waits now
  exact ⟨waits.trans failed, kept, same⟩

/-- The only way that the self-test can go. -/
def Failing (t : SelfTest) : Prop := t = mipsSelfTest ∨ t = reading ∨ t = .returned .failure

def testRank : SelfTest → Nat
  | .write .. => 2
  | .read .. => 1
  | .returned _ => 0

theorem Failing.step (cycle : BusCycle) (failing : Failing s.test) :
    Failing (s.step cycle).test ∧ testRank (s.step cycle).test ≤ testRank s.test ∧
      (cycle.fires = true → s.test ≠ .returned .failure →
        testRank (s.step cycle).test < testRank s.test) := by
  by_cases fires : cycle.fires = true
  · rcases failing with writes | reads | failed
    · rw [(step_writes writes fires).1, writes]
      exact ⟨Or.inr (Or.inl rfl), by decide, fun _ _ => by decide⟩
    · rw [(step_reads reads fires).1, reads]
      exact ⟨Or.inr (Or.inr rfl), by decide, fun _ _ => by decide⟩
    · rw [(step_failed cycle failed).1, failed]
      exact ⟨Or.inr (Or.inr rfl), le_rfl, fun _ unfinished => absurd rfl unfinished⟩
  · rw [(step_waits (if_neg fires)).1]
    exact ⟨failing, le_rfl, fun impossible => absurd impossible fires⟩

theorem step_com (cycle : BusCycle) (s : Tested) :
    (s.step cycle).com =
      s.com.risingEdge false s.logic.slvReg0 s.logic.slvReg1 s.logic.slvReg2
        s.logic.loader.mems.dmem.readData := rfl

theorem step_contents (cycle : BusCycle) (s : Tested) :
    (s.step cycle).contents = (memoryWrites s.com.out cycle.proc).foldl MemoryWrite.apply s.contents :=
  Memories.contents_risingEdge _ _ _

/-- `com` is `n` cycles from having stored `w`. -/
structure Obeying (start : Contents) (w : MemoryWrite) (n : Nat) (s : Tested) : Prop where
  state : s.com.state = if n = 3 then .idle else if n = 2 then .wi else .done
  stores : s.com.out.stores = if n = 1 then [w] else []
  stopped : s.com.out.processorEnable = false
  contents : s.contents = if n = 0 then w.apply start else start
  trace : s.trace = if n ≤ 1 then [.store w] else []

/-- The store that the first write of the self-test commands. -/
def stored (operands : Word × Word) : MemoryWrite where
  bank := .imem
  address := operands.1.setWidth 8
  value := operands.2

variable {start : Contents} {n : Nat}

theorem Obeying.step_of (cycle : BusCycle) (obeying : Obeying start (stored s.operands) n s)
    (bound : n ≤ 3) {m : Nat}
    (state : s.com.state.next s.logic.slvReg0 = if m = 3 then .idle else if m = 2 then .wi else .done)
    (stores : s.com.state.stores s.logic.slvReg1 s.logic.slvReg2 =
      if m = 1 then [stored s.operands] else [])
    (moves : n = m ∧ n ≠ 1 ∨ n = m + 1) : Obeying start (stored s.operands) m (s.step cycle) := by
  have stopped : (s.step cycle).com.out.processorEnable = false := by
    rw [step_com, ← Bool.not_eq_true, Com.processorEnable_iff, obeying.state]
    split_ifs <;> decide
  have made : (s.step cycle).com.out.stores = if m = 1 then [stored s.operands] else [] := by
    rw [step_com, Com.risingEdge_stores, stores]
  refine ⟨?_, made, stopped, ?_, ?_⟩
  · rw [step_com, Com.risingEdge_state, state]
  · rw [step_contents, memoryWrites_stopped obeying.stopped, obeying.stores, obeying.contents]
    rcases moves with ⟨rfl, still⟩ | rfl
    · simp [still]
    · by_cases last : m = 0 <;> simp [last]
  · have seen : (s.step cycle).trace = s.trace ++ portEvents s.com.out (s.step cycle).com.out := rfl
    rw [seen, portEvents, made, stopped, obeying.stopped, obeying.trace]
    rcases moves with ⟨rfl, still⟩ | rfl
    · simp [still, toggle]
    · have bound : m ≤ 2 := by omega
      interval_cases m <;> simp [toggle]

theorem Obeying.step (cycle : BusCycle) (obeying : Obeying start (stored s.operands) n s)
    (bound : n ≤ 3) (command : s.logic.slvReg0 = cmdWi) :
    Obeying start (stored s.operands) (n - 1) (s.step cycle) := by
  refine obeying.step_of cycle bound ?_ ?_ (by omega) <;> rw [obeying.state]
  · rw [command]
    interval_cases n <;> decide
  · interval_cases n <;> rfl

theorem Obeying.step_none (cycle : BusCycle) (obeying : Obeying start (stored s.operands) 3 s)
    (command : s.logic.slvReg0 = cmdNone) : Obeying start (stored s.operands) 3 (s.step cycle) := by
  refine obeying.step_of cycle le_rfl ?_ ?_ (Or.inl ⟨rfl, by decide⟩) <;> rw [obeying.state]
  · rw [command]
    decide
  · rfl

/-- From a peripheral at rest, as every call leaves it. -/
inductive Clobbering (start : Contents) (operands : Word × Word) (s : Tested) : Prop
  | waits (writes : s.test = mipsSelfTest) (command : s.logic.slvReg0 = cmdNone)
    (same : s.operands = operands) (obeying : Obeying start (stored operands) 3 s)
  | obeys (n : Nat) (bound : n ≤ 3) (past : s.test = reading ∨ s.test = .returned .failure)
    (command : s.logic.slvReg0 = cmdWi) (same : s.operands = operands)
    (obeying : Obeying start (stored operands) n s)

theorem Clobbering.step {operands : Word × Word} (cycle : BusCycle)
    (clobbering : Clobbering start operands s) : Clobbering start operands (s.step cycle) := by
  cases clobbering with
  | waits writes command same obeying =>
    subst same
    have next := obeying.step_none cycle command
    by_cases fires : cycle.fires = true
    · obtain ⟨reads, written, kept⟩ := step_writes writes fires
      exact .obeys 3 le_rfl (Or.inl reads) written kept next
    · obtain ⟨waits, kept, same⟩ := step_waits (if_neg fires)
      exact .waits (waits.trans writes) (kept.trans command) same next
  | obeys n bound past command same obeying =>
    subst same
    have next := obeying.step cycle bound command
    have fewer : n - 1 ≤ 3 := by omega
    by_cases reads : s.test = reading ∧ cycle.fires = true
    · obtain ⟨failed, kept, same⟩ := step_reads reads.1 reads.2
      exact .obeys (n - 1) fewer (Or.inr failed) (kept.trans command) same next
    · have now : s.current cycle = none := by
        rw [current]
        rcases past with reading | failed
        · exact if_neg fun fires => reads ⟨reading, fires⟩
        · rw [failed]
          exact ite_self none
      obtain ⟨waits, kept, same⟩ := step_waits now
      exact .obeys (n - 1) fewer (waits ▸ past) (kept.trans command) same next

def stageRank (s : Tested) : Nat :=
  match s.com.state with
  | .idle => 3
  | .wi => 2
  | _ => if s.com.out.writeEnable = true then 1 else 0

theorem Obeying.stageRank_eq {w : MemoryWrite} (obeying : Obeying start w n s) (bound : n ≤ 3) :
    s.stageRank = n := by
  have stores := obeying.stores
  have writes := ComOut.stores_eq_nil_iff s.com.out
  rw [stageRank, obeying.state]
  interval_cases n <;> simp_all

theorem Clobbering.rank_step {operands : Word × Word} (cycle : BusCycle)
    (clobbering : Clobbering start operands s) :
    4 * testRank (s.step cycle).test + (s.step cycle).stageRank ≤ 4 * testRank s.test + s.stageRank ∧
      (cycle.fires = true → ¬ (s.test = .returned .failure ∧ s.stageRank = 0) →
        4 * testRank (s.step cycle).test + (s.step cycle).stageRank <
          4 * testRank s.test + s.stageRank) := by
  cases clobbering with
  | waits writes command same obeying =>
    subst same
    obtain ⟨-, falls, drops⟩ := Failing.step cycle (Or.inl writes)
    rw [obeying.stageRank_eq le_rfl, (obeying.step_none cycle command).stageRank_eq le_rfl]
    refine ⟨by omega, fun fires _ => ?_⟩
    have lower := drops fires (by rw [writes]; decide)
    omega
  | obeys n bound past command same obeying =>
    subst same
    obtain ⟨-, falls, drops⟩ := Failing.step cycle (Or.inr past)
    rw [obeying.stageRank_eq bound, (obeying.step cycle bound command).stageRank_eq (by omega)]
    refine ⟨by omega, fun fires unfinished => ?_⟩
    by_cases last : n = 0
    · have lower := drops fires fun failed => unfinished ⟨failed, last⟩
      omega
    · omega

/-- The self-test has returned and `com` has stored. -/
structure Finished (start : Contents) (operands : Word × Word) (s : Tested) : Prop where
  failed : s.test = .returned .failure
  command : s.logic.slvReg0 = cmdWi
  same : s.operands = operands
  obeying : Obeying start (stored operands) 0 s

theorem Clobbering.finished {operands : Word × Word} (clobbering : Clobbering start operands s)
    (failed : s.test = .returned .failure) (none : s.stageRank = 0) : Finished start operands s := by
  cases clobbering with
  | waits writes command same obeying => exact absurd (writes.symm.trans failed) (by decide)
  | obeys n bound past command same obeying =>
    rw [obeying.stageRank_eq bound] at none
    exact ⟨failed, command, same, none ▸ obeying⟩

theorem Finished.step {operands : Word × Word} (cycle : BusCycle)
    (finished : Finished start operands s) : Finished start operands (s.step cycle) := by
  obtain ⟨failed, command, rfl, obeying⟩ := finished
  obtain ⟨still, kept, same⟩ := step_failed cycle failed
  exact ⟨still, kept.trans command, same, obeying.step cycle (Nat.zero_le 3) command⟩

theorem begin_clobbering {u : UserLogic} (idle : u.loader.com.state = .idle)
    (still : u.loader.com.out.writeEnable = false)
    (stopped : u.loader.com.out.processorEnable = false) (command : u.slvReg0 = cmdNone) :
    Clobbering u.loader.mems.contents (u.slvReg1, u.slvReg2) (begin u) :=
  .waits rfl command rfl
    { state := idle
      stores := (ComOut.stores_eq_nil_iff _).mpr still
      stopped := stopped
      contents := rfl
      trace := rfl }

end Tested

/-- The self-test fails on a board that works, at the first register, whatever
state the board is in; and on one at rest it overwrites a word of instruction
memory and leaves `com` in `STATE_DONE`. -/
theorem self_test_fails (u : UserLogic) (cycles : Nat → BusCycle)
    (often : ∀ k, ∃ j, k ≤ j ∧ (cycles j).fires = true) :
    (∀ k, (Sampled.run Tested.step cycles (Tested.begin u) k).test ≠ .returned .success) ∧
      (∃ k, ∀ j, k ≤ j →
        (Sampled.run Tested.step cycles (Tested.begin u) j).test = .returned .failure) ∧
      (u.loader.com.state = .idle → u.loader.com.out.writeEnable = false →
        u.loader.com.out.processorEnable = false → u.slvReg0 = cmdNone →
        ∃ k, ∀ j s, k ≤ j → s = Sampled.run Tested.step cycles (Tested.begin u) j →
          s.trace = [.store (Tested.stored (u.slvReg1, u.slvReg2))] ∧
            s.contents = (Tested.stored (u.slvReg1, u.slvReg2)).apply u.loader.mems.contents ∧
            s.com.state = .done) := by
  have keep : ∀ cycle (s : Tested), Tested.Failing s.test → Tested.Failing (s.step cycle).test :=
    fun cycle _ failing => (failing.step cycle).1
  have start : Tested.Failing (Tested.begin u).test := Or.inl rfl
  have failing := Sampled.run_invariant Tested.step keep cycles start
  refine ⟨fun k => ?_, ?_, fun idle still stopped command => ?_⟩
  · rcases failing k with writes | reads | failed
    · rw [writes]
      decide
    · rw [reads]
      decide
    · rw [failed]
      decide
  · obtain ⟨k, failed⟩ := Sampled.run_reaches Tested.step
      (fun s => s.test = .returned .failure) (fun cycle => cycle.fires = true)
      (fun s => Tested.testRank s.test) keep (fun cycle _ failing => (failing.step cycle).2.1)
      (fun cycle _ failing => (failing.step cycle).2.2) often start
    refine ⟨k, fun j later => ?_⟩
    induction j, later using Nat.le_induction with
    | base => exact failed
    | succ j _ ih => exact (Tested.step_failed _ ih).1
  · have begins := Tested.begin_clobbering idle still stopped command
    obtain ⟨k, failed, none⟩ := Sampled.run_reaches Tested.step
      (fun s => s.test = .returned .failure ∧ s.stageRank = 0) (fun cycle => cycle.fires = true)
      (fun s => 4 * Tested.testRank s.test + s.stageRank)
      (fun cycle _ clobbering => Tested.Clobbering.step cycle clobbering)
      (fun cycle _ clobbering => (clobbering.rank_step cycle).1)
      (fun cycle _ clobbering => (clobbering.rank_step cycle).2) often begins
    have finished := (Sampled.run_invariant Tested.step
      (fun cycle _ clobbering => Tested.Clobbering.step cycle clobbering) cycles begins k).finished
      failed none
    refine ⟨k, ?_⟩
    rintro j s later rfl
    have final : Tested.Finished u.loader.mems.contents (u.slvReg1, u.slvReg2)
        (Sampled.run Tested.step cycles (Tested.begin u) j) := by
      induction j, later using Nat.le_induction with
      | base => exact finished
      | succ j _ ih => exact ih.step _
    exact ⟨final.obeying.trace, final.obeying.contents, final.obeying.state⟩

theorem self_test_fails_after_reset :
    let empty : Memory 32 8 := { mem := fun _ => 7, addressReg := 0 }
    let u : UserLogic := .afterReset { imem := empty, dmem := empty }
    let cycle : BusCycle := { fires := true, proc := stubborn }
    ∃ k, (Sampled.run Tested.step (fun _ => cycle) (Tested.begin u) k).test = .returned .failure ∧
      (Sampled.run Tested.step (fun _ => cycle) (Tested.begin u) k).contents .imem 0#8 = 0#32 := by
  intro empty u cycle
  obtain ⟨-, ⟨k, failed⟩, clobbers⟩ := self_test_fails u (fun _ => cycle) fun k => ⟨k, le_rfl, rfl⟩
  obtain ⟨l, stores⟩ := clobbers rfl rfl rfl rfl
  obtain ⟨-, contents, -⟩ := stores (max k l) _ (le_max_right k l) rfl
  exact ⟨max k l, failed _ (le_max_left k l), by rw [contents]; rfl⟩

/-! What becomes of the call after it. -/

namespace Session

/-- A write, `i` accesses far, that `com` does not see: it waits for the
command before it to be taken away. -/
structure Losing (start : Contents) (c : Call) (i : Nat) (s : Session) : Prop where
  pending : s.pending = c.accesses.drop i
  standing : i < 4 → s.logic.slvReg0 ≠ cmdNone
  taken : 4 ≤ i → s.logic.slvReg0 = cmdNone
  state : s.com.state = .done ∨ 4 ≤ i ∧ s.com.state = .idle
  still : s.com.out.writeEnable = false
  stopped : s.com.out.processorEnable = false
  contents : s.contents = start

variable {start : Contents} {c : Call} {i : Nat} {cycle : BusCycle} {s : Session}

theorem Losing.step_com (cycle : BusCycle) (losing : Losing start c i s) :
    ((s.step cycle).com.state = .done ∨ 4 ≤ i ∧ (s.step cycle).com.state = .idle) ∧
      (s.step cycle).com.out.writeEnable = false ∧
      (s.step cycle).com.out.processorEnable = false ∧ (s.step cycle).contents = start := by
  have rests : s.com.state = .rd3 ∨ s.com.state = .done ∨ s.com.state = .idle :=
    Or.inr (losing.state.imp_right And.right)
  obtain ⟨still, stopped⟩ := step_still cycle rests
  refine ⟨?_, still, stopped, ?_⟩
  · rw [step_state]
    by_cases early : i < 4
    · have done : s.com.state = .done := losing.state.resolve_right fun late => by omega
      rw [done, ComState.next, if_neg (losing.standing early)]
      exact Or.inl rfl
    · rw [losing.taken (by omega)]
      rcases losing.state with done | ⟨-, idle⟩
      · exact Or.inr ⟨by omega, by rw [done]; decide⟩
      · exact Or.inr ⟨by omega, by rw [idle]; decide⟩
  · rw [step_contents, memoryWrites_stopped losing.stopped,
      (ComOut.stores_eq_nil_iff _).mpr losing.still]
    exact losing.contents

/-- What the accesses of a write leave in the command register. -/
theorem write_effect {a : Access} (regs : Word × Word × Word) (write : c.writes ≠ [])
    (next : c.accesses[i]? = some a) :
    a ≠ .wait ∧ (i + 1 < 4 → regs.1 ≠ cmdNone → (a.effect regs).1 ≠ cmdNone) ∧
      (4 ≤ i + 1 → (i < 4 ∨ regs.1 = cmdNone) → (a.effect regs).1 = cmdNone) := by
  cases c <;> rcases i with _ | _ | _ | _ | _ | _ | i <;>
    simp only [Call.accesses, Tdt4255.writeData, Tdt4255.readData, List.getElem?_cons_succ,
      List.getElem?_cons_zero, List.getElem?_nil, Option.some.injEq, reduceCtorEq] at next <;>
    subst next <;>
    simp_all [Access.effect, chipEnable_regCmd, chipEnable_regAddrIn, chipEnable_regDataIn,
      Call.writes, cmdWi, cmdWd, cmdNone]

theorem Losing.step (cycle : BusCycle) (write : c.writes ≠ []) (losing : Losing start c i s) :
    ∃ i', Losing start c i' (s.step cycle) := by
  obtain ⟨state, still, stopped, contents⟩ := losing.step_com cycle
  cases now : s.current cycle with
  | none =>
    have same := step_slvReg0_none now
    refine ⟨i, (step_none now).1.trans losing.pending, ?_, ?_, state, still, stopped, contents⟩
    · exact fun early => same ▸ losing.standing early
    · exact fun late => same ▸ losing.taken late
  | some a =>
    obtain ⟨more, head⟩ := pending_of_current now
    have next : c.accesses[i]? = some a := by
      rw [← List.head?_drop, ← losing.pending, head]
      rfl
    obtain ⟨noWait, stands, taken⟩ := write_effect s.slvRegs write next
    have pops := (step_of_current now fun waits => absurd waits noWait).1
    have written := step_slvReg0 now
    refine ⟨i + 1, ?_, ?_, ?_, ?_, still, stopped, contents⟩
    · rw [pops, losing.pending, List.tail_drop]
    · intro early
      rw [written]
      exact stands early (losing.standing (by omega))
    · intro late
      rw [written]
      by_cases before : i < 4
      · exact taken late (Or.inl before)
      · exact taken late (Or.inr (losing.taken (by omega)))
    · exact state.imp_right fun idle => ⟨by omega, idle.2⟩

end Session

/-- A write that finds `com` in `STATE_DONE` with the command before it still
in the register, as the self-test leaves it, is lost: at no time and for no
spacing of its accesses does it store anything. -/
theorem write_after_standing_command_lost (c : Call) (write : c.writes ≠ []) (u : UserLogic)
    (done : u.loader.com.state = .done) (still : u.loader.com.out.writeEnable = false)
    (stopped : u.loader.com.out.processorEnable = false) (standing : u.slvReg0 ≠ cmdNone)
    (cycles : Nat → BusCycle) (often : ∀ k, ∃ j, k ≤ j ∧ (cycles j).fires = true) :
    (∀ k, (Sampled.run Session.step cycles (Session.meet [.call c] u) k).contents =
        u.loader.mems.contents) ∧
      ∃ k, (Sampled.run Session.step cycles (Session.meet [.call c] u) k).pending = [] ∧
        (Sampled.run Session.step cycles (Session.meet [.call c] u) k).logic.slvReg0 = cmdNone := by
  have begins : Session.Losing u.loader.mems.contents c 0 (Session.meet [.call c] u) :=
    { pending := List.append_nil _
      standing := fun _ => standing
      taken := by simp
      state := Or.inl done
      still := still
      stopped := stopped
      contents := rfl }
  have start : ∃ i, Session.Losing u.loader.mems.contents c i (Session.meet [.call c] u) :=
    ⟨0, begins⟩
  have keep : ∀ cycle (s : Session), (∃ i, Session.Losing u.loader.mems.contents c i s) →
      ∃ i, Session.Losing u.loader.mems.contents c i (s.step cycle) := by
    rintro cycle s ⟨i, losing⟩
    exact losing.step cycle write
  have losing := Sampled.run_invariant Session.step keep cycles start
  have pending : (Session.meet [.call c] u).pending =
      [Action.call c].flatMap Action.accesses ++ [] := (List.append_nil _).symm
  obtain ⟨k, through, -⟩ := Session.actions_end [.call c] _ pending often
  refine ⟨fun j => ?_, k, through, ?_⟩
  · obtain ⟨i, goes⟩ := losing j
    exact goes.contents
  obtain ⟨i, ends⟩ := losing k
  refine ends.taken ?_
  have short := ends.pending.symm.trans through
  rw [List.drop_eq_nil_iff, Session.length_accesses] at short
  omega

theorem write_after_standing_command_lost_once :
    let empty : Memory 32 8 := { mem := fun _ => 0, addressReg := 0 }
    let u : UserLogic :=
      { slvReg0 := cmdWi
        slvReg1 := 0
        slvReg2 := 0
        loader :=
          { com := { Com.afterReset with state := .done }
            mems := { imem := empty, dmem := empty } } }
    let cycle : BusCycle := { fires := true, proc := stubborn }
    ∀ k, (Sampled.run Session.step (fun _ => cycle)
      (Session.meet [.call (.writeData 7 9)] u) k).contents .dmem 7#8 = 0#32 := by
  intro empty u cycle k
  have lost := write_after_standing_command_lost (.writeData 7 9) (by simp [Call.writes]) u rfl rfl
    rfl (by decide) (fun _ => cycle) fun k => ⟨k, le_rfl, rfl⟩
  rw [lost.1 k]
  rfl

end Tdt4255
