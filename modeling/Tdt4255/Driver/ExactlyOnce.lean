import Tdt4255.Driver.Phases
import Tdt4255.Lib.Sampled

/-! The loader protocol over whole sessions: any calls, any spacing of the
bus accesses, any processor. -/

namespace Tdt4255

/-! What the calls are for: one memory access each, at the address mod 256. -/

def Call.perform (m : Contents) (c : Call) : Contents := c.writes.foldl MemoryWrite.apply m

def Call.result (m : Contents) : Call → List Word
  | .readData address => [m .dmem (address.setWidth 8)]
  | _ => []

def perform (m : Contents) (calls : List Call) : Contents := calls.foldl Call.perform m

def results (m : Contents) : List Call → List Word
  | [] => []
  | c :: rest => c.result m ++ results (c.perform m) rest

theorem perform_eq_foldl_writes (m : Contents) (calls : List Call) :
    perform m calls = (calls.flatMap Call.writes).foldl MemoryWrite.apply m := by
  induction calls generalizing m with
  | nil => rfl
  | cons c rest ih =>
    rw [List.flatMap_cons, List.foldl_append]
    exact ih _

theorem results_concat (m : Contents) (past : List Call) (c : Call) :
    results m (past ++ [c]) = results m past ++ c.result (perform m past) := by
  induction past generalizing m with
  | nil => simp [results, perform]
  | cons d rest ih =>
    rw [List.cons_append, results, ih, results, List.append_assoc]
    rfl

/-- The three registers that the driver writes, after so many accesses. -/
def Call.Registers (c : Call) (i : Nat) (regs : Word × Word × Word) : Prop :=
  regs.1 = (if c.held i then c.command else cmdNone) ∧
    (0 < i → i < 5 → regs.2.1 = c.address) ∧
    (1 < i → i < 5 → c.writes ≠ [] → regs.2.2 = c.data)

/-- What a completed access does to them. -/
def Access.effect (regs : Word × Word × Word) : Access → Word × Word × Word
  | .writeReg offset value =>
    (if chipEnable offset = 0b10000#5 then value else regs.1,
      if chipEnable offset = 0b01000#5 then value else regs.2.1,
      if chipEnable offset = 0b00100#5 then value else regs.2.2)
  | _ => regs

theorem chipEnable_regCmd : chipEnable regCmd = 0b10000#5 := rfl
theorem chipEnable_regAddrIn : chipEnable regAddrIn = 0b01000#5 := rfl
theorem chipEnable_regDataIn : chipEnable regDataIn = 0b00100#5 := rfl

/-- The registers are as the next access expects them. -/
theorem Call.Registers.effect {c : Call} {i : Nat} {regs : Word × Word × Word} {a : Access}
    (registers : c.Registers i regs) (now : c.accesses[i]? = some a) :
    c.Registers (i + 1) (a.effect regs) := by
  obtain ⟨r0, r1, r2⟩ := registers
  cases c <;> rcases i with _ | _ | _ | _ | _ | _ | i <;>
    simp only [Call.accesses, Tdt4255.writeData, Tdt4255.readData, List.getElem?_cons_succ,
      List.getElem?_cons_zero, List.getElem?_nil, Option.some.injEq, reduceCtorEq] at now <;>
    subst now <;>
    simp_all [Call.Registers, Access.effect, chipEnable_regCmd, chipEnable_regAddrIn,
      chipEnable_regDataIn, Call.held, Call.command, Call.address, Call.data, Call.writes]

namespace Session

variable {start : Contents} {c : Call} {past rest calls : List Call} {i : Nat} {cycle : BusCycle}
  {s : Session}

theorem step_slvRegs_effect {a : Access} (now : s.current cycle = some a) :
    (s.step cycle).slvRegs = a.effect s.slvRegs := by
  cases a with
  | writeReg offset value => exact step_slvRegs_writeReg now
  | readReg offset => exact step_slvRegs_readReg now
  | wait => exact step_slvRegs_wait now

structure Inside (start : Contents) (past : List Call) (c : Call) (rest : List Call) (i : Nat)
    (s : Session) : Prop where
  sound : s.Sound start
  pending : s.pending = c.accesses.drop i ++ rest.flatMap Call.accesses
  registers : c.Registers i s.slvRegs
  stage : ∃ stage ∈ Stage.possible c i, s.AtStage c (past.flatMap Call.writes)
    (found start (past.flatMap Call.writes) c) stage
  returned : s.returned =
    results start past ++ if 4 ≤ i then c.result (perform start past) else []

structure Between (start : Contents) (past rest : List Call) (s : Session) : Prop where
  sound : s.Sound start
  pending : s.pending = rest.flatMap Call.accesses
  command : s.logic.slvReg0 = cmdNone
  idle : s.com.state = .idle
  committed : s.committed = past.flatMap Call.writes
  returned : s.returned = results start past

theorem Between.begin (between : Between start past (c :: rest) s) :
    Inside start past c rest 0 s where
  sound := between.sound
  pending := between.pending
  registers := ⟨by cases c <;> exact between.command, by simp, by simp⟩
  stage := ⟨.rest, by cases c <;> simp [Stage.possible], between.idle, between.committed⟩
  returned := by simpa using between.returned

theorem Inside.finish (inside : Inside start past c rest 6 s) :
    Between start (past ++ [c]) rest s := by
  obtain ⟨stage, allowed, at_stage⟩ := inside.stage
  rw [Stage.possible_six, List.mem_singleton] at allowed
  obtain ⟨idle, committed⟩ := allowed ▸ at_stage
  refine ⟨inside.sound, ?_, ?_, idle, ?_, ?_⟩
  · exact inside.pending.trans (by cases c <;> rfl)
  · exact inside.registers.1.trans (by cases c <;> rfl)
  · simpa using committed
  · rw [results_concat]
    exact inside.returned

theorem Inside.step_stage (cycle : BusCycle) (inside : Inside start past c rest i s) {stage : Stage}
    (allowed : stage ∈ Stage.possible c i)
    (at_stage : s.AtStage c (past.flatMap Call.writes)
      (found start (past.flatMap Call.writes) c) stage) :
    (s.step cycle).AtStage c (past.flatMap Call.writes)
      (found start (past.flatMap Call.writes) c) (stage.next c (c.held i)) := by
  obtain ⟨r0, r1, r2⟩ := inside.registers
  refine at_stage.step inside.sound r0 ?_ ?_ ?_
  · rintro rfl
    obtain ⟨low, high, -⟩ := Stage.registers_of_accepted allowed
    exact r1 low high
  · rintro rfl writes
    obtain ⟨-, high, low⟩ := Stage.registers_of_accepted allowed
    exact r2 (low writes) high writes
  · rintro rfl
    exact Stage.not_held_of_finished allowed

theorem Inside.sound_step (inside : Inside start past c rest i s) : (s.step cycle).Sound start := by
  obtain ⟨stage, -, at_stage⟩ := inside.stage
  exact inside.sound.step at_stage.notRun

theorem Inside.stay (inside : Inside start past c rest i s)
    (registers : (s.step cycle).slvRegs = s.slvRegs)
    (pending : (s.step cycle).pending = s.pending)
    (returned : (s.step cycle).returned = s.returned) :
    Inside start past c rest i (s.step cycle) := by
  obtain ⟨stage, allowed, at_stage⟩ := inside.stage
  exact
    { sound := inside.sound_step
      pending := pending.trans inside.pending
      registers := registers ▸ inside.registers
      stage := ⟨_, Stage.next_possible c allowed, inside.step_stage cycle allowed at_stage⟩
      returned := returned.trans inside.returned }

theorem Inside.advance (inside : Inside start past c rest i s) {a : Access}
    (now : s.current cycle = some a) (next : c.accesses[i]? = some a)
    (pops : (s.step cycle).pending = s.pending.tail)
    (ready : a = .wait → s.com.status = statusDone)
    (returned : (s.step cycle).returned =
      results start past ++ if 4 ≤ i + 1 then c.result (perform start past) else []) :
    Inside start past c rest (i + 1) (s.step cycle) := by
  obtain ⟨stage, allowed, at_stage⟩ := inside.stage
  have shown : c.accesses[i]? = some .wait → stage = .shown := fun waits =>
    at_stage.shown_of_done allowed waits (ready (Option.some.inj (next.symm.trans waits)))
  have more : c.accesses.drop i ≠ [] := by
    intro none
    rw [List.drop_eq_nil_iff, ← List.getElem?_eq_none_iff, next] at none
    simp at none
  refine
    { sound := inside.sound_step
      pending := ?_
      registers := step_slvRegs_effect now ▸ inside.registers.effect next
      stage := ⟨_, Stage.next_possible_succ c allowed shown, inside.step_stage cycle allowed at_stage⟩
      returned := returned }
  rw [pops, inside.pending, List.tail_append_of_ne_nil more, List.tail_drop]

def Progress (start : Contents) (calls : List Call) (s : Session) : Prop :=
  Between start calls [] s ∨
    ∃ past c rest i, calls = past ++ c :: rest ∧ i < 6 ∧ Inside start past c rest i s

theorem Between.progress (between : Between start past rest s) :
    Progress start (past ++ rest) s := by
  cases rest with
  | nil => exact Or.inl (by simpa using between)
  | cons c rest => exact Or.inr ⟨past, c, rest, 0, rfl, by decide, between.begin⟩

theorem Inside.progress (inside : Inside start past c rest i s) (bound : i ≤ 6) :
    Progress start (past ++ c :: rest) s := by
  rcases bound.lt_or_eq with before | rfl
  · exact Or.inr ⟨past, c, rest, i, rfl, before, inside⟩
  · simpa using inside.finish.progress

theorem length_accesses (c : Call) : c.accesses.length = 6 := by
  cases c <;> rfl

theorem Inside.head (inside : Inside start past c rest i s) (bound : i < 6) :
    s.pending.head? = c.accesses[i]? := by
  have more : c.accesses.drop i ≠ [] := by
    rw [ne_eq, List.drop_eq_nil_iff, length_accesses]
    omega
  rw [inside.pending, List.head?_append_of_ne_nil _ more, List.head?_drop]

theorem Inside.next_of_current (inside : Inside start past c rest i s) (bound : i < 6) {a : Access}
    (now : s.current cycle = some a) : c.accesses[i]? = some a := by
  rw [← inside.head bound]
  unfold current at now
  split_ifs at now
  exact now

theorem busData_wait (now : s.current cycle = some .wait) : s.busData cycle = s.com.status := by
  rw [busData, bus, now]
  rfl

theorem busData_readReg (now : s.current cycle = some (.readReg regDataOut)) :
    s.busData cycle = s.com.busDataOut := by
  rw [busData, bus, now]
  rfl

/-- The cycle leaves the driver where it is: the bus is idle or the status
is not yet the one that `wait` waits for. -/
def Stalls (cycle : BusCycle) (s : Session) : Prop :=
  s.current cycle = none ∨ s.current cycle = some .wait ∧ s.com.status ≠ statusDone

theorem Inside.step_of_stalls (inside : Inside start past c rest i s) (stalls : s.Stalls cycle) :
    (s.step cycle).pending = s.pending ∧ Inside start past c rest i (s.step cycle) := by
  have pending : (s.step cycle).pending = s.pending := by
    rcases stalls with now | ⟨now, early⟩
    · simp [step, now]
    · simp [step, now, busData_wait now, early]
  refine ⟨pending, inside.stay ?_ pending ?_⟩
  · rcases stalls with now | ⟨now, -⟩
    · exact step_slvRegs_none now
    · exact step_slvRegs_wait now
  · rcases stalls with now | ⟨now, -⟩ <;> simp [step, now]

/-- Only the last but two access of `readData` returns anything. -/
theorem result_succ {a : Access} (next : c.accesses[i]? = some a) (m : Contents) :
    (if 4 ≤ i + 1 then c.result m else []) =
      (if 4 ≤ i then c.result m else []) ++
        match a with
        | .readReg _ => c.result m
        | _ => [] := by
  cases c <;> rcases i with _ | _ | _ | _ | _ | _ | i <;>
    simp only [Call.accesses, Tdt4255.writeData, Tdt4255.readData, List.getElem?_cons_succ,
      List.getElem?_cons_zero, List.getElem?_nil, Option.some.injEq, reduceCtorEq] at next <;>
    subst next <;> simp [Call.result]

theorem readReg_shown (start : Contents) {offset : Nat} (next : c.accesses[i]? = some (.readReg offset)) :
    offset = regDataOut ∧ Stage.possible c i = [.shown] ∧
      ∀ before m, before.foldl MemoryWrite.apply start = m → c.result m = [found start before c] := by
  cases c <;> rcases i with _ | _ | _ | _ | _ | _ | i <;>
    simp [Call.accesses, Tdt4255.writeData, Tdt4255.readData] at next
  refine ⟨next.symm, rfl, ?_⟩
  rintro before m rfl
  simp [Call.result, found, Call.writes, Call.address]

theorem Inside.busData_eq (inside : Inside start past c rest i s) {offset : Nat}
    (now : s.current cycle = some (.readReg offset))
    (next : c.accesses[i]? = some (.readReg offset)) :
    c.result (perform start past) = [s.busData cycle] := by
  obtain ⟨rfl, shown, result⟩ := readReg_shown start next
  obtain ⟨stage, allowed, at_stage⟩ := inside.stage
  rw [shown, List.mem_singleton] at allowed
  obtain ⟨-, -, -, -, value⟩ := allowed ▸ at_stage
  rw [result _ _ (perform_eq_foldl_writes _ _).symm, busData_readReg now, value]

theorem Inside.step_of_not_stalls (inside : Inside start past c rest i s) (bound : i < 6)
    (goes : ¬ s.Stalls cycle) :
    (s.step cycle).pending = s.pending.tail ∧
      Inside start past c rest (i + 1) (s.step cycle) := by
  obtain ⟨a, now⟩ := Option.ne_none_iff_exists'.mp fun none => goes (Or.inl none)
  have next := inside.next_of_current bound now
  have ready : a = .wait → s.com.status = statusDone := by
    rintro rfl
    by_contra early
    exact goes (Or.inr ⟨now, early⟩)
  have pops : (s.step cycle).pending = s.pending.tail := by
    cases a with
    | wait => simp [step, now, busData_wait now, ready]
    | writeReg => simp [step, now]
    | readReg => simp [step, now]
  refine ⟨pops, inside.advance now next pops ready ?_⟩
  rw [result_succ next, ← List.append_assoc, ← inside.returned]
  cases a with
  | wait => simp [step, now]
  | writeReg => simp [step, now]
  | readReg =>
    rw [inside.busData_eq now next]
    simp [step, now]

theorem Between.step (between : Between start past [] s) :
    Between start past [] (s.step cycle) := by
  have now : s.current cycle = none := by
    rw [current, between.pending]
    simp
  have regs := step_slvRegs_none now
  simp only [slvRegs, Prod.mk.injEq] at regs
  have state := step_state cycle s
  have committed := step_committed cycle between.sound.stopped
  simp only [between.idle, ComState.stores, List.append_nil] at committed
  rw [between.idle, between.command] at state
  exact
    { sound := between.sound.step (by simp [between.idle])
      pending := by simp [Session.step, now, between.pending]
      command := regs.1.trans between.command
      idle := state.trans next_none_idle
      committed := committed.trans between.committed
      returned := by simp [Session.step, now, between.returned] }

theorem Progress.step (progress : Progress start calls s) : Progress start calls (s.step cycle) := by
  rcases progress with between | ⟨past, c, rest, i, rfl, bound, inside⟩
  · exact Or.inl between.step
  · by_cases stalls : s.Stalls cycle
    · exact (inside.step_of_stalls stalls).2.progress bound.le
    · exact (inside.step_of_not_stalls bound stalls).2.progress bound

/-- Six for every access still to be made; `wait` needs at most five cycles. -/
def rank (s : Session) : Nat :=
  6 * s.pending.length + if s.pending.head? = some .wait then waitDistance s.com else 0

theorem Inside.rank_step (inside : Inside start past c rest i s) (bound : i < 6) :
    (s.step cycle).rank ≤ s.rank ∧ (cycle.fires = true → (s.step cycle).rank < s.rank) := by
  have head := inside.head bound
  by_cases stalls : s.Stalls cycle
  · obtain ⟨pending, after⟩ := inside.step_of_stalls stalls
    unfold rank
    rw [pending, head]
    by_cases waits : c.accesses[i]? = some .wait
    · obtain ⟨stage, allowed, at_stage⟩ := inside.stage
      have next := inside.step_stage cycle allowed at_stage
      obtain ⟨falls, positive⟩ := Stage.distance_next allowed waits
      simp only [if_pos waits]
      rw [at_stage.waitDistance allowed waits,
        next.waitDistance (Stage.next_possible c allowed) waits, falls]
      refine ⟨by omega, fun fires => ?_⟩
      have now : s.current cycle = some .wait := by
        rw [current, if_pos fires, head, waits]
      have early : s.com.status ≠ statusDone := by
        simpa [Stalls, now] using stalls
      have unshown : stage ≠ .shown := by
        rintro rfl
        exact early at_stage.2.2.1
      have := positive unshown
      omega
    · simp only [if_neg waits]
      refine ⟨le_rfl, fun fires => ?_⟩
      have now : s.current cycle = c.accesses[i]? := by
        rw [current, if_pos fires, head]
      rcases stalls with none | ⟨wait, -⟩
      · rw [now, List.getElem?_eq_none_iff, length_accesses] at none
        omega
      · exact absurd (now.symm.trans wait) waits
  · obtain ⟨pops, -⟩ := inside.step_of_not_stalls bound stalls
    have shorter : (s.step cycle).pending.length + 1 = s.pending.length := by
      rw [pops, List.length_tail]
      have nonempty : s.pending ≠ [] := by
        intro none
        rw [none, List.head?_nil, eq_comm, List.getElem?_eq_none_iff, length_accesses] at head
        omega
      have := List.length_pos_iff.mpr nonempty
      omega
    have next := waitDistance_le (s.step cycle).com
    have lower : (s.step cycle).rank < s.rank := by
      unfold rank
      split_ifs <;> omega
    exact ⟨lower.le, fun _ => lower⟩

end Session

def UserLogic.afterReset (mems : Memories) : UserLogic where
  slvReg0 := 0
  slvReg1 := 0
  slvReg2 := 0
  loader := { com := .afterReset, mems := mems }

def Session.begin (calls : List Call) (mems : Memories) : Session where
  pending := calls.flatMap Call.accesses
  returned := []
  logic := .afterReset mems
  log := []

theorem Session.begin_progress (calls : List Call) (mems : Memories) :
    Session.Progress mems.contents calls (Session.begin calls mems) := by
  have between : Session.Between mems.contents [] calls (Session.begin calls mems) :=
    { sound := ⟨rfl, rfl, fun _ => rfl, fun _ => rfl⟩
      pending := rfl
      command := rfl
      idle := rfl
      committed := rfl
      returned := rfl }
  exact between.progress

/-- Whatever the spacing of the accesses and whatever the processor drives,
the driver gets through its calls; the memories have then stored precisely
what the calls say, once and in order, and every read has returned the word
that was in data memory at that point. -/
theorem loader_exactly_once (calls : List Call) (mems : Memories) (cycles : Nat → BusCycle)
    (often : ∀ k, ∃ j, k ≤ j ∧ (cycles j).fires = true) :
    (∃ k, (Sampled.run Session.step cycles (Session.begin calls mems) k).pending = []) ∧
      ∀ k s, s = Sampled.run Session.step cycles (Session.begin calls mems) k →
        s.pending = [] →
        s.log = calls.flatMap Call.writes ∧
          s.logic.loader.mems.contents = perform mems.contents calls ∧
          s.returned = results mems.contents calls := by
  have keep : ∀ cycle s, Session.Progress mems.contents calls s →
      Session.Progress mems.contents calls (s.step cycle) := fun _ _ progress => progress.step
  constructor
  · refine Sampled.run_reaches Session.step (fun s => s.pending = [])
      (fun cycle => cycle.fires = true) Session.rank keep ?_ ?_ often
      (Session.begin_progress calls mems)
    · rintro cycle s (between | ⟨past, c, rest, i, -, bound, inside⟩)
      · simp [Session.rank, between.step.pending]
      · exact (inside.rank_step bound).1
    · rintro cycle s (between | ⟨past, c, rest, i, -, bound, inside⟩) fires unfinished
      · exact absurd between.pending unfinished
      · exact (inside.rank_step bound).2 fires
  · rintro k s rfl finished
    have progress := Sampled.run_invariant Session.step keep cycles
      (Session.begin_progress calls mems) k
    rcases progress with between | ⟨past, c, rest, i, -, bound, inside⟩
    · have log := between.sound.committed_eq_log (by simp [between.idle])
      rw [between.committed] at log
      refine ⟨log.symm, ?_, between.returned⟩
      rw [between.sound.contents, ← log, perform_eq_foldl_writes]
    · have head := inside.head bound
      rw [finished, List.head?_nil, eq_comm, List.getElem?_eq_none_iff,
        Session.length_accesses] at head
      omega

def stubborn : ProcessorOut where
  imemAddress := 0
  dmemAddress := 7
  dmemAddressWr := 7
  dmemDataOut := 1
  dmemWriteEnable := true

theorem loader_exactly_once_tight :
    let calls : List Call := [.writeData 0x107#32 0xFF00FF00#32, .readData 7#32]
    let empty : Memory 32 8 := { mem := fun _ => 0, addressReg := 0 }
    let mems : Memories := { imem := empty, dmem := empty }
    let cycle : BusCycle := { fires := true, proc := stubborn }
    ∃ k, (Sampled.run Session.step (fun _ => cycle) (Session.begin calls mems) k).returned =
      [0xFF00FF00#32] := by
  intro calls empty mems cycle
  obtain ⟨⟨k, finished⟩, result⟩ :=
    loader_exactly_once calls mems (fun _ => cycle) (fun k => ⟨k, le_rfl, rfl⟩)
  exact ⟨k, (result k _ rfl finished).2.2⟩

end Tdt4255
