import Tdt4255.Driver.Actions

/-! Where the driver stands in its actions, and what one cycle makes of that. -/

namespace Tdt4255

theorem Bracketed.stops {tail : List Action} (bracketed : Bracketed true tail) :
    tail = [] ∨ ∃ rest, tail = .stopCpu :: rest ∧ Bracketed false rest := by
  cases tail with
  | nil => exact Or.inl rfl
  | cons a rest =>
    cases a with
    | stopCpu => exact Or.inr ⟨rest, rfl, bracketed⟩
    | call c => exact bracketed.elim
    | startCpu => exact bracketed.elim
    | unknownCommand c => exact absurd bracketed.1 (by decide)

theorem tail_eq_nil {tail : List Action} (known : ∀ a ∈ tail, a.known = true)
    (none : tail.flatMap Action.accesses = []) : tail = [] := by
  cases tail with
  | nil => rfl
  | cons a rest =>
    have some := known a List.mem_cons_self
    cases a with
    | call c => cases c <;> simp [Action.accesses, Call.accesses, writeData, readData] at none
    | startCpu => simp [Action.accesses] at none
    | stopCpu => simp [Action.accesses] at none
    | unknownCommand b => simp [Action.known] at some

theorem Call.accesses_eq (c : Call) :
    c.accesses = .writeReg regAddrIn c.address :: c.accesses.tail := by
  cases c <;> rfl

theorem Call.accesses_begin (c : Call) {i : Nat} (few : i ≤ 1) :
    ∃ offset value, c.accesses[i]? = some (.writeReg offset value) := by
  interval_cases i <;> cases c <;> exact ⟨_, _, rfl⟩

theorem Call.registers_zero {c : Call} {regs : Word × Word × Word} (none : regs.1 = cmdNone) :
    c.Registers 0 regs :=
  ⟨by cases c <;> exact none, by simp, by simp⟩

theorem head_accesses {tail : List Action} (known : ∀ a ∈ tail, a.known = true) :
    (tail.flatMap Action.accesses).head? ≠ some .wait := by
  cases tail with
  | nil => simp
  | cons a rest =>
    have some := known a List.mem_cons_self
    cases a with
    | call c =>
      rw [List.flatMap_cons, Action.accesses, c.accesses_eq]
      simp
    | startCpu => simp [Action.accesses]
    | stopCpu => simp [Action.accesses]
    | unknownCommand b => simp [Action.known] at some

def Access.words : Access → Nat
  | .readReg _ => 1
  | _ => 0

namespace Session

/-- The driver of `s` still has `later` to do when that of `s₀` is through,
and has had `words` before. -/
structure Framed (words : List Word) (later : List Access) (s₀ s : Session) : Prop where
  logic : s.logic = s₀.logic
  pending : s.pending = s₀.pending ++ later
  returned : s.returned = words ++ s₀.returned

variable {words : List Word} {later : List Access} {cycle : BusCycle} {s₀ s : Session}

theorem Framed.current (framed : Framed words later s₀ s)
    (alike : cycle.fires = true → later ≠ [] → s₀.pending ≠ []) :
    s.current cycle = s₀.current cycle := by
  unfold Session.current
  by_cases fires : cycle.fires = true
  · rw [if_pos fires, if_pos fires, framed.pending]
    by_cases none : later = []
    · rw [none, List.append_nil]
    · exact List.head?_append_of_ne_nil _ (alike fires none)
  · rw [if_neg fires, if_neg fires]

/-- The frame rule: what follows later does not matter before it begins. -/
theorem Framed.step (cycle : BusCycle) (framed : Framed words later s₀ s)
    (alike : cycle.fires = true → later ≠ [] → s₀.pending ≠ []) :
    Framed words later (s₀.step cycle) (s.step cycle) := by
  have now := framed.current alike
  have bus : s.bus cycle = s₀.bus cycle := by rw [Session.bus, Session.bus, now]
  have data : s.busData cycle = s₀.busData cycle := by
    rw [busData, busData, bus, framed.logic]
  have tail : s₀.current cycle ≠ none → s.pending.tail = s₀.pending.tail ++ later := by
    intro some
    rw [framed.pending, List.tail_append_of_ne_nil]
    intro none
    exact some (by simp [Session.current, none])
  refine ⟨?_, ?_, ?_⟩
  · simp [Session.step, bus, framed.logic]
  · simp only [Session.step, now, data]
    cases h : s₀.current cycle with
    | none => exact framed.pending
    | some a =>
      have moved := tail (by simp [h])
      cases a with
      | wait => simp only; split_ifs <;> first | exact moved | exact framed.pending
      | writeReg => exact moved
      | readReg => exact moved
  · simp only [Session.step, now, data, framed.returned]
    cases h : s₀.current cycle with
    | none => rfl
    | some a => cases a <;> simp

theorem step_writeReg {offset : Nat} {value : Word}
    (now : s.current cycle = some (.writeReg offset value)) :
    (s.step cycle).pending = s.pending.tail ∧ (s.step cycle).returned = s.returned := by
  simp [Session.step, now]

theorem step_none (now : s.current cycle = none) :
    (s.step cycle).pending = s.pending ∧ (s.step cycle).returned = s.returned := by
  simp [Session.step, now]

theorem pending_of_current {a : Access} (now : s.current cycle = some a) :
    ∃ more, s.pending = a :: more := by
  unfold Session.current at now
  split_ifs at now
  cases pending : s.pending with
  | nil => simp [pending] at now
  | cons b more =>
    rw [pending, List.head?_cons, Option.some.injEq] at now
    exact ⟨more, now ▸ rfl⟩

/-- Only `readReg` returns anything. -/
theorem step_of_current {a : Access} (now : s.current cycle = some a)
    (ready : a = .wait → s.com.status = statusDone) :
    (s.step cycle).pending = s.pending.tail ∧
      (s.step cycle).returned.length = s.returned.length + a.words := by
  cases a with
  | wait => simp [Session.step, now, busData_wait now, ready, Access.words]
  | writeReg => simp [Session.step, now, Access.words]
  | readReg => simp [Session.step, now, Access.words]

theorem step_of_stalls (stalls : s.Stalls cycle) :
    (s.step cycle).pending = s.pending ∧ (s.step cycle).slvRegs = s.slvRegs ∧
      (s.step cycle).returned = s.returned := by
  rcases stalls with now | ⟨now, early⟩
  · exact ⟨(step_none now).1, step_slvRegs_none now, (step_none now).2⟩
  · exact ⟨by simp [Session.step, now, busData_wait now, early], step_slvRegs_wait now,
      by simp [Session.step, now]⟩

theorem step_slvReg0_none (now : s.current cycle = none) :
    (s.step cycle).logic.slvReg0 = s.logic.slvReg0 :=
  congrArg Prod.fst (step_slvRegs_none now)

theorem step_slvReg0 {a : Access} (now : s.current cycle = some a) :
    (s.step cycle).logic.slvReg0 = (a.effect s.slvRegs).1 :=
  congrArg Prod.fst (step_slvRegs_effect now)

def contents (s : Session) : Contents := s.logic.loader.mems.contents

theorem step_contents (cycle : BusCycle) (s : Session) :
    (s.step cycle).contents = (memoryWrites s.com.out cycle.proc).foldl MemoryWrite.apply s.contents :=
  Memories.contents_risingEdge _ _ _

theorem rank_of_head (first : s.pending.head? ≠ some .wait) : s.rank = 6 * s.pending.length := by
  rw [rank, if_neg first, Nat.add_zero]

/-- Only `wait` can hold the driver back. -/
theorem rank_step_of_head (first : s.pending.head? ≠ some .wait) :
    (s.step cycle).rank ≤ s.rank ∧
      (cycle.fires = true → s.pending ≠ [] → (s.step cycle).rank < s.rank) := by
  cases now : s.current cycle with
  | none =>
    obtain ⟨waits, -⟩ := step_none now
    rw [rank_of_head first, rank_of_head (waits.symm ▸ first), waits]
    refine ⟨le_rfl, fun fires more => ?_⟩
    rw [current, if_pos fires, List.head?_eq_none_iff] at now
    exact absurd now more
  | some a =>
    obtain ⟨more, head⟩ := pending_of_current now
    have pops : (s.step cycle).pending = more := by
      cases a with
      | wait => simp [head] at first
      | writeReg => simp [Session.step, now, head]
      | readReg => simp [Session.step, now, head]
    have bound := waitDistance_le (s.step cycle).com
    have lower : (s.step cycle).rank < s.rank := by
      rw [rank_of_head first, rank, pops, head, List.length_cons]
      split_ifs <;> omega
    exact ⟨lower.le, fun _ _ => lower⟩

theorem Framed.rank (framed : Framed words later s₀ s) (next : later.head? ≠ some .wait) :
    s.rank = s₀.rank + 6 * later.length := by
  unfold Session.rank Session.com
  rw [framed.pending, framed.logic, List.length_append]
  by_cases none : s₀.pending = []
  · simp [none, next]
  · rw [List.head?_append_of_ne_nil _ none]
    omega

theorem Progress.rank_step {m : Contents} {calls : List Call} (cycle : BusCycle) (progress : Progress m calls s) :
    (s.step cycle).rank ≤ s.rank ∧
      (cycle.fires = true → s.pending ≠ [] → (s.step cycle).rank < s.rank) := by
  rcases progress with between | ⟨past, c, rest, i, -, bound, inside⟩
  · exact rank_step_of_head (by simp [between.pending])
  · obtain ⟨falls, drops⟩ := inside.rank_step bound
    exact ⟨falls, fun fires _ => drops fires⟩

variable {m : Contents} {calls : List Call}

theorem Progress.sound (progress : Progress m calls s) : s.Sound m := by
  rcases progress with between | ⟨past, c, rest, i, -, -, inside⟩
  · exact between.sound
  · exact inside.sound

theorem Progress.committed (progress : Progress m calls s) :
    s.committed <+: calls.flatMap Call.writes := by
  rcases progress with between | ⟨past, c, rest, i, rfl, -, inside⟩
  · exact between.committed ▸ List.prefix_rfl
  · obtain ⟨stage, -, at_stage⟩ := inside.stage
    have either : s.committed = past.flatMap Call.writes ∨
        s.committed = past.flatMap Call.writes ++ c.writes := by
      cases stage <;> simp only [AtStage] at at_stage <;> simp [at_stage]
    rw [List.flatMap_append, List.flatMap_cons]
    rcases either with same | same <;> rw [same]
    · exact List.prefix_append _ _
    · rw [← List.append_assoc]
      exact List.prefix_append _ _

theorem Progress.between (progress : Progress m calls s) (through : s.pending = []) :
    Between m calls [] s := by
  rcases progress with between | ⟨past, c, rest, i, -, bound, inside⟩
  · exact between
  · have head := inside.head bound
    rw [through, List.head?_nil, eq_comm, List.getElem?_eq_none_iff, length_accesses] at head
    omega

theorem Between.contents (between : Between m calls [] s) : s.contents = perform m calls := by
  have log := between.sound.committed_eq_log (by simp [between.idle])
  rw [Session.contents, between.sound.contents, ← log, between.committed, perform_eq_foldl_writes]

end Session

/-- The driver is at most two accesses into the calls and starts that follow. -/
structure Ahead (tail : List Action) (i : Nat) (s : Session) : Prop where
  bracketed : Bracketed false tail
  known : ∀ a ∈ tail, a.known = true
  pending : s.pending = (tail.flatMap Action.accesses).drop i
  few : i ≤ 2
  rest : i = 0 → s.logic.slvReg0 = cmdNone
  begun : i ≠ 0 → ∃ c rest, tail = .call c :: rest ∧ c.Registers i s.slvRegs

/-- The driver has asked for the processor to run. -/
structure Running (tail : List Action) (s : Session) : Prop where
  bracketed : Bracketed true tail
  known : ∀ a ∈ tail, a.known = true
  pending : s.pending = tail.flatMap Action.accesses
  register : s.logic.slvReg0 = cmdRun

section Position

variable {tail : List Action} {i : Nat} {s : Session}

theorem Ahead.quiet (ahead : Ahead tail i s) (few : i ≤ 1) : s.logic.slvReg0 = cmdNone := by
  by_cases begun : i = 0
  · exact ahead.rest begun
  · obtain ⟨c, rest, -, registers⟩ := ahead.begun begun
    obtain rfl : i = 1 := by omega
    exact registers.1.trans (by cases c <;> rfl)

theorem Ahead.registers {c : Call} {rest : List Action} (ahead : Ahead (.call c :: rest) i s) :
    c.Registers i s.slvRegs := by
  by_cases begun : i = 0
  · subst begun
    exact Call.registers_zero (ahead.rest rfl)
  · obtain ⟨d, rest', begins, registers⟩ := ahead.begun begun
    simp only [List.cons.injEq, Action.call.injEq] at begins
    exact begins.1 ▸ registers

theorem Ahead.not_startCpu {rest : List Action} (ahead : Ahead (.startCpu :: rest) i s) : i = 0 := by
  by_contra begun
  obtain ⟨c, rest', begins, -⟩ := ahead.begun begun
  simp at begins

theorem Ahead.head (ahead : Ahead tail i s) (few : i ≤ 1) : s.pending.head? ≠ some .wait := by
  rw [ahead.pending]
  by_cases begun : i = 0
  · subst begun
    exact head_accesses ahead.known
  · obtain ⟨c, rest, rfl, -⟩ := ahead.begun begun
    obtain ⟨offset, value, next⟩ := c.accesses_begin few
    rw [List.head?_drop, List.flatMap_cons, Action.accesses,
      List.getElem?_append_left (by rw [Session.length_accesses]; omega), next]
    simp

theorem Ahead.through (ahead : Ahead tail i s) (through : s.pending = []) : tail = [] := by
  have short := ahead.pending.symm.trans through
  by_cases begun : i = 0
  · subst begun
    exact tail_eq_nil ahead.known short
  · obtain ⟨c, rest, rfl, -⟩ := ahead.begun begun
    have few := ahead.few
    have length := congrArg List.length short
    rw [List.length_drop, List.flatMap_cons, List.length_append, Action.accesses,
      Session.length_accesses, List.length_nil] at length
    omega

theorem Ahead.step (cycle : BusCycle) (ahead : Ahead tail i s) (few : i ≤ 1) :
    (s.step cycle).returned = s.returned ∧
      ((∃ i' ≤ i + 1, Ahead tail i' (s.step cycle)) ∨
        ∃ rest, tail = .startCpu :: rest ∧ Running rest (s.step cycle)) := by
  have pending := ahead.pending
  cases now : s.current cycle with
  | none =>
    obtain ⟨waits, returned⟩ := Session.step_none now
    refine ⟨returned, Or.inl ⟨i, Nat.le_succ i, ?_⟩⟩
    exact
      { bracketed := ahead.bracketed
        known := ahead.known
        pending := waits.trans pending
        few := ahead.few
        rest := fun zero => (Session.step_slvReg0_none now).trans (ahead.rest zero)
        begun := fun begun => (Session.step_slvRegs_none now).symm ▸ ahead.begun begun }
  | some a =>
    obtain ⟨more, head⟩ := Session.pending_of_current now
    cases tail with
    | nil => simp [head] at pending
    | cons next rest =>
      cases next with
      | call c =>
        obtain ⟨offset, value, next⟩ := c.accesses_begin few
        have same : s.pending.head? = some (.writeReg offset value) := by
          rw [pending, List.head?_drop, List.flatMap_cons, Action.accesses,
            List.getElem?_append_left (by rw [Session.length_accesses]; omega), next]
        obtain rfl : a = .writeReg offset value := by simpa [head] using same
        obtain ⟨pops, returned⟩ := Session.step_writeReg now
        have registers : c.Registers (i + 1) (s.step cycle).slvRegs := by
          rw [Session.step_slvRegs_effect now]
          exact ahead.registers.effect next
        refine ⟨returned, Or.inl ⟨i + 1, le_rfl, ?_⟩⟩
        exact
          { bracketed := ahead.bracketed
            known := ahead.known
            pending := by rw [pops, pending, List.tail_drop]
            few := by omega
            rest := by omega
            begun := fun _ => ⟨c, rest, rfl, registers⟩ }
      | startCpu =>
        obtain rfl := ahead.not_startCpu
        obtain ⟨rfl, rfl⟩ : a = .writeReg regCmd cmdRun ∧ more = rest.flatMap Action.accesses := by
          simpa [head, Action.accesses] using pending
        obtain ⟨pops, returned⟩ := Session.step_writeReg now
        refine ⟨returned, Or.inr ⟨rest, rfl, ?_⟩⟩
        exact
          { bracketed := ahead.bracketed
            known := fun b member => ahead.known b (List.mem_cons_of_mem _ member)
            pending := by rw [pops, head]; rfl
            register := Session.step_slvReg0 now }
      | stopCpu => exact ahead.bracketed.elim
      | unknownCommand b => exact absurd (ahead.known _ List.mem_cons_self) (by simp [Action.known])

/-- While the processor is to run, the driver can only stop it. -/
theorem Running.step (cycle : BusCycle) (running : Running tail s) :
    (s.step cycle).returned = s.returned ∧
      (Running tail (s.step cycle) ∨
        ∃ rest, tail = .stopCpu :: rest ∧ Ahead rest 0 (s.step cycle)) := by
  have pending := running.pending
  cases now : s.current cycle with
  | none =>
    obtain ⟨waits, returned⟩ := Session.step_none now
    refine ⟨returned, Or.inl ?_⟩
    exact
      { bracketed := running.bracketed
        known := running.known
        pending := waits.trans pending
        register := (Session.step_slvReg0_none now).trans running.register }
  | some a =>
    obtain ⟨more, head⟩ := Session.pending_of_current now
    rcases running.bracketed.stops with rfl | ⟨rest, rfl, bracketed⟩
    · simp [head] at pending
    · obtain ⟨rfl, rfl⟩ : a = .writeReg regCmd cmdNone ∧ more = rest.flatMap Action.accesses := by
        simpa [head, Action.accesses] using pending
      obtain ⟨pops, returned⟩ := Session.step_writeReg now
      refine ⟨returned, Or.inr ⟨rest, rfl, ?_⟩⟩
      exact
        { bracketed := bracketed
          known := fun b member => running.known b (List.mem_cons_of_mem _ member)
          pending := by rw [pops, head]; rfl
          few := Nat.zero_le 2
          rest := fun _ => Session.step_slvReg0 now
          begun := absurd rfl }

end Position

end Tdt4255
