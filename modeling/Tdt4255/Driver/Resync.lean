import Tdt4255.Driver.Runs

/-! The driver meets a peripheral in an unknown state: the first call brings
the two into step again. -/

namespace Tdt4255

def ComState.all : List ComState := [.idle, .wi, .wd, .rd1, .rd2, .rd3, .run, .done]

theorem ComState.mem_all (state : ComState) : state ∈ ComState.all := by
  cases state <;> decide

namespace Call

/-- Where `com` may be after so many accesses, wherever it was before. -/
def regained : Call → Nat → List ComState
  | .readData _, 3 => [.rd1, .rd2, .rd3, .done]
  | .readData _, 4 => [.rd2, .rd3, .done]
  | .readData _, 5 => [.rd3, .done, .idle]
  | .readData _, 6 => [.done, .idle]
  | .readData _, _ => ComState.all
  | c, 4 => [.idle, c.busy, .rd2, .rd3, .done]
  | _, 5 => [.rd3, .done, .idle]
  | _, 6 => [.done, .idle]
  | _, _ => ComState.all

/-- From here on the command register holds what the driver has written. -/
def commanded : Call → Nat
  | .readData _ => 2
  | _ => 3

def words : Call → Nat
  | .readData _ => 1
  | _ => 0

variable {c : Call} {i : Nat} {state : ComState} {command : Word}

theorem next_regained (allowed : state ∈ c.regained i) (bound : i ≤ 6)
    (register : c.commanded ≤ i → command = if c.held i then c.command else cmdNone) :
    state.next command ∈ c.regained i := by
  cases c <;> interval_cases i <;>
    first
    | exact ComState.mem_all _
    | (obtain rfl := register le_add_self
       fin_cases allowed <;> simp [held, Call.command, busy, regained] <;> decide)

/-- What `wait` waits for is that `com` is through with what it was at. -/
theorem next_regained_succ (allowed : state ∈ c.regained i) (bound : i < 6)
    (register : c.commanded ≤ i → command = if c.held i then c.command else cmdNone)
    (ready : c.accesses[i]? = some .wait → state = .done ∨ state = .idle) :
    state.next command ∈ c.regained (i + 1) := by
  cases c <;> interval_cases i <;>
    first
    | exact ComState.mem_all _
    | (obtain rfl := register le_add_self
       first
       | rcases ready rfl with rfl | rfl <;> simp [held, Call.command, regained] <;> decide
       | fin_cases allowed <;> simp [held, Call.command, busy, regained] <;> decide)

theorem register_effect {a : Access} {regs : Word × Word × Word} (next : c.accesses[i]? = some a)
    (register : c.commanded ≤ i → regs.1 = if c.held i then c.command else cmdNone)
    (begun : c.commanded ≤ i + 1) :
    (a.effect regs).1 = if c.held (i + 1) then c.command else cmdNone := by
  cases c <;> rcases i with _ | _ | _ | _ | _ | _ | i <;>
    simp only [Call.accesses, Tdt4255.writeData, Tdt4255.readData, List.getElem?_cons_succ,
      List.getElem?_cons_zero, List.getElem?_nil, Option.some.injEq, reduceCtorEq] at next <;>
    subst next <;>
    simp_all [Access.effect, chipEnable_regCmd, chipEnable_regAddrIn, chipEnable_regDataIn,
      Call.held, Call.command, commanded]

theorem regained_five (allowed : state ∈ c.regained 5) :
    state = .rd3 ∨ state = .done ∨ state = .idle := by
  cases c <;> simpa [regained] using allowed

theorem regained_six (allowed : state ∈ c.regained 6) : state = .done ∨ state = .idle := by
  cases c <;> simpa [regained] using allowed

end Call

namespace Session

/-- The driver is in its first call, `i` accesses far. -/
structure Regaining (c : Call) (i : Nat) (s : Session) : Prop where
  pending : s.pending = c.accesses.drop i
  register : c.commanded ≤ i → s.logic.slvReg0 = if c.held i then c.command else cmdNone
  state : s.com.state ∈ c.regained i
  shown : 0 < i → s.com.status = statusDone → s.com.state = .done ∨ s.com.state = .idle
  still : i = 6 → s.com.out.writeEnable = false ∧ s.com.out.processorEnable = false
  returned : s.returned.length = if 4 ≤ i then c.words else 0

section Regaining

variable {c : Call} {i : Nat} {cycle : BusCycle} {s : Session}

theorem step_shown (cycle : BusCycle) (s : Session) (shown : (s.step cycle).com.status = statusDone) :
    (s.step cycle).com.state = .done ∨ (s.step cycle).com.state = .idle := by
  rw [step_state, (step_status cycle s).mp shown]
  unfold ComState.next
  split_ifs <;> simp

theorem step_still (cycle : BusCycle)
    (state : s.com.state = .rd3 ∨ s.com.state = .done ∨ s.com.state = .idle) :
    (s.step cycle).com.out.writeEnable = false ∧
      (s.step cycle).com.out.processorEnable = false := by
  rw [← ComOut.stores_eq_nil_iff, ← Bool.not_eq_true, step_com, Com.risingEdge_stores,
    Com.processorEnable_iff]
  rcases state with state | state | state <;> rw [state] <;> exact ⟨rfl, by decide⟩

theorem Regaining.stay (regaining : Regaining c i s) (bound : i ≤ 6) (stalls : s.Stalls cycle) :
    Regaining c i (s.step cycle) := by
  obtain ⟨pending, registers, returned⟩ := step_of_stalls stalls
  have same : (s.step cycle).logic.slvReg0 = s.logic.slvReg0 := congrArg Prod.fst registers
  exact
    { pending := pending.trans regaining.pending
      register := fun begun => same.trans (regaining.register begun)
      state := by
        rw [step_state]
        exact Call.next_regained regaining.state bound regaining.register
      shown := fun _ => step_shown cycle s
      still := by
        rintro rfl
        exact step_still cycle (Or.inr (Call.regained_six regaining.state))
      returned := by rw [returned, regaining.returned] }

theorem length_returned_succ {a : Access} (next : c.accesses[i]? = some a) :
    (if 4 ≤ i then c.words else 0) + a.words = if 4 ≤ i + 1 then c.words else 0 := by
  cases c <;> rcases i with _ | _ | _ | _ | _ | _ | i <;>
    simp only [Call.accesses, Tdt4255.writeData, Tdt4255.readData, List.getElem?_cons_succ,
      List.getElem?_cons_zero, List.getElem?_nil, Option.some.injEq, reduceCtorEq] at next <;>
    subst next <;> simp [Call.words, Access.words]

theorem Regaining.head (regaining : Regaining c i s) : s.pending.head? = c.accesses[i]? := by
  rw [regaining.pending, List.head?_drop]

theorem Regaining.advance (regaining : Regaining c i s) (bound : i < 6) (goes : ¬ s.Stalls cycle) :
    (s.step cycle).pending = s.pending.tail ∧ Regaining c (i + 1) (s.step cycle) := by
  obtain ⟨a, now⟩ := Option.ne_none_iff_exists'.mp fun none => goes (Or.inl none)
  have next : c.accesses[i]? = some a := by
    rw [← regaining.head]
    unfold current at now
    split_ifs at now
    exact now
  have ready : a = .wait → s.com.status = statusDone := by
    rintro rfl
    by_contra early
    exact goes (Or.inr ⟨now, early⟩)
  have begun : c.accesses[i]? = some .wait → 0 < i := by
    intro waits
    by_contra zero
    obtain rfl : i = 0 := by omega
    rw [c.accesses_eq] at waits
    simp at waits
  have idle : c.accesses[i]? = some .wait → s.com.state = .done ∨ s.com.state = .idle :=
    fun waits => regaining.shown (begun waits) (ready (Option.some.inj (next.symm.trans waits)))
  obtain ⟨pops, returned⟩ := step_of_current now ready
  refine ⟨pops, ?_⟩
  exact
    { pending := by rw [pops, regaining.pending, List.tail_drop]
      register := fun begun => by
        rw [step_slvReg0 now]
        exact Call.register_effect next regaining.register begun
      state := by
        rw [step_state]
        exact Call.next_regained_succ regaining.state bound regaining.register idle
      shown := fun _ => step_shown cycle s
      still := fun last => by
        obtain rfl : i = 5 := by omega
        exact step_still cycle (Call.regained_five regaining.state)
      returned := by rw [returned, regaining.returned, length_returned_succ next] }

theorem Regaining.step (cycle : BusCycle) (regaining : Regaining c i s) (bound : i ≤ 6) :
    ∃ i' ≤ 6, Regaining c i' (s.step cycle) := by
  by_cases stalls : s.Stalls cycle
  · exact ⟨i, bound, regaining.stay bound stalls⟩
  · rcases bound.lt_or_eq with before | rfl
    · exact ⟨i + 1, before, (regaining.advance before stalls).2⟩
    · refine absurd (Or.inl ?_) stalls
      have short : c.accesses.drop 6 = [] := by
        rw [List.drop_eq_nil_iff, length_accesses]
      rw [current, regaining.pending, short]
      simp

/-- How many cycles `wait` needs with its command in place. -/
def regainDistance (c : Com) : Nat :=
  match c.state with
  | .run => 6
  | .wi | .wd => 2
  | _ => waitDistance c

theorem regainDistance_le (c : Com) : regainDistance c ≤ 6 := by
  have within := waitDistance_le c
  unfold regainDistance
  split <;> omega

theorem regainDistance_pos {c : Com} (early : c.status ≠ statusDone) : 0 < regainDistance c := by
  unfold regainDistance waitDistance
  cases c.state <;> simp [early]

theorem regainDistance_step (cycle : BusCycle) (register : s.logic.slvReg0 = cmdRd) :
    regainDistance (s.step cycle).com ≤ regainDistance s.com - 1 := by
  have state := step_state cycle s
  have status := step_status cycle s
  rw [register] at state
  unfold regainDistance waitDistance
  cases before : s.com.state <;> rw [before] at state status <;> rw [state] <;>
    simp [ComState.next, cmdRd, cmdWi, cmdWd, cmdRun, cmdNone, status]

/-- Seven for every access still to be made. -/
def regainRank (s : Session) : Nat :=
  7 * s.pending.length + if s.pending.head? = some .wait then regainDistance s.com else 0

theorem Regaining.rank_step (regaining : Regaining c i s) (bound : i ≤ 6) :
    (s.step cycle).regainRank ≤ s.regainRank ∧
      (cycle.fires = true → s.pending ≠ [] → (s.step cycle).regainRank < s.regainRank) := by
  by_cases stalls : s.Stalls cycle
  · obtain ⟨pending, -, -⟩ := step_of_stalls stalls
    unfold regainRank
    rw [pending]
    by_cases waits : s.pending.head? = some .wait
    · have register : s.logic.slvReg0 = cmdRd := by
        have at_wait := regaining.head.symm.trans waits
        have held := regaining.register
        cases c <;> rcases i with _ | _ | _ | _ | _ | _ | i <;>
          simp [Call.accesses, Tdt4255.writeData, Tdt4255.readData] at at_wait
        exact held le_rfl
      have falls := regainDistance_step cycle register
      simp only [if_pos waits]
      refine ⟨by omega, fun fires _ => ?_⟩
      have now : s.current cycle = some .wait := by rw [current, if_pos fires, waits]
      have early : s.com.status ≠ statusDone := by simpa [Stalls, now] using stalls
      have positive := regainDistance_pos early
      omega
    · simp only [if_neg waits]
      refine ⟨le_rfl, fun fires more => ?_⟩
      rcases stalls with none | ⟨wait, -⟩
      · rw [current, if_pos fires, List.head?_eq_none_iff] at none
        exact absurd none more
      · rw [current, if_pos fires] at wait
        exact absurd wait waits
  · have before : i < 6 := by
      by_contra last
      obtain rfl : i = 6 := by omega
      refine stalls (Or.inl ?_)
      rw [current, regaining.head, List.getElem?_eq_none (length_accesses c).le, ite_self]
    obtain ⟨pops, -⟩ := regaining.advance before stalls
    have shorter : (s.step cycle).pending.length + 1 = s.pending.length := by
      rw [pops, List.length_tail, regaining.pending, List.length_drop, length_accesses]
      omega
    have next := regainDistance_le (s.step cycle).com
    have lower : (s.step cycle).regainRank < s.regainRank := by
      unfold regainRank
      split_ifs <;> omega
    exact ⟨lower.le, fun _ _ => lower⟩

end Regaining

/-- From any state a call comes to its end, with `com` at rest. -/
theorem call_ends (c : Call) {later : List Access} (s : Session)
    (pending : s.pending = c.accesses ++ later) {cycles : Nat → BusCycle}
    (often : ∀ k, ∃ j, k ≤ j ∧ (cycles j).fires = true) :
    ∃ k s₀, Regaining c 6 s₀ ∧ Framed s.returned later s₀ (Sampled.run step cycles s k) := by
  let alone : Session := { pending := c.accesses, returned := [], logic := s.logic, log := [] }
  have start : Regaining c 0 alone :=
    { pending := rfl
      register := by cases c <;> simp [Call.commanded]
      state := by cases c <;> exact ComState.mem_all _
      shown := by simp
      still := by simp
      returned := rfl }
  have begins : ∃ i ≤ 6, Regaining c i alone := ⟨0, Nat.zero_le 6, start⟩
  have keep : ∀ cycle s, (∃ i ≤ 6, Regaining c i s) → ∃ i ≤ 6, Regaining c i (s.step cycle) := by
    rintro cycle s ⟨i, bound, regaining⟩
    exact regaining.step cycle bound
  have reached : ∃ k, (Sampled.run step cycles alone k).pending = [] := by
    refine Sampled.run_reaches step (fun s => s.pending = []) (fun cycle => cycle.fires = true)
      regainRank keep ?_ ?_ often begins
    · rintro cycle s ⟨i, bound, regaining⟩
      exact (regaining.rank_step bound).1
    · rintro cycle s ⟨i, bound, regaining⟩
      exact (regaining.rank_step bound).2
  have framed : Framed s.returned later alone s :=
    { logic := rfl
      pending := pending
      returned := (List.append_nil _).symm }
  have related : ∀ cycle s₀ s', ((∃ i ≤ 6, Regaining c i s₀) ∧ Framed s.returned later s₀ s') →
      s₀.pending ≠ [] → (∃ i ≤ 6, Regaining c i (s₀.step cycle)) ∧
        Framed s.returned later (s₀.step cycle) (s'.step cycle) :=
    fun cycle _ _ both more => ⟨keep cycle _ both.1, both.2.step cycle fun _ _ => more⟩
  obtain ⟨k, through, ⟨i, bound, regaining⟩, framed⟩ :=
    Sampled.run_related_first step related ⟨begins, framed⟩ reached
  refine ⟨k, _, ?_, framed⟩
  have last : 6 ≤ i := by
    rw [regaining.pending, List.drop_eq_nil_iff, length_accesses] at through
    exact through
  rwa [show i = 6 by omega] at regaining

theorem Regaining.framed_pending {c : Call} {words : List Word} {later : List Access}
    {s₀ s : Session} (regaining : Regaining c 6 s₀) (framed : Framed words later s₀ s) :
    s.pending = later := by
  rw [framed.pending, regaining.pending, List.drop_eq_nil_of_le (length_accesses c).le]
  rfl

theorem write_ends {offset : Nat} {value : Word} {later : List Access} (s : Session)
    (pending : s.pending = .writeReg offset value :: later) {cycles : Nat → BusCycle}
    (often : ∀ k, ∃ j, k ≤ j ∧ (cycles j).fires = true) :
    ∃ k, (Sampled.run step cycles s k).pending = later ∧
      (Sampled.run step cycles s k).returned = s.returned := by
  obtain ⟨n, -, urgent⟩ := often 0
  induction n generalizing s cycles with
  | zero =>
    have now : s.current (cycles 0) = some (.writeReg offset value) := by
      rw [current, if_pos urgent, pending]
      rfl
    obtain ⟨pops, returned⟩ := step_writeReg now
    exact ⟨1, by rw [Sampled.run_succ, Sampled.run_zero, pops, pending]; rfl, returned⟩
  | succ n ih =>
    by_cases fires : (cycles 0).fires = true
    · have now : s.current (cycles 0) = some (.writeReg offset value) := by
        rw [current, if_pos fires, pending]
        rfl
      obtain ⟨pops, returned⟩ := step_writeReg now
      exact ⟨1, by rw [Sampled.run_succ, Sampled.run_zero, pops, pending]; rfl, returned⟩
    · have now : s.current (cycles 0) = none := if_neg fires
      obtain ⟨waits, returned⟩ := step_none now
      have oftenLater := Sampled.often_add (p := fun cycle : BusCycle => cycle.fires = true) often 1
      obtain ⟨k, through, same⟩ := ih (s.step (cycles 0)) (waits.trans pending)
        oftenLater (by rwa [Nat.add_comm 1 n])
      refine ⟨1 + k, ?_, ?_⟩
      · rw [Sampled.run_add]
        exact through
      · rw [Sampled.run_add]
        exact same.trans returned

end Session

/-- The driver begins with the peripheral as it finds it. -/
def Session.meet (actions : List Action) (u : UserLogic) : Session where
  pending := actions.flatMap Action.accesses
  returned := []
  logic := u
  log := []

def Action.words : Action → Nat
  | .call c => c.words
  | _ => 0

/-- No state of the peripheral can hold the driver up for ever. -/
theorem Session.actions_end (actions : List Action) {later : List Access} (s : Session)
    (pending : s.pending = actions.flatMap Action.accesses ++ later) {cycles : Nat → BusCycle}
    (often : ∀ k, ∃ j, k ≤ j ∧ (cycles j).fires = true) :
    ∃ k, (Sampled.run Session.step cycles s k).pending = later ∧
      (Sampled.run Session.step cycles s k).returned.length =
        s.returned.length + (actions.map Action.words).sum := by
  induction actions generalizing s cycles with
  | nil => exact ⟨0, pending, rfl⟩
  | cons a rest ih =>
    rw [List.flatMap_cons, List.append_assoc] at pending
    have first : ∃ k, (Sampled.run Session.step cycles s k).pending =
        rest.flatMap Action.accesses ++ later ∧
        (Sampled.run Session.step cycles s k).returned.length = s.returned.length + a.words := by
      cases a with
      | call c =>
        obtain ⟨k, s₀, regaining, framed⟩ := Session.call_ends c s pending often
        refine ⟨k, regaining.framed_pending framed, ?_⟩
        rw [framed.returned, List.length_append, regaining.returned]
        rfl
      | startCpu =>
        obtain ⟨k, through, same⟩ := Session.write_ends s pending often
        exact ⟨k, through, congrArg List.length same⟩
      | stopCpu =>
        obtain ⟨k, through, same⟩ := Session.write_ends s pending often
        exact ⟨k, through, congrArg List.length same⟩
      | unknownCommand b => exact ⟨0, pending, rfl⟩
    obtain ⟨k, through, heard⟩ := first
    have oftenLater := Sampled.often_add (p := fun cycle : BusCycle => cycle.fires = true) often k
    obtain ⟨l, ends, words⟩ := ih _ through oftenLater
    refine ⟨k + l, ?_, ?_⟩
    · rw [Sampled.run_add]
      exact ends
    · rw [Sampled.run_add, words, heard, List.map_cons, List.sum_cons, Nat.add_assoc]

/-- `com` is idle or about to be, with nothing outstanding; its status may be
an old one. -/
structure Resting (start : Contents) (heard : List Word) (tail : List Action) (done : Bool) (i : Nat)
    (t : Traced) : Prop where
  contents : t.session.contents = start
  returned : t.session.returned = heard
  position : Ahead tail i t.session
  few : i ≤ if done then 0 else 1
  state : t.session.com.state = if done then .done else .idle
  still : t.session.com.out.writeEnable = false
  stopped : t.session.com.out.processorEnable = false
  trace : t.trace = []

section Resting

variable {start : Contents} {heard : List Word} {tail : List Action} {done : Bool} {i : Nat}
  {cycle : BusCycle} {t : Traced}

theorem Resting.begun (resting : Resting start heard tail done i t) : i ≤ 1 := by
  have few := resting.few
  cases done with
  | true => exact few.trans (Nat.zero_le 1)
  | false => exact few

theorem Resting.step_com (cycle : BusCycle) (resting : Resting start heard tail done i t) :
    (t.session.step cycle).com.state = .idle ∧
      (t.session.step cycle).com.out.writeEnable = false ∧
      (t.session.step cycle).com.out.processorEnable = false ∧
      (t.step cycle).trace = [] ∧ (t.session.step cycle).contents = start := by
  obtain ⟨still, stopped⟩ := Session.step_still (s := t.session) cycle (by
    rw [resting.state]
    cases done <;> simp)
  refine ⟨?_, still, stopped, ?_, ?_⟩
  · rw [Session.step_state, resting.state, resting.position.quiet resting.begun]
    cases done <;> decide
  · rw [Traced.step, resting.trace, portEvents, (ComOut.stores_eq_nil_iff _).mpr still, stopped,
      resting.stopped]
    rfl
  · rw [Session.step_contents, memoryWrites_stopped resting.stopped,
      (ComOut.stores_eq_nil_iff _).mpr resting.still]
    exact resting.contents

theorem Resting.step (cycle : BusCycle) (resting : Resting start heard tail done i t) :
    (done = true ∧ ∃ i', Resting start heard tail false i' (t.step cycle)) ∨
      Phase start heard tail (t.step cycle) := by
  obtain ⟨state, still, stopped, trace, contents⟩ := resting.step_com cycle
  obtain ⟨returned, ⟨i', further, ahead⟩ | ⟨rest, rfl, running⟩⟩ :=
    resting.position.step cycle resting.begun
  · cases done with
    | true =>
      refine Or.inl ⟨rfl, i', ?_⟩
      exact
        { contents := contents
          returned := returned.trans resting.returned
          position := ahead
          few := further.trans (Nat.succ_le_succ resting.few)
          state := state
          still := still
          stopped := stopped
          trace := trace }
    | false =>
      have settled : Settled start heard [] tail i' (t.step cycle) :=
        { outcome := ⟨contents, returned.trans resting.returned⟩
          position := ahead
          state := state
          still := still
          stopped := stopped
          fresh := by
            rw [Traced.step_session, ne_eq, Session.step_status, resting.state]
            decide
          trace := trace }
      exact Or.inr settled.phase
  · have started : Started start heard [] rest false (t.step cycle) :=
      { coasting :=
          { state := state
            still := still
            register := running.register
            trace := by rw [trace, Traced.step_session, stopped]; rfl }
        outcome := ⟨[], by simp, contents, returned.trans resting.returned⟩
        position := running }
    exact Or.inr (.started started)

/-- It has settled after two cycles at most, unseen. -/
theorem Resting.settles (resting : Resting start heard tail done i t) (cycle cycle' : BusCycle) :
    ((t.step cycle).trace = [] ∨ Phase start heard tail (t.step cycle)) ∧
      Phase start heard tail ((t.step cycle).step cycle') := by
  rcases resting.step cycle with ⟨-, i', once⟩ | phase
  · rcases once.step cycle' with ⟨impossible, -⟩ | phase
    · exact absurd impossible (by decide)
    · exact ⟨Or.inl once.trace, phase⟩
  · exact ⟨Or.inr phase, phase.step cycle'⟩

theorem Resting.served (resting : Resting start heard tail done i t) {cycles : Nat → BusCycle}
    (often : ∀ k, ∃ j, k ≤ j ∧ (cycles j).fires = true) :
    (∀ j, (Sampled.run Traced.step cycles t j).trace <+: tail.flatMap Action.events) ∧
      ∃ l, ∀ j t', l ≤ j → t' = Sampled.run Traced.step cycles t j →
        t'.session.pending = [] ∧ t'.trace = tail.flatMap Action.events ∧
          Outcome start heard tail t'.session.contents t'.session.returned := by
  obtain ⟨once, twice⟩ := resting.settles (cycles 0) (cycles 1)
  have later : ∀ j, Sampled.run Traced.step cycles t (2 + j) =
      Sampled.run Traced.step (fun n => cycles (2 + n)) ((t.step (cycles 0)).step (cycles 1)) j :=
    fun j => Sampled.run_add Traced.step cycles t 2 j
  have always := Sampled.run_invariant Traced.step (fun cycle _ phase => Phase.step cycle phase)
    (fun n => cycles (2 + n)) twice
  constructor
  · intro j
    match j with
    | 0 => exact resting.trace ▸ List.nil_prefix
    | 1 =>
      rcases once with silent | phase
      · exact silent ▸ List.nil_prefix
      · exact phase.trace
    | j + 2 =>
      rw [Nat.add_comm j 2, later]
      exact (always j).trace
  · have oftenLater := Sampled.often_add (p := fun cycle : BusCycle => cycle.fires = true) often 2
    obtain ⟨l, complete⟩ := twice.complete oftenLater
    refine ⟨2 + l, fun j t' after now => complete (j - 2) t' (by omega) ?_⟩
    rw [now, ← later, show 2 + (j - 2) = j by omega]

end Resting

namespace Session

variable {c : Call} {rest : List Action} {s₀ s : Session}

theorem Regaining.resting {words : List Word} (regaining : Regaining c 6 s₀)
    (framed : Framed words (rest.flatMap Action.accesses) s₀ s) (bracketed : Bracketed false rest) :
    ∃ done, Resting s.contents s.returned (rest.filter Action.known) done 0
      { session := s, trace := [] } := by
  have com : s.com = s₀.com := congrArg (·.loader.com) framed.logic
  have position : Ahead (rest.filter Action.known) 0 s :=
    { bracketed := bracketed.filter_known
      known := fun _ member => (List.mem_filter.mp member).2
      pending := by
        rw [regaining.framed_pending framed, flatMap_known fun _ => rfl]
        rfl
      few := Nat.zero_le 2
      rest := fun _ => by
        rw [framed.logic, regaining.register (by cases c <;> exact le_add_self)]
        cases c <;> rfl
      begun := absurd rfl }
  refine ⟨decide (s.com.state = .done), ?_⟩
  exact
    { contents := rfl
      returned := rfl
      position := position
      few := Nat.zero_le _
      state := by
        rw [com]
        rcases Call.regained_six regaining.state with state | state <;> simp [state]
      still := by rw [com]; exact (regaining.still rfl).1
      stopped := by rw [com]; exact (regaining.still rfl).2
      trace := rfl }

end Session

theorem Bracketed.after_call {running : Bool} {before rest : List Action} {c : Call}
    (bracketed : Bracketed running (before ++ .call c :: rest)) : Bracketed false rest := by
  induction before generalizing running with
  | nil =>
    cases running with
    | false => exact bracketed
    | true => exact bracketed.elim
  | cons a before ih =>
    cases running <;> cases a <;>
      first | exact ih bracketed | exact bracketed.elim | exact ih bracketed.2

/-- At the end of any call the driver and `com` are in step. -/
theorem Session.resynchronises (before rest : List Action) (c : Call) (s : Session)
    (pending : s.pending = (before ++ .call c :: rest).flatMap Action.accesses)
    (bracketed : Bracketed false rest) {cycles : Nat → BusCycle}
    (often : ∀ k, ∃ j, k ≤ j ∧ (cycles j).fires = true) :
    ∃ k s', s' = Sampled.run Session.step cycles s k ∧ s'.pending = rest.flatMap Action.accesses ∧
      s'.returned.length =
        s.returned.length + ((before ++ [Action.call c]).map Action.words).sum ∧
      (∀ j, (Sampled.run Traced.step (fun n => cycles (k + n)) { session := s', trace := [] } j).trace <+:
        rest.flatMap Action.events) ∧
      ∃ l, ∀ j t, l ≤ j →
        t = Sampled.run Traced.step (fun n => cycles (k + n)) { session := s', trace := [] } j →
        t.session.pending = [] ∧ t.trace = rest.flatMap Action.events ∧
          Outcome s'.contents s'.returned rest t.session.contents t.session.returned := by
  rw [List.flatMap_append, List.flatMap_cons] at pending
  obtain ⟨k, through, heard⟩ := s.actions_end before pending often
  have oftenLater := Sampled.often_add (p := fun cycle : BusCycle => cycle.fires = true) often k
  obtain ⟨l, s₀, regaining, framed⟩ := Session.call_ends c _ through oftenLater
  rw [← Sampled.run_add] at framed
  obtain ⟨done, resting⟩ := regaining.resting framed bracketed
  have events := flatMap_known (f := Action.events) (fun _ => rfl) rest
  obtain ⟨prefixes, n, complete⟩ := resting.served
    (Sampled.often_add (p := fun cycle : BusCycle => cycle.fires = true) often (k + l))
  rw [events] at prefixes complete
  refine ⟨k + l, _, rfl, regaining.framed_pending framed, ?_, prefixes, n, fun j t after now => ?_⟩
  · rw [framed.returned, List.length_append, heard, regaining.returned, List.map_append,
      List.sum_append, Nat.add_assoc]
    simp [Action.words]
  · obtain ⟨through, trace, outcome⟩ := complete j t after now
    exact ⟨through, trace, (outcome_known _ _ _ _ _).mp outcome⟩

/-- Whatever the peripheral was left in, running or half way through a call
that nobody waits for, and whatever `main` did before: at the end of any call
the two are in step. The effect of that call may be lost and its word may be
wrong, but from there on everything is done once and in order. -/
theorem calls_resynchronise (input : List Byte) (before rest : List Action) (c : Call)
    (served : (main input).1 = before ++ .call c :: rest) (u : UserLogic)
    (cycles : Nat → BusCycle) (often : ∀ k, ∃ j, k ≤ j ∧ (cycles j).fires = true) :
    ∃ k s, s = Sampled.run Session.step cycles (Session.meet (main input).1 u) k ∧
      s.pending = rest.flatMap Action.accesses ∧
      s.returned.length = ((before ++ [Action.call c]).map Action.words).sum ∧
      (∀ j, (Sampled.run Traced.step (fun n => cycles (k + n)) { session := s, trace := [] } j).trace <+:
        rest.flatMap Action.events) ∧
      ∃ l, ∀ j t, l ≤ j →
        t = Sampled.run Traced.step (fun n => cycles (k + n)) { session := s, trace := [] } j →
        t.session.pending = [] ∧ t.trace = rest.flatMap Action.events ∧
          Outcome s.contents s.returned rest t.session.contents t.session.returned := by
  have bracketed : Bracketed false rest := (served ▸ main_bracketed input).after_call
  obtain ⟨k, s, reached, pending, heard, complete⟩ :=
    Session.resynchronises before rest c (Session.meet (main input).1 u)
      (congrArg (List.flatMap Action.accesses) served) bracketed often
  exact ⟨k, s, reached, pending, heard.trans (Nat.zero_add _), complete⟩

/-- Left running by a host that went away. -/
theorem calls_resynchronise_running :
    let empty : Memory 32 8 := { mem := fun _ => 0, addressReg := 0 }
    let u : UserLogic :=
      { slvReg0 := cmdRun
        slvReg1 := 0
        slvReg2 := 0
        loader :=
          { com :=
              { Com.afterReset with
                state := .run
                status := statusRun
                out := { ComOut.quiet with processorEnable := true } }
            mems := { imem := empty, dmem := empty } } }
    let cycle : BusCycle := { fires := true, proc := stubborn }
    let input : List Byte := [0x72#8, 0x07#8, 0x72#8, 0x07#8]
    ∃ k l s t, s = Sampled.run Session.step (fun _ => cycle) (Session.meet (main input).1 u) k ∧
      t = Sampled.run Traced.step (fun _ => cycle) { session := s, trace := [] } l ∧
      s.returned.length = 1 ∧ t.session.pending = [] ∧
      t.session.returned = s.returned ++ [s.contents .dmem 7#8] := by
  intro empty u cycle input
  obtain ⟨k, s, left, -, heard, -, l, complete⟩ :=
    calls_resynchronise input [] [.call (.readData 7)] (.readData 7) rfl u (fun _ => cycle) fun k => ⟨k, le_rfl, rfl⟩
  obtain ⟨through, -, -, returned⟩ := complete l _ le_rfl rfl
  exact ⟨k, l, s, _, left, rfl, heard, through, returned⟩

end Tdt4255
