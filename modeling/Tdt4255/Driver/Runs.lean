import Tdt4255.Driver.Position

/-! Sessions in which the driver also starts and stops the processor. -/

namespace Tdt4255

/-- The edge of the run signal between two levels. -/
def toggle : Bool → Bool → List PortEvent
  | false, true => [.enable]
  | true, false => [.disable]
  | _, _ => []

def portEvents (before after : ComOut) : List PortEvent :=
  after.stores.map .store ++ toggle before.processorEnable after.processorEnable

/-- A session and what its `com` has been seen to do. -/
structure Traced where
  session : Session
  trace : List PortEvent

def Traced.step (cycle : BusCycle) (t : Traced) : Traced where
  session := t.session.step cycle
  trace := t.trace ++ portEvents t.session.com.out (t.session.step cycle).com.out

@[simp] theorem Traced.step_session (cycle : BusCycle) (t : Traced) :
    (t.step cycle).session = t.session.step cycle := rfl

/-- `com` is idle or running and has no store to make. What it has yet to be
seen to do lies between its run signal, its state and its command. -/
structure Coasting (events : List PortEvent) (running command : Bool) (t : Traced) : Prop where
  state : t.session.com.state = if running then .run else .idle
  still : t.session.com.out.writeEnable = false
  register : t.session.logic.slvReg0 = if command then cmdRun else cmdNone
  trace : t.trace ++ toggle t.session.com.out.processorEnable running ++ toggle running command =
    events

section Coasting

variable {events : List PortEvent} {running command command' : Bool} {cycle : BusCycle} {t : Traced}

theorem Coasting.next (coasting : Coasting events running command t) :
    t.session.com.state.next t.session.logic.slvReg0 = if command then .run else .idle := by
  rw [coasting.state, coasting.register]
  cases running <;> cases command <;> decide

theorem Coasting.step_com (cycle : BusCycle) (coasting : Coasting events running command t) :
    (t.step cycle).session.com.state = (if command then .run else .idle) ∧
      (t.step cycle).session.com.out.writeEnable = false ∧
      (t.step cycle).session.com.out.processorEnable = running ∧
      (t.step cycle).trace = t.trace ++ toggle t.session.com.out.processorEnable running := by
  have still : (t.session.step cycle).com.out.writeEnable = false := by
    rw [← ComOut.stores_eq_nil_iff, Session.step_com, Com.risingEdge_stores, coasting.state]
    cases running <;> rfl
  have enabled : (t.session.step cycle).com.out.processorEnable = running := by
    rw [Session.step_com, Bool.eq_iff_iff, Com.processorEnable_iff, coasting.state]
    cases running <;> simp
  refine ⟨(Session.step_state cycle t.session).trans coasting.next, still, enabled, ?_⟩
  rw [Traced.step, portEvents, (ComOut.stores_eq_nil_iff _).mpr still, enabled]
  rfl

/-- Signal, state and command are three stages of one register. -/
theorem Coasting.step (coasting : Coasting events running command t)
    (written : (t.session.step cycle).logic.slvReg0 = if command' then cmdRun else cmdNone) :
    Coasting (events ++ toggle command command') command command' (t.step cycle) := by
  obtain ⟨state, still, enabled, seen⟩ := coasting.step_com cycle
  exact ⟨state, still, written, by rw [seen, enabled, coasting.trace]⟩

end Coasting

/-- The driver has started the processor. -/
structure Started (start : Contents) (heard : List Word) (past tail : List Action) (running : Bool)
    (t : Traced) : Prop where
  coasting : Coasting ((past ++ [Action.startCpu]).flatMap Action.events) running true t
  outcome : Outcome start heard (past ++ [.startCpu]) t.session.contents t.session.returned
  position : Running tail t.session

/-- The driver has stopped the processor and may have begun the next call,
but `com` has not settled. -/
structure Stopped (start : Contents) (heard : List Word) (past tail : List Action) (running : Bool)
    (i : Nat) (t : Traced) : Prop where
  coasting : Coasting ((past ++ [Action.startCpu, .stopCpu]).flatMap Action.events) running false t
  outcome : Outcome start heard (past ++ [.startCpu]) t.session.contents t.session.returned
  position : Ahead tail i t.session
  behind : i ≤ if running then 0 else 1

/-- `com` is idle with nothing outstanding, and the driver is at most two
accesses into the next call. -/
structure Settled (start : Contents) (heard : List Word) (past tail : List Action) (i : Nat)
    (t : Traced) : Prop where
  outcome : Outcome start heard past t.session.contents t.session.returned
  position : Ahead tail i t.session
  state : t.session.com.state = .idle
  still : t.session.com.out.writeEnable = false
  stopped : t.session.com.out.processorEnable = false
  fresh : t.session.com.status ≠ statusDone
  trace : t.trace = past.flatMap Action.events

/-- The driver is in a block of calls; what it did before has led to `m`. -/
structure Serving (start m : Contents) (heard words : List Word) (past : List Action)
    (calls : List Call) (tail : List Action) (s₀ : Session) (t : Traced) : Prop where
  outcome : Outcome start heard past m words
  progress : Session.Progress m calls s₀
  framed : Session.Framed words (tail.flatMap Action.accesses) s₀ t.session
  next : tail = [] ∨ ∃ rest, tail = .startCpu :: rest ∧ Bracketed true rest
  known : ∀ a ∈ tail, a.known = true
  trace : t.trace = past.flatMap Action.events ++ s₀.committed.map .store

/-- What a session has come to, after `start` with the words `heard`. -/
inductive Phase (start : Contents) (heard : List Word) : List Action → Traced → Prop
  | started {past tail : List Action} {running : Bool} {t : Traced}
    (started : Started start heard past tail running t) :
    Phase start heard (past ++ .startCpu :: tail) t
  | stopped {past tail : List Action} {running : Bool} {i : Nat} {t : Traced}
    (stopped : Stopped start heard past tail running i t) :
    Phase start heard (past ++ .startCpu :: .stopCpu :: tail) t
  | serving {m : Contents} {words : List Word} {past tail : List Action} {calls : List Call}
    {s₀ : Session} {t : Traced} (serving : Serving start m heard words past calls tail s₀ t) :
    Phase start heard (past ++ calls.map .call ++ tail) t

section Settled

variable {start : Contents} {heard : List Word} {past tail : List Action} {calls : List Call}
  {i : Nat} {t : Traced}

theorem flatMap_calls {α : Type} (f : Action → List α) (calls : List Call) :
    (calls.map Action.call).flatMap f = calls.flatMap fun c => f (.call c) := by
  rw [List.flatMap_map]

/-- Its calls alone. -/
def serve (calls : List Call) (i : Nat) (t : Traced) : Session where
  pending := (calls.flatMap Call.accesses).drop i
  returned := []
  logic := t.session.logic
  log := []

theorem Settled.sound (settled : Settled start heard past tail i t) :
    Session.Sound t.session.contents (serve calls i t) where
  contents := rfl
  stopped := settled.stopped
  settled := fun _ => (ComOut.stores_eq_nil_iff _).mpr settled.still
  stored := fun done => absurd done settled.fresh

theorem Settled.committed (settled : Settled start heard past tail i t) :
    (serve calls i t).committed = [] :=
  (ComOut.stores_eq_nil_iff _).mpr settled.still

theorem waiting_possible (c : Call) (few : i ≤ 2) : .waiting ∈ Stage.possible c i := by
  interval_cases i <;> cases c <;> simp [Stage.possible]

theorem Settled.begun (settled : Settled start heard past (calls.map .call ++ tail) i t)
    (next : tail = [] ∨ ∃ rest, tail = .startCpu :: rest ∧ Bracketed true rest) (begun : i ≠ 0) :
    ∃ c rest, calls = c :: rest := by
  obtain ⟨c, rest, begins, -⟩ := settled.position.begun begun
  cases calls with
  | nil => rcases next with rfl | ⟨rest, rfl, -⟩ <;> simp at begins
  | cons d calls => exact ⟨d, calls, rfl⟩

theorem Settled.progress (settled : Settled start heard past (calls.map .call ++ tail) i t)
    (next : tail = [] ∨ ∃ rest, tail = .startCpu :: rest ∧ Bracketed true rest) :
    Session.Progress t.session.contents calls (serve calls i t) := by
  have few := settled.position.few
  cases calls with
  | nil =>
    obtain rfl : i = 0 := by
      by_contra begun
      obtain ⟨c, rest, begins⟩ := settled.begun next begun
      simp at begins
    exact Or.inl
      { sound := settled.sound
        pending := rfl
        command := settled.position.rest rfl
        idle := settled.state
        committed := settled.committed
        returned := rfl }
  | cons c rest =>
    refine Or.inr ⟨[], c, rest, i, rfl, by omega, ?_⟩
    exact
      { sound := settled.sound
        pending := by
          rw [serve, List.flatMap_cons, List.drop_append_of_le_length]
          rw [Session.length_accesses]
          omega
        registers := settled.position.registers
        stage := ⟨.waiting, waiting_possible c few, settled.state, settled.committed, settled.fresh⟩
        returned := by rw [if_neg (by omega)]; rfl }

theorem Settled.phase (settled : Settled start heard past tail i t) :
    Phase start heard (past ++ tail) t := by
  have few := settled.position.few
  obtain ⟨calls, tail, rfl, next⟩ := settled.position.bracketed.split settled.position.known
  have enough : i ≤ (calls.flatMap Call.accesses).length := by
    by_cases begun : i = 0
    · omega
    · obtain ⟨c, rest, rfl⟩ := settled.begun next begun
      rw [List.flatMap_cons, List.length_append, Session.length_accesses]
      omega
  have serving : Serving start t.session.contents heard t.session.returned past calls tail
      (serve calls i t) t :=
    { outcome := settled.outcome
      progress := settled.progress next
      framed :=
        { logic := rfl
          pending := by
            rw [settled.position.pending, List.flatMap_append, flatMap_calls]
            exact List.drop_append_of_le_length enough
          returned := (List.append_nil _).symm }
      next := next
      known := fun a member => settled.position.known a (List.mem_append_right _ member)
      trace := by rw [settled.committed, settled.trace]; exact (List.append_nil _).symm }
  simpa using Phase.serving serving

end Settled

section Started

variable {start : Contents} {heard : List Word} {past tail : List Action} {events : List PortEvent}
  {running command : Bool} {i : Nat} {cycle : BusCycle} {t : Traced}

/-- Until the processor has halted it may change data memory. -/
theorem Coasting.outcome (coasting : Coasting events running command t)
    (outcome : Outcome start heard (past ++ [.startCpu]) t.session.contents t.session.returned)
    (returned : (t.session.step cycle).returned = t.session.returned) :
    Outcome start heard (past ++ [.startCpu]) (t.step cycle).session.contents
      (t.step cycle).session.returned := by
  rw [Traced.step_session, Session.step_contents, returned]
  exact outcome.runs (memoryWrites_still coasting.still _).2

theorem Started.step (started : Started start heard past tail running t) :
    Phase start heard (past ++ .startCpu :: tail) (t.step cycle) := by
  obtain ⟨returned, still | ⟨rest, rfl, stopped⟩⟩ := started.position.step cycle
  · have next : Coasting (_ ++ toggle true true) true true (t.step cycle) :=
      started.coasting.step still.register
    exact .started
      { coasting := by simpa [toggle] using next
        outcome := started.coasting.outcome started.outcome returned
        position := still }
  · have next : Coasting (_ ++ toggle true false) true false (t.step cycle) :=
      started.coasting.step (stopped.rest rfl)
    exact .stopped
      { coasting := by simpa [toggle, Action.events] using next
        outcome := started.coasting.outcome started.outcome returned
        position := stopped
        behind := le_rfl }

theorem Stopped.few (stopped : Stopped start heard past tail running i t) : i ≤ 1 := by
  have behind := stopped.behind
  cases running with
  | true => exact behind.trans (Nat.zero_le 1)
  | false => exact behind

/-- The last cycle in which the processor may store. -/
theorem Stopped.settle (stopped : Stopped start heard past tail false i t)
    (returned : (t.session.step cycle).returned = t.session.returned) {i' : Nat}
    (ahead : Ahead tail i' (t.session.step cycle)) :
    Settled start heard (past ++ [.startCpu, .stopCpu]) tail i' (t.step cycle) := by
  obtain ⟨state, still, stills, seen⟩ := stopped.coasting.step_com cycle
  exact
    { outcome := by simpa using (stopped.coasting.outcome stopped.outcome returned).stop
      position := ahead
      state := state
      still := still
      stopped := stills
      fresh := by
        rw [Traced.step_session, ne_eq, Session.step_status, stopped.coasting.state]
        decide
      trace := by simpa [toggle, seen] using stopped.coasting.trace }

theorem Stopped.step (stopped : Stopped start heard past tail running i t) :
    Phase start heard (past ++ .startCpu :: .stopCpu :: tail) (t.step cycle) := by
  obtain ⟨returned, ⟨i', further, ahead⟩ | ⟨rest, rfl, restarted⟩⟩ :=
    stopped.position.step cycle stopped.few
  · cases running with
    | true =>
      have few : i' ≤ 1 := further.trans (Nat.succ_le_succ stopped.behind)
      have next : Coasting (_ ++ toggle false false) false false (t.step cycle) :=
        stopped.coasting.step (ahead.quiet few)
      have halting : Stopped start heard past tail false i' (t.step cycle) :=
        { coasting := by simpa [toggle] using next
          outcome := stopped.coasting.outcome stopped.outcome returned
          position := ahead
          behind := few }
      exact .stopped halting
    | false => simpa using (stopped.settle returned ahead).phase
  · have next : Coasting (_ ++ toggle false true) false true (t.step cycle) :=
      stopped.coasting.step restarted.register
    have again : Started start heard (past ++ [.startCpu, .stopCpu]) rest false (t.step cycle) :=
      { coasting := by simpa [toggle, Action.events] using next
        outcome := by
          simpa using (stopped.coasting.outcome stopped.outcome returned).stop.start
        position := restarted }
    simpa using Phase.started again

end Started

theorem Session.Progress.trace {m : Contents} {calls : List Call} {s : Session}
    (progress : Session.Progress m calls s) (cycle : BusCycle) :
    (s.step cycle).committed.map PortEvent.store =
      s.committed.map .store ++ portEvents s.com.out (s.step cycle).com.out := by
  rw [Session.step_committed cycle progress.sound.stopped, portEvents, progress.sound.stopped,
    progress.step.sound.stopped, Session.step_com, Com.risingEdge_stores, List.map_append]
  simp [toggle]

section Serving

variable {start m : Contents} {heard words : List Word} {past tail : List Action}
  {calls : List Call} {s₀ : Session} {cycle : BusCycle} {t : Traced}

theorem Serving.goOn (serving : Serving start m heard words past calls tail s₀ t)
    (alike : cycle.fires = true → tail.flatMap Action.accesses ≠ [] → s₀.pending ≠ []) :
    Serving start m heard words past calls tail (s₀.step cycle) (t.step cycle) where
  outcome := serving.outcome
  progress := serving.progress.step
  framed := serving.framed.step cycle alike
  next := serving.next
  known := serving.known
  trace := by
    have before : t.session.com = s₀.com := congrArg (·.loader.com) serving.framed.logic
    have after : (t.session.step cycle).com = (s₀.step cycle).com :=
      congrArg (·.loader.com) (serving.framed.step cycle alike).logic
    rw [serving.progress.trace cycle, ← List.append_assoc, ← serving.trace, ← before, ← after]
    rfl

theorem Serving.coasting (serving : Serving start m heard words past calls tail s₀ t)
    (between : Session.Between m calls [] s₀) :
    Coasting ((past ++ calls.map Action.call).flatMap Action.events) false false t := by
  have com : t.session.com = s₀.com := congrArg (·.loader.com) serving.framed.logic
  refine ⟨?_, ?_, ?_, ?_⟩
  · rw [com]
    exact between.idle
  · rw [com, ← ComOut.stores_eq_nil_iff]
    exact between.sound.settled (by simp [between.idle])
  · rw [serving.framed.logic]
    exact between.command
  · rw [com, between.sound.stopped, serving.trace, between.committed, List.flatMap_append,
      flatMap_calls, List.map_flatMap]
    simp [toggle, Action.events]

theorem Serving.contents (serving : Serving start m heard words past calls tail s₀ t)
    (between : Session.Between m calls [] s₀) : t.session.contents = perform m calls := by
  rw [← between.contents, Session.contents, serving.framed.logic]
  rfl

/-- The block is through and the next access starts the processor. -/
theorem Serving.starts {rest : List Action}
    (serving : Serving start m heard words past calls (.startCpu :: rest) s₀ t)
    (bracketed : Bracketed true rest) (through : s₀.pending = []) (fires : cycle.fires = true) :
    Started start heard (past ++ calls.map .call) rest false (t.step cycle) := by
  have between := serving.progress.between through
  have coasting := serving.coasting between
  have pending := serving.framed.pending
  have now : t.session.current cycle = some (.writeReg regCmd cmdRun) := by
    rw [Session.current, if_pos fires, pending, through]
    rfl
  obtain ⟨pops, returned⟩ := Session.step_writeReg now
  have register : (t.session.step cycle).logic.slvReg0 = cmdRun := Session.step_slvReg0 now
  have silent : memoryWrites t.session.com.out cycle.proc = [] := by
    rw [show t.session.com = s₀.com from congrArg (·.loader.com) serving.framed.logic,
      memoryWrites_stopped between.sound.stopped, between.sound.settled (by simp [between.idle])]
  have next : Coasting (_ ++ toggle false true) false true (t.step cycle) := coasting.step register
  exact
    { coasting := by simpa [Action.events, toggle] using next
      outcome := by
        rw [Traced.step_session, Session.step_contents, silent, List.foldl_nil,
          serving.contents between, returned, serving.framed.returned, between.returned]
        exact (serving.outcome.append (.block m words calls)).start
      position :=
        { bracketed := bracketed
          known := fun b member => serving.known b (List.mem_cons_of_mem _ member)
          pending := by rw [Traced.step_session, pops, pending, through]; rfl
          register := register } }

end Serving

section Phase

variable {start : Contents} {heard : List Word} {actions : List Action} {cycle : BusCycle}
  {t : Traced}

theorem Phase.step (cycle : BusCycle) (phase : Phase start heard actions t) :
    Phase start heard actions (t.step cycle) := by
  cases phase with
  | started started => exact started.step
  | stopped stopped => exact stopped.step
  | @serving m words past tail calls s₀ _ serving =>
    by_cases alike : cycle.fires = true → tail.flatMap Action.accesses ≠ [] → s₀.pending ≠ []
    · exact .serving (serving.goOn alike)
    · push Not at alike
      obtain ⟨fires, more, through⟩ := alike
      rcases serving.next with rfl | ⟨rest, rfl, bracketed⟩
      · exact absurd rfl more
      · exact .started (serving.starts bracketed through fires)

theorem Phase.trace (phase : Phase start heard actions t) :
    t.trace <+: actions.flatMap Action.events := by
  have coasts : ∀ (past rest : List Action) {running command : Bool},
      Coasting (past.flatMap Action.events) running command t →
        t.trace <+: (past ++ rest).flatMap Action.events := by
    intro past rest running command coasting
    rw [List.flatMap_append, ← coasting.trace, List.append_assoc, List.append_assoc]
    exact List.prefix_append _ _
  cases phase with
  | @started past tail running _ started => simpa using coasts _ tail started.coasting
  | @stopped past tail running i _ stopped => simpa using coasts _ tail stopped.coasting
  | serving serving =>
    have served := serving.progress.committed.map PortEvent.store
    rw [serving.trace, List.flatMap_append, List.flatMap_append, flatMap_calls, List.append_assoc]
    refine (List.prefix_append_right_inj _).mpr (served.trans ?_)
    rw [List.map_flatMap]
    exact List.prefix_append _ _

/-- When the driver has nothing more to do, `com` still has to follow. -/
theorem Phase.through (phase : Phase start heard actions t) (through : t.session.pending = []) :
    (∃ running command, Coasting (actions.flatMap Action.events) running command t) ∧
      Outcome start heard actions t.session.contents t.session.returned := by
  cases phase with
  | @started past tail running _ started =>
    obtain rfl := tail_eq_nil started.position.known (started.position.pending.symm.trans through)
    exact ⟨⟨running, true, started.coasting⟩, started.outcome⟩
  | @stopped past tail running i _ stopped =>
    obtain rfl := stopped.position.through through
    exact ⟨⟨running, false, stopped.coasting⟩, by simpa using stopped.outcome.stop⟩
  | @serving m words past tail calls s₀ _ serving =>
    obtain ⟨finished, none⟩ := List.append_eq_nil_iff.mp (serving.framed.pending.symm.trans through)
    obtain rfl := tail_eq_nil serving.known none
    have between := serving.progress.between finished
    rw [List.append_nil]
    refine ⟨⟨false, false, serving.coasting between⟩, ?_⟩
    rw [serving.contents between, serving.framed.returned, between.returned]
    exact serving.outcome.append (.block m words calls)

theorem Phase.rank_step (phase : Phase start heard actions t) :
    (t.session.step cycle).rank ≤ t.session.rank ∧
      (cycle.fires = true → t.session.pending ≠ [] →
        (t.session.step cycle).rank < t.session.rank) := by
  cases phase with
  | started started =>
    refine Session.rank_step_of_head ?_
    rw [started.position.pending]
    exact head_accesses started.position.known
  | stopped stopped => exact Session.rank_step_of_head (stopped.position.head stopped.few)
  | @serving m words past tail calls s₀ _ serving =>
    have next : (tail.flatMap Action.accesses).head? ≠ some .wait :=
      head_accesses serving.known
    by_cases through : s₀.pending = []
    · refine Session.rank_step_of_head ?_
      rwa [serving.framed.pending, through, List.nil_append]
    · have framed := serving.framed.step cycle fun _ _ => through
      obtain ⟨falls, drops⟩ := serving.progress.rank_step cycle
      rw [serving.framed.rank next, framed.rank next]
      refine ⟨by omega, fun fires _ => ?_⟩
      have lower := drops fires through
      omega

end Phase

def Traced.begin (actions : List Action) (mems : Memories) : Traced where
  session :=
    { pending := actions.flatMap Action.accesses
      returned := []
      logic := .afterReset mems
      log := [] }
  trace := []

theorem Traced.begin_phase {actions : List Action} (bracketed : Bracketed false actions)
    (known : ∀ a ∈ actions, a.known = true) (mems : Memories) :
    Phase mems.contents [] actions (Traced.begin actions mems) := by
  have settled : Settled mems.contents [] [] actions 0 (Traced.begin actions mems) :=
    { outcome := ⟨rfl, rfl⟩
      position :=
        { bracketed := bracketed
          known := known
          pending := rfl
          few := Nat.zero_le 2
          rest := fun _ => rfl
          begun := absurd rfl }
      state := rfl
      still := rfl
      stopped := rfl
      fresh := (by decide : statusIdle ≠ statusDone)
      trace := rfl }
  exact settled.phase

/-- The driver is through and `com` has done all it was told. -/
structure Complete (events : List PortEvent) (command : Bool) (t : Traced) : Prop where
  coasting : Coasting events command command t
  enabled : t.session.com.out.processorEnable = command
  through : t.session.pending = []

section Complete

variable {events : List PortEvent} {running command : Bool} {cycle : BusCycle} {t : Traced}

theorem Coasting.step_through (cycle : BusCycle) (coasting : Coasting events running command t)
    (through : t.session.pending = []) :
    Coasting events command command (t.step cycle) ∧
      (t.session.step cycle).com.out.processorEnable = running ∧
      (t.session.step cycle).pending = [] := by
  have now : t.session.current cycle = none := by simp [Session.current, through]
  have next : Coasting (events ++ toggle command command) command command (t.step cycle) :=
    coasting.step ((Session.step_slvReg0_none now).trans coasting.register)
  have still : toggle command command = [] := by cases command <;> rfl
  rw [still, List.append_nil] at next
  exact ⟨next, (coasting.step_com cycle).2.2.1, (Session.step_none now).1.trans through⟩

theorem Complete.step (cycle : BusCycle) (complete : Complete events command t) :
    Complete events command (t.step cycle) := by
  obtain ⟨coasting, enabled, through⟩ := complete.coasting.step_through cycle complete.through
  exact ⟨coasting, enabled, through⟩

/-- Two more cycles are enough. -/
theorem Coasting.complete (cycle cycle' : BusCycle) (coasting : Coasting events running command t)
    (through : t.session.pending = []) : Complete events command ((t.step cycle).step cycle') := by
  obtain ⟨once, -, through⟩ := coasting.step_through cycle through
  obtain ⟨twice, enabled, through⟩ := once.step_through cycle' through
  exact ⟨twice, enabled, through⟩

theorem Complete.trace (complete : Complete events command t) : t.trace = events := by
  have seen := complete.coasting.trace
  have still : toggle command command = [] := by cases command <;> rfl
  simpa [complete.enabled, still] using seen

end Complete

theorem Traced.begin_known (actions : List Action) (mems : Memories) :
    Traced.begin (actions.filter Action.known) mems = Traced.begin actions mems := by
  rw [Traced.begin, Traced.begin, flatMap_known fun _ => rfl]

/-- Two cycles after the driver is through, `com` has done all it was told. -/
theorem Phase.complete_of {start : Contents} {heard : List Word} {actions : List Action} {t : Traced}
    (phase : Phase start heard actions t) {cycles : Nat → BusCycle} {k : Nat}
    (through : (Sampled.run Traced.step cycles t k).session.pending = []) (j : Nat) (t' : Traced)
    (later : k + 2 ≤ j) (reached : t' = Sampled.run Traced.step cycles t j) :
    t'.session.pending = [] ∧ t'.trace = actions.flatMap Action.events ∧
      Outcome start heard actions t'.session.contents t'.session.returned := by
  have always := Sampled.run_invariant Traced.step
    (fun cycle _ phase => Phase.step cycle phase) cycles phase
  obtain ⟨⟨running, command, coasting⟩, -⟩ := (always k).through through
  have complete : Complete (actions.flatMap Action.events) command t' := by
    rw [reached]
    induction j, later using Nat.le_induction generalizing t' with
    | base => exact coasting.complete _ _ through
    | succ j _ ih => exact (ih _ rfl).step _
  refine ⟨complete.through, complete.trace, ?_⟩
  have outcome := ((always j).through (reached ▸ complete.through)).2
  rwa [← reached] at outcome

theorem Phase.complete {start : Contents} {heard : List Word} {actions : List Action} {t : Traced}
    (phase : Phase start heard actions t) {cycles : Nat → BusCycle}
    (often : ∀ k, ∃ j, k ≤ j ∧ (cycles j).fires = true) :
    ∃ k, ∀ j t', k ≤ j → t' = Sampled.run Traced.step cycles t j →
      t'.session.pending = [] ∧ t'.trace = actions.flatMap Action.events ∧
        Outcome start heard actions t'.session.contents t'.session.returned := by
  obtain ⟨k, through⟩ := Sampled.run_reaches Traced.step (fun t => t.session.pending = [])
    (fun cycle => cycle.fires = true) (fun t => t.session.rank)
    (fun cycle _ phase => Phase.step cycle phase) (fun _ _ phase => phase.rank_step.1)
    (fun _ _ phase => phase.rank_step.2) often phase
  exact ⟨k + 2, phase.complete_of through⟩

theorem Bracketed.begins {actions : List Action} (bracketed : Bracketed false actions)
    (mems : Memories) :
    Phase mems.contents [] (actions.filter Action.known) (Traced.begin actions mems) := by
  have begins := Traced.begin_phase bracketed.filter_known
    (fun _ member => (List.mem_filter.mp member).2) mems
  rwa [Traced.begin_known] at begins

theorem Bracketed.served {actions : List Action} (bracketed : Bracketed false actions)
    (mems : Memories) {cycles : Nat → BusCycle}
    (often : ∀ k, ∃ j, k ≤ j ∧ (cycles j).fires = true) :
    (∀ k, (Sampled.run Traced.step cycles (Traced.begin actions mems) k).trace <+:
        actions.flatMap Action.events) ∧
      ∃ k, ∀ j t, k ≤ j → t = Sampled.run Traced.step cycles (Traced.begin actions mems) j →
        t.session.pending = [] ∧ t.trace = actions.flatMap Action.events ∧
          Outcome mems.contents [] actions t.session.contents t.session.returned := by
  have begins := bracketed.begins mems
  have phase := Sampled.run_invariant Traced.step
    (fun cycle _ phase => Phase.step cycle phase) cycles begins
  have events := flatMap_known (f := Action.events) (fun _ => rfl) actions
  refine ⟨fun k => events ▸ (phase k).trace, ?_⟩
  obtain ⟨k, complete⟩ := begins.complete often
  refine ⟨k, fun j t later now => ?_⟩
  obtain ⟨through, trace, outcome⟩ := complete j t later now
  exact ⟨through, trace.trans events, (outcome_known _ _ _ _ _).mp outcome⟩

/-- For any input of `main`, any spacing of the accesses and whatever the
processor drives: `com` never does anything but what comes next, and it comes
to the end, having stored, started and stopped as it was told, once each and
in order; between a start and its stop the processor may change data memory,
and nothing else is ever changed. -/
theorem main_exactly_once (input : List Byte) (mems : Memories) (cycles : Nat → BusCycle)
    (often : ∀ k, ∃ j, k ≤ j ∧ (cycles j).fires = true) :
    (∀ k, (Sampled.run Traced.step cycles (Traced.begin (main input).1 mems) k).trace <+:
        (main input).1.flatMap Action.events) ∧
      ∃ k, ∀ j t, k ≤ j →
        t = Sampled.run Traced.step cycles (Traced.begin (main input).1 mems) j →
        t.session.pending = [] ∧ t.trace = (main input).1.flatMap Action.events ∧
          Outcome mems.contents [] (main input).1 t.session.contents t.session.returned :=
  (main_bracketed input).served mems often

/-- Started, stopped and started again without a pause: `com` keeps up. -/
theorem main_exactly_once_restart :
    let empty : Memory 32 8 := { mem := fun _ => 0, addressReg := 0 }
    let cycle : BusCycle := { fires := true, proc := stubborn }
    ∃ k, (Sampled.run Traced.step (fun _ => cycle)
        (Traced.begin (main [0x73#8, 0x73#8, 0x73#8]).1 { imem := empty, dmem := empty }) k).trace =
      [.enable, .disable, .enable] := by
  intro empty cycle
  obtain ⟨-, k, complete⟩ := main_exactly_once [0x73#8, 0x73#8, 0x73#8]
    { imem := empty, dmem := empty } (fun _ => cycle) fun k => ⟨k, le_rfl, rfl⟩
  exact ⟨k, (complete k _ le_rfl rfl).2.1⟩

end Tdt4255
