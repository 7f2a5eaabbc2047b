import Tdt4255.Driver.Runs

/-! The words that the driver is given, at the moment they are returned. -/

namespace Tdt4255

def Call.read? : Call → Option Word
  | .readData address => some address
  | _ => none

/-- The address of a read. -/
def Action.read? : Action → Option Word
  | .call c => c.read?
  | _ => none

/-- Nothing is returned, or what the memory holds at the next of these
addresses. -/
def ReadsNext (addresses : List Word) (m : Contents) (returned returned' : List Word) : Prop :=
  returned' = returned ∨
    ∃ address, addresses[returned.length]? = some address ∧
      returned' = returned ++ [m .dmem (address.setWidth 8)]

/-- Reads made before, and reads still to be made. -/
theorem ReadsNext.frame {addresses before later words returned returned' : List Word} {m : Contents}
    (next : ReadsNext addresses m returned returned') (length : words.length = before.length) :
    ReadsNext (before ++ addresses ++ later) m (words ++ returned) (words ++ returned') := by
  rcases next with rfl | ⟨address, here, rfl⟩
  · exact Or.inl rfl
  · refine Or.inr ⟨address, ?_, (List.append_assoc ..).symm⟩
    obtain ⟨bound, -⟩ := List.getElem?_eq_some_iff.mp here
    rw [List.append_assoc, List.length_append, length, List.getElem?_append_right (by omega),
      Nat.add_sub_cancel_left, List.getElem?_append_left bound, here]

theorem length_results (m : Contents) (calls : List Call) :
    (results m calls).length = (calls.filterMap Call.read?).length := by
  induction calls generalizing m with
  | nil => rfl
  | cons c rest ih => cases c <;> simp [results, Call.result, List.filterMap_cons, Call.read?, ih]

theorem filterMap_calls (calls : List Call) :
    (calls.map Action.call).filterMap Action.read? = calls.filterMap Call.read? :=
  List.filterMap_map

theorem filterMap_known (actions : List Action) :
    (actions.filter Action.known).filterMap Action.read? = actions.filterMap Action.read? := by
  induction actions with
  | nil => rfl
  | cons a rest ih =>
    cases a <;> simp [List.filter_cons, List.filterMap_cons, Action.known, Action.read?, ih]

theorem Outcome.length {m m' : Contents} {returned returned' : List Word} {actions : List Action}
    (outcome : Outcome m returned actions m' returned') :
    returned'.length = returned.length + (actions.filterMap Action.read?).length := by
  induction actions generalizing m returned with
  | nil => exact congrArg List.length outcome.2
  | cons a rest ih =>
    cases a with
    | call c =>
      rw [ih (m := c.perform m) outcome]
      cases c <;> simp [Call.result, List.filterMap_cons, Action.read?, Call.read?]
      omega
    | startCpu =>
      obtain ⟨stores, -, outcome⟩ := outcome
      exact ih outcome
    | stopCpu => exact ih (m := m) outcome
    | unknownCommand b => exact ih (m := m) outcome

namespace Session

variable {m : Contents} {c : Call} {past rest calls : List Call} {i : Nat} {cycle : BusCycle}
  {s : Session}

theorem readReg_at {offset : Nat} (next : c.accesses[i]? = some (.readReg offset)) :
    i = 3 ∧ ∃ address, c = .readData address := by
  cases c <;> rcases i with _ | _ | _ | _ | _ | _ | i <;>
    simp [Call.accesses, Tdt4255.writeData, Tdt4255.readData] at next
  exact ⟨rfl, _, rfl⟩

/-- While a word is shown, the calls before have all been performed. -/
theorem Inside.contents (inside : Inside m past (.readData address) rest 3 s) :
    s.contents = perform m past := by
  obtain ⟨stage, allowed, at_stage⟩ := inside.stage
  obtain rfl : stage = .shown := List.mem_singleton.mp allowed
  obtain ⟨-, kept, done, -, -⟩ := at_stage
  rw [committed, inside.sound.stored done, List.append_nil] at kept
  rw [Session.contents, inside.sound.contents, kept, perform_eq_foldl_writes]
  simp [Call.writes]

theorem Inside.readsNext (inside : Inside m past c rest i s) (bound : i < 6) :
    ReadsNext ((past ++ c :: rest).filterMap Call.read?) s.contents s.returned
      (s.step cycle).returned := by
  by_cases stalls : s.Stalls cycle
  · exact Or.inl (Session.step_of_stalls stalls).2.2
  · obtain ⟨a, now⟩ := Option.ne_none_iff_exists'.mp fun none => stalls (Or.inl none)
    cases a with
    | wait => exact Or.inl (by simp [Session.step, now])
    | writeReg offset value => exact Or.inl (step_writeReg now).2
    | readReg offset =>
      have next := inside.next_of_current bound now
      have word := inside.busData_eq now next
      obtain ⟨rfl, address, rfl⟩ := readReg_at next
      have earlier := inside.returned
      rw [if_neg (by decide), List.append_nil] at earlier
      refine Or.inr ⟨address, ?_, ?_⟩
      · rw [earlier, length_results, List.filterMap_append, List.getElem?_append_right le_rfl,
          Nat.sub_self]
        rfl
      · rw [inside.contents]
        have given : (s.step cycle).returned = s.returned ++ [s.busData cycle] := by
          simp [Session.step, now]
        rw [given, ← word]
        rfl

theorem Progress.readsNext (cycle : BusCycle) (progress : Progress m calls s) :
    ReadsNext (calls.filterMap Call.read?) s.contents s.returned (s.step cycle).returned := by
  rcases progress with between | ⟨past, c, rest, i, rfl, bound, inside⟩
  · exact Or.inl (between.step.returned.trans between.returned.symm)
  · exact inside.readsNext bound

end Session

/-- Whatever the processor did before: a word that is returned is the one that
data memory holds in this cycle. -/
theorem Phase.readsNext {start : Contents} {actions : List Action} {t : Traced} (cycle : BusCycle)
    (phase : Phase start [] actions t) :
    ReadsNext (actions.filterMap Action.read?) t.session.contents t.session.returned
      (t.session.step cycle).returned := by
  cases phase with
  | started started => exact Or.inl (started.position.step cycle).1
  | stopped stopped => exact Or.inl (stopped.position.step cycle stopped.few).1
  | @serving m words past tail calls s₀ _ serving =>
    have before : t.session.contents = s₀.contents := by
      rw [Session.contents, serving.framed.logic]
      rfl
    have length := serving.outcome.length
    rw [List.length_nil, Nat.zero_add] at length
    by_cases alike : cycle.fires = true → tail.flatMap Action.accesses ≠ [] → s₀.pending ≠ []
    · have next := serving.framed.step cycle alike
      rw [List.filterMap_append, List.filterMap_append, filterMap_calls, before,
        serving.framed.returned, next.returned]
      exact (serving.progress.readsNext cycle).frame length
    · push Not at alike
      obtain ⟨fires, more, through⟩ := alike
      rcases serving.next with rfl | ⟨rest, rfl, -⟩
      · exact absurd rfl more
      · have now : t.session.current cycle = some (.writeReg regCmd cmdRun) := by
          rw [Session.current, if_pos fires, serving.framed.pending, through]
          rfl
        exact Or.inl (Session.step_writeReg now).2

end Tdt4255
