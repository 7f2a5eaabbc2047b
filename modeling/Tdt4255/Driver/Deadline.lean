import Tdt4255.Driver.Runs

/-! How many accesses to the bus the driver needs. -/

namespace Tdt4255

namespace Session

variable {cycle : BusCycle} {s : Session}

/-- What a run of polls may cost, and the accesses themselves. -/
def cost (s : Session) : Nat :=
  s.pending.length + 5 * s.pending.tail.count .wait +
    if s.pending.head? = some .wait then waitDistance s.com else 0

theorem cost_le (s : Session) : s.cost ≤ s.pending.length + 5 * s.pending.count .wait := by
  have bound := waitDistance_le s.com
  unfold cost
  cases s.pending with
  | nil => simp
  | cons a more =>
    rw [List.tail_cons, List.head?_cons, List.count_cons]
    by_cases waits : a = .wait
    · subst waits
      simp only [if_true, beq_self_eq_true]
      omega
    · simp [waits]

theorem step_pending (cycle : BusCycle) (s : Session) :
    (s.step cycle).pending = s.pending ∨
      ∃ a more, s.pending = a :: more ∧ (s.step cycle).pending = more := by
  cases now : s.current cycle with
  | none => exact Or.inl (step_none now).1
  | some a =>
    obtain ⟨more, head⟩ := pending_of_current now
    by_cases stalls : s.Stalls cycle
    · exact Or.inl (step_of_stalls stalls).1
    · have ready : a = .wait → s.com.status = statusDone := by
        rintro rfl
        by_contra early
        exact stalls (Or.inr ⟨now, early⟩)
      refine Or.inr ⟨a, more, head, ?_⟩
      rw [(step_of_current now ready).1, head, List.tail_cons]

/-- While the driver stands still, cost and rank fall together. -/
theorem cost_step (falls : (s.step cycle).rank ≤ s.rank)
    (drops : cycle.fires = true → s.pending ≠ [] → (s.step cycle).rank < s.rank) :
    (s.step cycle).cost ≤ s.cost ∧
      (cycle.fires = true → s.pending ≠ [] → (s.step cycle).cost < s.cost) := by
  rcases step_pending cycle s with still | ⟨a, more, head, pops⟩
  · unfold rank at falls drops
    unfold cost
    rw [still] at falls drops ⊢
    refine ⟨by omega, fun fires unfinished => ?_⟩
    have lower := drops fires unfinished
    omega
  · have after := (s.step cycle).cost_le
    have before : more.length + 1 + 5 * more.count .wait ≤ s.cost := by
      rw [cost, head]
      exact Nat.le_add_right _ _
    rw [pops] at after
    exact ⟨by omega, fun _ _ => by omega⟩

theorem step_nil (through : s.pending = []) : (s.step cycle).pending = [] := by
  rcases step_pending cycle s with still | ⟨a, more, head, -⟩
  · exact still.trans through
  · simp [through] at head

end Session

/-- A read is polled for at most five times in vain. -/
def Action.budget : Action → Nat
  | .call (.readData _) => 11
  | .call _ => 6
  | .startCpu | .stopCpu => 1
  | .unknownCommand _ => 0

theorem Action.budget_eq (a : Action) :
    a.accesses.length + 5 * a.accesses.count .wait = a.budget := by
  cases a with
  | call c => cases c <;> rfl
  | startCpu => rfl
  | stopCpu => rfl
  | unknownCommand b => rfl

theorem budget_sum (actions : List Action) :
    (actions.flatMap Action.accesses).length + 5 * (actions.flatMap Action.accesses).count .wait =
      (actions.map Action.budget).sum := by
  induction actions with
  | nil => rfl
  | cons a rest ih =>
    rw [List.flatMap_cons, List.length_append, List.count_append, List.map_cons, List.sum_cons,
      ← a.budget_eq, ← ih]
    omega

theorem Phase.spends {start : Contents} {heard : List Word} {actions : List Action} {t : Traced}
    (phase : Phase start heard actions t) (cycles : Nat → BusCycle) {k : Nat}
    (enough : t.session.cost ≤ Nat.count (fun j => (cycles j).fires = true) k) :
    (Sampled.run Traced.step cycles t k).session.pending = [] := by
  have paid := Sampled.run_pays Traced.step (fun t => t.session.pending = [])
    (fun cycle => cycle.fires = true) (fun t => t.session.cost)
    (fun cycle _ phase => Phase.step cycle phase) (fun _ _ _ => Session.step_nil)
    (fun _ _ phase => (Session.cost_step phase.rank_step.1 phase.rank_step.2).1)
    (fun _ _ phase => (Session.cost_step phase.rank_step.1 phase.rank_step.2).2) cycles phase k
  rcases paid with through | paid
  · exact through
  · have free : (Sampled.run Traced.step cycles t k).session.cost = 0 := by omega
    unfold Session.cost at free
    rw [← List.length_eq_zero_iff]
    omega

/-- `main` meets a deadline that is counted in the cycles at which the bus
takes an access: 6 for a write, 11 for a read, 1 to start or to stop. Two
cycles later `com` has done everything, and the processor has whatever it does
not delayed it. -/
theorem main_meets_deadline (input : List Byte) (mems : Memories) (cycles : Nat → BusCycle) (k : Nat)
    (enough : ((main input).1.map Action.budget).sum ≤
      Nat.count (fun j => (cycles j).fires = true) k) (j : Nat) (later : k + 2 ≤ j) (t : Traced)
    (reached : t = Sampled.run Traced.step cycles (Traced.begin (main input).1 mems) j) :
    t.session.pending = [] ∧ t.trace = (main input).1.flatMap Action.events ∧
      Outcome mems.contents [] (main input).1 t.session.contents t.session.returned := by
  have bracketed := main_bracketed input
  have begins := bracketed.begins mems
  have cost : (Traced.begin (main input).1 mems).session.cost ≤ ((main input).1.map Action.budget).sum := by
    rw [← budget_sum]
    exact Session.cost_le _
  obtain ⟨through, trace, outcome⟩ :=
    begins.complete_of (begins.spends cycles (cost.trans enough)) j t later reached
  rw [flatMap_known fun _ => rfl] at trace
  exact ⟨through, trace, (outcome_known _ _ _ _ _).mp outcome⟩

/-- One write and one read, without a pause: 17 accesses and polls. -/
theorem main_meets_deadline_tight :
    let input : List Byte :=
      [0x64#8, 0x07#8, 0x01#8, 0x02#8, 0x03#8, 0x04#8, 0x72#8, 0x07#8]
    let empty : Memory 32 8 := { mem := fun _ => 0, addressReg := 0 }
    let cycle : BusCycle := { fires := true, proc := stubborn }
    (Sampled.run Traced.step (fun _ => cycle)
      (Traced.begin (main input).1 { imem := empty, dmem := empty }) 19).session.returned =
        [0x01020304#32] := by
  intro input empty cycle
  have every : Nat.count (fun _ => cycle.fires = true) 17 = 17 :=
    Nat.count_iff_forall.mpr fun _ _ => rfl
  obtain ⟨-, -, -, returned⟩ := main_meets_deadline input { imem := empty, dmem := empty }
    (fun _ => cycle) 17 (every.symm ▸ by decide) 19 le_rfl _ rfl
  exact returned

end Tdt4255
