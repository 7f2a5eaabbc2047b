import Tdt4255.Driver.ExactlyOnce
import Tdt4255.Driver.Firmware

/-! The actions of `main` on the bus, what they should make `com` do, and
what may come of them. -/

namespace Tdt4255

namespace Action

def accesses : Action → List Access
  | .call c => c.accesses
  | .startCpu => [.writeReg regCmd cmdRun]
  | .stopCpu => [.writeReg regCmd cmdNone]
  | .unknownCommand _ => []

def known : Action → Bool
  | .call _ | .startCpu | .stopCpu => true
  | .unknownCommand _ => false

end Action

/-- What `com` is seen to do at its ports. -/
inductive PortEvent
  | store (w : MemoryWrite)
  | enable
  | disable
  deriving DecidableEq, Repr

def Action.events : Action → List PortEvent
  | .call c => c.writes.map .store
  | .startCpu => [.enable]
  | .stopCpu => [.disable]
  | .unknownCommand _ => []

/-- Stops follow starts, and nothing is called between the two. -/
def Bracketed : Bool → List Action → Prop
  | _, [] => True
  | running, .unknownCommand _ :: rest => running = false ∧ Bracketed running rest
  | false, .call _ :: rest => Bracketed false rest
  | false, .startCpu :: rest => Bracketed true rest
  | true, .stopCpu :: rest => Bracketed false rest
  | _, _ :: _ => False

/-- Contents and returned words that the actions may lead to: every call has
its effect once and in order, and while the processor runs it may change data
memory, and nothing else. -/
def Outcome (m : Contents) (returned : List Word) : List Action → Contents → List Word → Prop
  | [], m', returned' => m' = m ∧ returned' = returned
  | .call c :: rest, m', returned' => Outcome (c.perform m) (returned ++ c.result m) rest m' returned'
  | .startCpu :: rest, m', returned' =>
    ∃ stores : List MemoryWrite, (∀ w ∈ stores, w.bank = .dmem) ∧
      Outcome (stores.foldl MemoryWrite.apply m) returned rest m' returned'
  | .stopCpu :: rest, m', returned' => Outcome m returned rest m' returned'
  | .unknownCommand _ :: rest, m', returned' => Outcome m returned rest m' returned'

namespace Point

def isRunning : Point → Bool
  | .running => true
  | _ => false

theorem bracketed_step (p : Point) (newChar : Byte) {rest : List Action}
    (later : Bracketed (p.step newChar).1.isRunning rest) :
    Bracketed p.isRunning ((p.step newChar).2 ++ rest) := by
  have accepted : ∀ curChar received char,
      Bracketed (accept curChar received char).1.isRunning rest →
        Bracketed false ((accept curChar received char).2 ++ rest) := by
    intro curChar received char later
    unfold accept at later ⊢
    cases complete : frameCall curChar (received ++ [char]) <;> rw [complete] at later <;>
      exact later
  rcases p with _ | ⟨curChar, received, escaped⟩ | _
  · simp only [Point.step] at later ⊢
    split_ifs at later ⊢
    · exact later
    · exact later
    · exact later
    · exact ⟨rfl, later⟩
  · cases escaped <;> simp only [Point.step] at later ⊢
    · split_ifs at later ⊢
      · exact later
      · exact later
      · exact accepted _ _ _ later
    · split_ifs at later ⊢
      · exact later
      · exact accepted _ _ _ later
      · exact accepted _ _ _ later
  · simp only [Point.step] at later ⊢
    split_ifs at later ⊢ <;> exact later

theorem bracketed_run (p : Point) (input : List Byte) : Bracketed p.isRunning (p.run input).2 := by
  induction input generalizing p with
  | nil =>
    rw [run_nil]
    cases p.isRunning <;> trivial
  | cons c input ih =>
    rw [run_cons]
    exact p.bracketed_step c (ih _)

end Point

/-- Whatever characters arrive. -/
theorem main_bracketed (input : List Byte) : Bracketed false (main input).1 := by
  rw [main_eq_run]
  exact Point.dispatch.bracketed_run input

theorem Bracketed.filter_known {running : Bool} {actions : List Action}
    (bracketed : Bracketed running actions) : Bracketed running (actions.filter Action.known) := by
  induction actions generalizing running with
  | nil => exact bracketed
  | cons a rest ih =>
    cases running <;> cases a <;> first | exact ih bracketed | exact bracketed.elim | exact ih bracketed.2

theorem flatMap_known {α : Type} {f : Action → List α} (silent : ∀ c, f (.unknownCommand c) = [])
    (actions : List Action) : (actions.filter Action.known).flatMap f = actions.flatMap f := by
  induction actions with
  | nil => rfl
  | cons a rest ih => cases a <;> simp [List.filter_cons, Action.known, ih, silent]

theorem outcome_known (m : Contents) (returned : List Word) (actions : List Action) (m' : Contents)
    (returned' : List Word) :
    Outcome m returned (actions.filter Action.known) m' returned' ↔
      Outcome m returned actions m' returned' := by
  induction actions generalizing m returned with
  | nil => rfl
  | cons a rest ih => cases a <;> simp [List.filter_cons, Action.known, Outcome, ih]

/-- Calls up to the next start. -/
theorem Bracketed.split {actions : List Action} (bracketed : Bracketed false actions)
    (known : ∀ a ∈ actions, a.known = true) :
    ∃ (calls : List Call) (tail : List Action), actions = calls.map Action.call ++ tail ∧
      (tail = [] ∨ ∃ rest, tail = .startCpu :: rest ∧ Bracketed true rest) := by
  induction actions with
  | nil => exact ⟨[], [], rfl, Or.inl rfl⟩
  | cons a rest ih =>
    cases a with
    | call c =>
      obtain ⟨calls, tail, rfl, start⟩ := ih bracketed fun a member =>
        known a (List.mem_cons_of_mem _ member)
      exact ⟨c :: calls, tail, rfl, start⟩
    | startCpu => exact ⟨[], .startCpu :: rest, rfl, Or.inr ⟨rest, rfl, bracketed⟩⟩
    | stopCpu => exact bracketed.elim
    | unknownCommand c => exact absurd (known _ List.mem_cons_self) (by simp [Action.known])

namespace Outcome

variable {m m' m'' : Contents} {returned returned' returned'' : List Word} {past : List Action}

theorem append {later : List Action} (first : Outcome m returned past m' returned')
    (second : Outcome m' returned' later m'' returned'') :
    Outcome m returned (past ++ later) m'' returned'' := by
  induction past generalizing m returned with
  | nil =>
    obtain ⟨rfl, rfl⟩ := first
    exact second
  | cons a rest ih =>
    cases a with
    | startCpu =>
      obtain ⟨stores, data, first⟩ := first
      exact ⟨stores, data, ih first⟩
    | call c => exact ih (m := c.perform m) first
    | stopCpu => exact ih (m := m) first
    | unknownCommand c => exact ih (m := m) first

theorem block (m : Contents) (returned : List Word) (calls : List Call) :
    Outcome m returned (calls.map Action.call) (perform m calls) (returned ++ results m calls) := by
  induction calls generalizing m returned with
  | nil => exact ⟨rfl, List.append_nil _⟩
  | cons c rest ih =>
    rw [results, ← List.append_assoc]
    exact ih _ _

theorem start (first : Outcome m returned past m' returned') :
    Outcome m returned (past ++ [.startCpu]) m' returned' :=
  first.append ⟨[], by simp, rfl, rfl⟩

theorem stop (first : Outcome m returned past m' returned') :
    Outcome m returned (past ++ [.stopCpu]) m' returned' :=
  first.append ⟨rfl, rfl⟩

/-- More stores while the processor runs. -/
theorem runs (first : Outcome m returned (past ++ [.startCpu]) m' returned')
    {stores : List MemoryWrite} (data : ∀ w ∈ stores, w.bank = .dmem) :
    Outcome m returned (past ++ [.startCpu]) (stores.foldl MemoryWrite.apply m') returned' := by
  induction past generalizing m returned with
  | nil =>
    obtain ⟨earlier, dataEarlier, rfl, rfl⟩ := first
    refine ⟨earlier ++ stores, ?_, (List.foldl_append ..).symm ▸ rfl, rfl⟩
    intro w member
    rcases List.mem_append.mp member with member | member
    · exact dataEarlier w member
    · exact data w member
  | cons a rest ih =>
    cases a with
    | startCpu =>
      obtain ⟨earlier, dataEarlier, first⟩ := first
      exact ⟨earlier, dataEarlier, ih first⟩
    | call c => exact ih (m := c.perform m) first
    | stopCpu => exact ih (m := m) first
    | unknownCommand c => exact ih (m := m) first

end Outcome

end Tdt4255
