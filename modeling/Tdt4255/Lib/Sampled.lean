import Mathlib

/-! Deterministic systems driven by an input stream, and refinements that are
observed only when a distinguished kind of step is taken. -/

namespace Sampled

variable {S I A : Type*} (step : I → S → S)

def run (inputs : Nat → I) (s : S) : Nat → S
  | 0 => s
  | k + 1 => step (inputs k) (run inputs s k)

@[simp] theorem run_zero (inputs : Nat → I) (s : S) : run step inputs s 0 = s := rfl

theorem run_succ (inputs : Nat → I) (s : S) (k : Nat) :
    run step inputs s (k + 1) = step (inputs k) (run step inputs s k) := rfl

theorem run_add (inputs : Nat → I) (s : S) (j k : Nat) :
    run step inputs s (j + k) = run step (fun i => inputs (j + i)) (run step inputs s j) k := by
  induction k with
  | zero => rfl
  | succ k ih => rw [← Nat.add_assoc, run_succ, run_succ, ih]

theorem run_invariant {inv : S → Prop} (keep : ∀ i s, inv s → inv (step i s)) (inputs : Nat → I)
    {s : S} (start : inv s) (k : Nat) : inv (run step inputs s k) := by
  induction k with
  | zero => exact start
  | succ k ih => exact keep _ _ ih

/-- A relation that both systems keep when they read the same input holds
along every pair of runs. -/
theorem run_related {T : Type*} {step' : I → T → T} {rel : S → T → Prop}
    (keep : ∀ i s t, rel s t → rel (step i s) (step' i t)) (inputs : Nat → I) {s : S} {t : T}
    (start : rel s t) (k : Nat) : rel (run step inputs s k) (run step' inputs t k) := by
  induction k with
  | zero => exact start
  | succ k ih => exact keep _ _ _ ih

/-- The same when the second system reads what the first one drives. -/
theorem run_simulated {T J : Type*} {step' : J → T → T} {rel : S → T → Prop} (drive : I → S → J)
    (keep : ∀ i s t, rel s t → rel (step i s) (step' (drive i s) t)) (inputs : Nat → I) {s : S} {t : T}
    (start : rel s t) (k : Nat) :
    rel (run step inputs s k) (run step' (fun j => drive (inputs j) (run step inputs s j)) t k) := by
  induction k with
  | zero => exact start
  | succ k ih => exact keep _ _ _ ih

/-- What both keep until the first one is there, holds when it gets there. -/
theorem run_related_first {T : Type*} {step' : I → T → T} {rel : S → T → Prop} {goal : S → Prop}
    (keep : ∀ i s t, rel s t → ¬ goal s → rel (step i s) (step' i t)) {inputs : Nat → I} {s : S} {t : T}
    (start : rel s t) (reached : ∃ k, goal (run step inputs s k)) :
    ∃ k, goal (run step inputs s k) ∧ rel (run step inputs s k) (run step' inputs t k) := by
  classical
  refine ⟨Nat.find reached, Nat.find_spec reached, ?_⟩
  have before : ∀ j ≤ Nat.find reached, rel (run step inputs s j) (run step' inputs t j) := by
    intro j
    induction j with
    | zero => exact fun _ => start
    | succ j ih => exact fun bound => keep _ _ _ (ih (by omega)) (Nat.find_min reached bound)
  exact before _ le_rfl

/-- What is seen of a system that steps only overwrite or leave alone: the
initial value until something is written, and then what was written last. -/
theorem run_last_write {V : Type*} (view : S → V) (writes : I → S → Option V)
    (keep : ∀ i s, view (step i s) = (writes i s).getD (view s)) (inputs : Nat → I) (s : S) (k : Nat) :
    (view (run step inputs s k) = view s ∧ ∀ j < k, writes (inputs j) (run step inputs s j) = none) ∨
      ∃ j < k, writes (inputs j) (run step inputs s j) = some (view (run step inputs s k)) ∧
        ∀ l, j < l → l < k → writes (inputs l) (run step inputs s l) = none := by
  induction k with
  | zero => exact Or.inl ⟨rfl, fun j before => absurd before (Nat.not_lt_zero j)⟩
  | succ k ih =>
    have next := keep (inputs k) (run step inputs s k)
    rw [← run_succ step] at next
    cases written : writes (inputs k) (run step inputs s k) with
    | some v =>
      rw [written, Option.getD_some] at next
      exact Or.inr ⟨k, Nat.lt_succ_self k, by rw [written, next], fun l after before => by omega⟩
    | none =>
      rw [written, Option.getD_none] at next
      have still : ∀ l, l < k + 1 → l < k ∨ writes (inputs l) (run step inputs s l) = none := by
        intro l before
        rcases Nat.lt_succ_iff_lt_or_eq.mp before with earlier | rfl
        · exact Or.inl earlier
        · exact Or.inr written
      rcases ih with ⟨same, never⟩ | ⟨j, before, last, quiet⟩
      · exact Or.inl ⟨next.trans same, fun l before => (still l before).elim (never l) id⟩
      · refine Or.inr ⟨j, before.trans (Nat.lt_succ_self k), by rw [last, next], ?_⟩
        exact fun l after before => (still l before).elim (quiet l after) id

/-- Progress under fair input: a rank that no step raises and that urgent
steps lower takes every run to the goal if urgent inputs keep coming. -/
theorem run_reaches {inv : S → Prop} (goal : S → Prop) (urgent : I → Prop) (rank : S → Nat)
    (keep : ∀ i s, inv s → inv (step i s)) (falls : ∀ i s, inv s → rank (step i s) ≤ rank s)
    (drops : ∀ i s, inv s → urgent i → ¬ goal s → rank (step i s) < rank s)
    {inputs : Nat → I} (often : ∀ k, ∃ j, k ≤ j ∧ urgent (inputs j)) {s : S} (start : inv s) :
    ∃ k, goal (run step inputs s k) := by
  have holds := run_invariant step keep inputs start
  have monotone : ∀ {k j : Nat}, k ≤ j →
      rank (run step inputs s j) ≤ rank (run step inputs s k) := by
    intro k j later
    induction j, later using Nat.le_induction with
    | base => rfl
    | succ j _ ih => exact (falls _ _ (holds j)).trans ih
  suffices reach : ∀ n k, rank (run step inputs s k) ≤ n → ∃ j, goal (run step inputs s j) from
    reach _ 0 le_rfl
  intro n
  induction n with
  | zero =>
    intro k low
    obtain ⟨j, later, urgent⟩ := often k
    by_contra never
    have drop := drops _ _ (holds j) urgent (fun there => never ⟨j, there⟩)
    have below := monotone later
    omega
  | succ n ih =>
    intro k low
    obtain ⟨j, later, urgent⟩ := often k
    by_cases there : goal (run step inputs s j)
    · exact ⟨j, there⟩
    · have drop := drops _ _ (holds j) urgent there
      have below := monotone later
      rw [← run_succ step] at drop
      exact ih (j + 1) (by omega)

/-- The same with a count: every urgent step before the goal is paid for. -/
theorem run_pays {inv : S → Prop} (goal : S → Prop) (urgent : I → Prop) [DecidablePred urgent]
    (rank : S → Nat) (keep : ∀ i s, inv s → inv (step i s))
    (stays : ∀ i s, inv s → goal s → goal (step i s))
    (falls : ∀ i s, inv s → rank (step i s) ≤ rank s)
    (drops : ∀ i s, inv s → urgent i → ¬ goal s → rank (step i s) < rank s)
    (inputs : Nat → I) {s : S} (start : inv s) (k : Nat) :
    goal (run step inputs s k) ∨
      rank (run step inputs s k) + Nat.count (fun j => urgent (inputs j)) k ≤ rank s := by
  have holds := run_invariant step keep inputs start
  induction k with
  | zero => exact Or.inr (by simp)
  | succ k ih =>
    rcases ih with there | paid
    · exact Or.inl (stays _ _ (holds k) there)
    · by_cases there : goal (run step inputs s k)
      · exact Or.inl (stays _ _ (holds k) there)
      · have low := falls (inputs k) _ (holds k)
        have drop := drops (inputs k) _ (holds k)
        rw [run_succ, Nat.count_succ]
        refine Or.inr ?_
        split_ifs with urgent
        · have lower := drop urgent there
          omega
        · omega

omit step in
theorem often_add {p : I → Prop} {inputs : Nat → I} (often : ∀ k, ∃ j, k ≤ j ∧ p (inputs j))
    (l k : Nat) : ∃ j, k ≤ j ∧ p (inputs (l + j)) := by
  obtain ⟨j, after, urgent⟩ := often (l + k)
  exact ⟨j - l, by omega, by rwa [show l + (j - l) = j by omega]⟩

section Crossings

variable (crosses : S → Prop) [DecidablePred crosses]

/-- How many of the first `k` steps leave a state in `crosses`. -/
def crossings (inputs : Nat → I) (s : S) : Nat → Nat
  | 0 => 0
  | k + 1 => crossings inputs s k + if crosses (run step inputs s k) then 1 else 0

/-- Time `k` is the `n`-th sampling point: `n` crossings lie behind it and,
unless it is the start, the last step was one. -/
def IsSample (inputs : Nat → I) (s : S) (n k : Nat) : Prop :=
  crossings step crosses inputs s k = n ∧ (k = 0 ∨ crosses (run step inputs s (k - 1)))

theorem crossings_mono (inputs : Nat → I) (s : S) {j k : Nat} (le : j ≤ k) :
    crossings step crosses inputs s j ≤ crossings step crosses inputs s k := by
  induction k, le using Nat.le_induction with
  | base => rfl
  | succ k _ ih => exact ih.trans (Nat.le_add_right _ _)

theorem crossings_add (inputs : Nat → I) (s : S) (j k : Nat) :
    crossings step crosses inputs s (j + k) =
      crossings step crosses inputs s j +
        crossings step crosses (fun i => inputs (j + i)) (run step inputs s j) k := by
  induction k with
  | zero => rfl
  | succ k ih =>
    rw [← Nat.add_assoc, crossings, ih, crossings, ← run_add, Nat.add_assoc]

variable {step crosses}

theorem IsSample.unique {inputs : Nat → I} {s : S} {n j k : Nat}
    (left : IsSample step crosses inputs s n j) (right : IsSample step crosses inputs s n k) :
    j = k := by
  have ordered : ∀ {a b : Nat}, IsSample step crosses inputs s n a →
      IsSample step crosses inputs s n b → ¬ a < b := by
    rintro a b ⟨countA, _⟩ ⟨countB, atB⟩ before
    obtain ⟨b, rfl⟩ := Nat.exists_eq_succ_of_ne_zero (by omega : b ≠ 0)
    have crossed : crosses (run step inputs s b) := by simpa using atB
    have grown := crossings_mono step crosses inputs s (by omega : a ≤ b)
    simp only [crossings, if_pos crossed] at countB
    omega
  exact Nat.le_antisymm (not_lt.mp (ordered right left)) (not_lt.mp (ordered left right))

variable (step crosses) in
/-- `d` quiet steps followed by a crossing one. -/
structure Window (inputs : Nat → I) (s : S) (d : Nat) : Prop where
  quiet : ∀ j < d, ¬ crosses (run step inputs s j)
  crossed : crosses (run step inputs s d)

omit [DecidablePred crosses] in
theorem Window.unique {inputs : Nat → I} {s : S} {d e : Nat}
    (left : Window step crosses inputs s d) (right : Window step crosses inputs s e) : d = e := by
  refine Nat.le_antisymm (not_lt.mp fun before => ?_) (not_lt.mp fun before => ?_)
  · exact left.quiet e before right.crossed
  · exact right.quiet d before left.crossed

theorem Window.crossings_quiet {inputs : Nat → I} {s : S} {d : Nat}
    (window : Window step crosses inputs s d) {j : Nat} (within : j ≤ d) :
    crossings step crosses inputs s j = 0 := by
  induction j with
  | zero => rfl
  | succ j ih => rw [crossings, ih (by omega), if_neg (window.quiet j within)]

theorem Window.crossings_end {inputs : Nat → I} {s : S} {d : Nat}
    (window : Window step crosses inputs s d) :
    crossings step crosses inputs s (d + 1) = 1 := by
  rw [crossings, window.crossings_quiet le_rfl, if_pos window.crossed]

/-- A sampling point seen from the end of a window is the next one seen from
its beginning. -/
theorem Window.isSample_succ {inputs : Nat → I} {s : S} {d n k : Nat}
    (window : Window step crosses inputs s d)
    (later : IsSample step crosses (fun i => inputs (d + 1 + i)) (run step inputs s (d + 1)) n k) :
    IsSample step crosses inputs s (n + 1) (d + 1 + k) := by
  obtain ⟨count, point⟩ := later
  refine ⟨by rw [crossings_add, window.crossings_end, count, Nat.add_comm], Or.inr ?_⟩
  rcases point with rfl | crossed
  · exact window.crossed
  · rcases Nat.eq_zero_or_pos k with rfl | positive
    · exact window.crossed
    · rw [← run_add] at crossed
      rwa [show d + 1 + k - 1 = d + 1 + (k - 1) by omega]

/-- The sampled refinement rule. If every related pair opens a window at
whose end the states are related again, one abstract step later, then every
index has a sampling point and the run is related there to as many steps. -/
theorem samples_of_windows {allowed : I → Prop} (rel : S → A → Prop) (next : A → A)
    (opens : ∀ inputs s a, (∀ k, allowed (inputs k)) → rel s a →
      ∃ d, Window step crosses inputs s d ∧ rel (run step inputs s (d + 1)) (next a))
    (n : Nat) {inputs : Nat → I} (legal : ∀ k, allowed (inputs k)) {s : S} {a : A}
    (start : rel s a) :
    ∃ k, IsSample step crosses inputs s n k ∧ rel (run step inputs s k) (next^[n] a) := by
  induction n generalizing inputs s a with
  | zero => exact ⟨0, ⟨rfl, Or.inl rfl⟩, start⟩
  | succ n ih =>
    obtain ⟨d, window, related⟩ := opens inputs s a legal start
    obtain ⟨k, point, atEnd⟩ := ih (fun k => legal (d + 1 + k)) related
    refine ⟨d + 1 + k, window.isSample_succ point, ?_⟩
    rw [run_add, Function.iterate_succ_apply]
    exact atEnd

omit [DecidablePred crosses] in
theorem Window.crossed_at {inputs : Nat → I} {s : S} {k d : Nat}
    (window : Window step crosses (fun i => inputs (k + i)) (run step inputs s k) d) :
    crosses (run step inputs s (k + d)) := by
  rw [run_add]
  exact window.crossed

/-- A window that opens at a sampling point ends at the next one. -/
theorem IsSample.append_window {inputs : Nat → I} {s : S} {d n k : Nat}
    (point : IsSample step crosses inputs s n k)
    (window : Window step crosses (fun i => inputs (k + i)) (run step inputs s k) d) :
    IsSample step crosses inputs s (n + 1) (k + d + 1) := by
  refine ⟨?_, Or.inr window.crossed_at⟩
  rw [Nat.add_assoc, crossings_add, point.1, window.crossings_end]

/-- Time and abstract state at every sampling point, when a step of the
abstract system lasts as long as its state says and reads what comes in
meanwhile. -/
def schedule (duration : A → Nat) (next : (Nat → I) → A → A) (inputs : Nat → I) (a : A) :
    Nat → Nat × A
  | 0 => (0, a)
  | n + 1 =>
    let now := schedule duration next inputs a n
    (now.1 + duration now.2 + 1, next (fun i => inputs (now.1 + i)) now.2)

/-- The sampled refinement rule for such systems. -/
theorem samples_of_schedule (rel : S → A → Prop) (duration : A → Nat) (next : (Nat → I) → A → A)
    (opens : ∀ inputs s a, rel s a → Window step crosses inputs s (duration a) ∧
      rel (run step inputs s (duration a + 1)) (next inputs a))
    (inputs : Nat → I) {s : S} {a : A} (start : rel s a) (n : Nat) :
    IsSample step crosses inputs s n (schedule duration next inputs a n).1 ∧
      rel (run step inputs s (schedule duration next inputs a n).1)
        (schedule duration next inputs a n).2 := by
  induction n with
  | zero => exact ⟨⟨rfl, Or.inl rfl⟩, start⟩
  | succ n ih =>
    obtain ⟨point, related⟩ := ih
    obtain ⟨window, atEnd⟩ := opens _ _ _ related
    refine ⟨point.append_window window, ?_⟩
    rw [schedule, Nat.add_assoc, run_add]
    exact atEnd

end Crossings

end Sampled
