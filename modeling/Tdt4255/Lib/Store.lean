import Mathlib

/-! Stores as functions, and what a sequence of writes leaves in them. -/

namespace Store

variable {K V : Type*} [DecidableEq K]

def writes (m : K → V) (ws : List (K × V)) : K → V :=
  ws.foldl (fun m w => Function.update m w.1 w.2) m

/-- The value of the last write to a key. -/
def latest (k : K) : List (K × V) → Option V
  | [] => none
  | w :: rest => (latest k rest).or (if w.1 = k then some w.2 else none)

variable (m : K → V)

@[simp] theorem writes_nil : writes m [] = m := rfl

theorem writes_cons (w : K × V) (ws : List (K × V)) :
    writes m (w :: ws) = writes (Function.update m w.1 w.2) ws := rfl

theorem latest_eq_none_iff (k : K) (ws : List (K × V)) :
    latest k ws = none ↔ ∀ w ∈ ws, w.1 ≠ k := by
  induction ws with
  | nil => simp [latest]
  | cons w rest ih => simp [latest, ih, and_comm]

/-- A key holds what was written to it last. -/
theorem writes_apply (ws : List (K × V)) (k : K) : writes m ws k = (latest k ws).getD (m k) := by
  induction ws generalizing m with
  | nil => rfl
  | cons w rest ih =>
    rw [writes_cons, ih, latest]
    cases found : latest k rest with
    | some v => rfl
    | none =>
      by_cases same : w.1 = k
      · subst same
        simp
      · simp [same, Function.update_of_ne (Ne.symm same)]

theorem mem_of_latest {ws : List (K × V)} {k : K} {v : V} (last : latest k ws = some v) :
    (k, v) ∈ ws := by
  induction ws with
  | nil => simp [latest] at last
  | cons w rest ih =>
    rw [latest] at last
    cases later : latest k rest with
    | some u =>
      rw [later, Option.some_or, Option.some.injEq] at last
      exact List.mem_cons_of_mem _ (ih (later.trans (congrArg some last)))
    | none =>
      rw [later, Option.none_or] at last
      split_ifs at last with same
      rw [Option.some.injEq] at last
      exact List.mem_cons.mpr (Or.inl (Prod.ext same.symm last.symm))

end Store
