import Mathlib

/-! Machines that read one symbol at a time and put out a list each time. -/

namespace Transducer

variable {S I O : Type*}

def run (step : S → I → S × List O) (s : S) : List I → S × List O
  | [] => (s, [])
  | i :: rest => ((run step (step s i).1 rest).1, (step s i).2 ++ (run step (step s i).1 rest).2)

variable (step : S → I → S × List O)

@[simp] theorem run_nil (s : S) : run step s [] = (s, []) := rfl

theorem run_cons (s : S) (i : I) (rest : List I) :
    run step s (i :: rest) =
      ((run step (step s i).1 rest).1, (step s i).2 ++ (run step (step s i).1 rest).2) := rfl

theorem run_append (s : S) (xs ys : List I) :
    run step s (xs ++ ys) =
      ((run step (run step s xs).1 ys).1,
        (run step s xs).2 ++ (run step (run step s xs).1 ys).2) := by
  induction xs generalizing s with
  | nil => rfl
  | cons x xs ih => simp only [List.cons_append, run_cons, ih, List.append_assoc]

/-- `ys` is `xs` with any number of copies of `filler` put in anywhere. -/
inductive Stuffed (filler : I) : List I → List I → Prop
  | nil : Stuffed filler [] []
  | filler {xs ys : List I} (rest : Stuffed filler xs ys) : Stuffed filler xs (filler :: ys)
  | keep {xs ys : List I} (x : I) (rest : Stuffed filler xs ys) : Stuffed filler (x :: xs) (x :: ys)

theorem Stuffed.refl (filler : I) (xs : List I) : Stuffed filler xs xs := by
  induction xs with
  | nil => exact .nil
  | cons x rest ih => exact .keep x ih

/-- A symbol that every state ignores may be put in anywhere. -/
theorem run_stuffed {filler : I} (ignores : ∀ s, step s filler = (s, [])) {xs ys : List I}
    (stuffed : Stuffed filler xs ys) (s : S) : run step s ys = run step s xs := by
  induction stuffed generalizing s with
  | nil => rfl
  | filler rest ih => rw [run_cons, ignores, ih, List.nil_append]
  | keep x rest ih => rw [run_cons, run_cons, ih]

theorem run_of_ignored {s : S} {xs : List I} (ignores : ∀ x ∈ xs, step s x = (s, [])) :
    run step s xs = (s, []) := by
  induction xs with
  | nil => rfl
  | cons x xs ih =>
    rw [run_cons, ignores x List.mem_cons_self]
    simpa using ih fun y member => ignores y (List.mem_cons_of_mem _ member)

end Transducer
