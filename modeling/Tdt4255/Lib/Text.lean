import Mathlib

/-! Words within texts, and texts made of lines. -/

namespace Text

variable {α : Type*} [DecidableEq α]

/-- Drops `skip` symbols first, then scans. -/
def removeFrom (word : List α) : Nat → List α → List α
  | _, [] => []
  | skip + 1, _ :: rest => removeFrom word skip rest
  | 0, c :: rest =>
    if word.isPrefixOf (c :: rest) = true then removeFrom word (word.length - 1) rest
    else c :: removeFrom word 0 rest

/-- All occurrences, from left to right and without overlap. -/
def remove (word text : List α) : List α := removeFrom word 0 text

theorem removeFrom_length_append (word skipped text : List α) :
    removeFrom word skipped.length (skipped ++ text) = removeFrom word 0 text := by
  induction skipped with
  | nil => rfl
  | cons c rest ih => exact ih

theorem remove_append {word : List α} (nonempty : word ≠ []) (text : List α) :
    remove word (word ++ text) = remove word text := by
  obtain ⟨c, rest, rfl⟩ := List.exists_cons_of_ne_nil nonempty
  have starts : (c :: rest).isPrefixOf (c :: (rest ++ text)) = true := by
    rw [List.isPrefixOf_iff_prefix, ← List.cons_append]
    exact List.prefix_append _ _
  rw [remove, List.cons_append, removeFrom, if_pos starts]
  exact removeFrom_length_append (c :: rest) rest text

theorem remove_cons {word text : List α} {c : α} (differs : ¬ word <+: c :: text) :
    remove word (c :: text) = c :: remove word text := by
  rw [remove, removeFrom, if_neg (by rwa [List.isPrefixOf_iff_prefix])]
  rfl

theorem remove_of_not_mem {word text : List α} {c : α} (needs : c ∈ word) (lacks : c ∉ text) :
    remove word text = text := by
  unfold remove
  induction text with
  | nil => rfl
  | cons d rest ih =>
    have differs : ¬ word.isPrefixOf (d :: rest) = true := by
      rw [List.isPrefixOf_iff_prefix]
      exact fun starts => lacks (starts.subset needs)
    rw [removeFrom, if_neg differs, ih fun member => lacks (List.mem_cons_of_mem _ member)]

theorem remove_concat {text : List α} {c : α} (lacks : c ∉ text) :
    remove [c] (text ++ [c]) = text := by
  unfold remove
  induction text with
  | nil => simp [removeFrom]
  | cons d rest ih =>
    have differs : ¬ [c].isPrefixOf (d :: (rest ++ [c])) = true := by
      simpa using fun same : c = d => lacks (same ▸ List.mem_cons_self)
    rw [List.cons_append, removeFrom, if_neg differs,
      ih fun member => lacks (List.mem_cons_of_mem _ member)]

/-! Lines that end with a mark. -/

/-- The text up to the first mark and with it, and the rest. -/
def readLine (mark : α) : List α → List α × List α
  | [] => ([], [])
  | c :: rest =>
    if c = mark then ([c], rest) else (c :: (readLine mark rest).1, (readLine mark rest).2)

/-- All lines; the last one may lack its mark. -/
def lines (mark : α) : List α → List (List α)
  | [] => []
  | c :: rest =>
    if c = mark then [c] :: lines mark rest
    else match lines mark rest with
      | [] => [[c]]
      | line :: later => (c :: line) :: later

variable {mark : α} {line : List α}

theorem readLine_append (lacks : mark ∉ line) (rest : List α) :
    readLine mark (line ++ mark :: rest) = (line ++ [mark], rest) := by
  induction line with
  | nil => simp [readLine]
  | cons c line ih =>
    have differs : c ≠ mark := fun same => lacks (same ▸ List.mem_cons_self)
    rw [List.cons_append, readLine, if_neg differs, ih fun member => lacks (List.mem_cons_of_mem _ member)]
    rfl

theorem lines_append (lacks : mark ∉ line) (rest : List α) :
    lines mark (line ++ mark :: rest) = (line ++ [mark]) :: lines mark rest := by
  induction line with
  | nil => simp [lines]
  | cons c line ih =>
    have differs : c ≠ mark := fun same => lacks (same ▸ List.mem_cons_self)
    rw [List.cons_append, lines, if_neg differs, ih fun member => lacks (List.mem_cons_of_mem _ member)]
    rfl

/-- A text written line by line is read line by line. -/
theorem lines_flatten {written : List (List α)}
    (complete : ∀ line ∈ written, ∃ body, mark ∉ body ∧ line = body ++ [mark]) :
    lines mark written.flatten = written := by
  induction written with
  | nil => rfl
  | cons line later ih =>
    obtain ⟨body, lacks, rfl⟩ := complete _ List.mem_cons_self
    rw [List.flatten_cons, List.append_assoc, List.singleton_append, lines_append lacks,
      ih fun other member => complete other (List.mem_cons_of_mem _ member)]

end Text
