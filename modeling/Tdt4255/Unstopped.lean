import Tdt4255.Refinement

/-! What the processor does whatever `com` drives: it goes on executing, but
while it is not enabled `com` has the ports of the data memory. -/

namespace Tdt4255

open Machine

/-- Time and observed state after so many instructions. -/
def executions (reading : Reading) (inputs : Nat → ComOut) (o : Observed) : Nat → Nat × Observed :=
  Sampled.schedule (fun o => stalls (fetch o.imem o.visible.pc)) (executeUnder reading) inputs o

/-- Nothing that `com` drives holds the processor up. Whatever it stores into
either memory and whenever it enables and disables, the next instruction
follows after two or three periods, and its effect is `executeUnder`. -/
theorem never_held_up (reading : Reading) {s : Machine} (b : s.Boundary) (inputs : Nat → ComOut)
    (n : Nat) :
    Sampled.IsSample (period reading false) Fetching inputs s n
        (executions reading inputs s.observed n).1 ∧
      (Sampled.run (period reading false) inputs s
        (executions reading inputs s.observed n).1).observed =
        (executions reading inputs s.observed n).2 := by
  let shows (t : Machine) (o : Observed) : Prop := t.Boundary ∧ t.observed = o
  have opens : ∀ (inputs : Nat → ComOut) t o, shows t o →
      Sampled.Window (period reading false) Fetching inputs t
          (stalls (fetch o.imem o.visible.pc)) ∧
        shows (Sampled.run (period reading false) inputs t
          (stalls (fetch o.imem o.visible.pc) + 1)) (executeUnder reading inputs o) := by
    rintro inputs t o ⟨boundary, rfl⟩
    obtain ⟨window, after, seen⟩ := boundary.window reading inputs
    rw [boundary.imemDataIn_eq] at window after seen
    exact ⟨window, after, seen⟩
  obtain ⟨point, -, seen⟩ := Sampled.samples_of_schedule shows _ _ opens inputs ⟨b, rfl⟩ n
  exact ⟨point, seen⟩

/-- A store that is never enabled takes its three periods and leaves no trace. -/
theorem never_held_up_store :
    let s := atBoundary (fun _ => 0xAC010000#32) (fun _ => 0) (fun _ => 7) 0
    Sampled.IsSample (period .eventDriven false) Fetching (fun _ => .quiet) s 1 3 ∧
      (Sampled.run (period .eventDriven false) (fun _ => .quiet) s 3).observed.visible.pc = 1#32 ∧
      (Sampled.run (period .eventDriven false) (fun _ => .quiet) s 3).observed.visible.dmem 0#8 =
        0#32 := by
  intro s
  have one := never_held_up .eventDriven (atBoundary_boundary (fun _ => 0xAC010000#32) (fun _ => 0)
    (fun _ => 7) 0) (fun _ => .quiet) 1
  have time : (executions .eventDriven (fun _ => .quiet) s.observed 1).1 = 3 := by decide
  rw [time] at one
  refine ⟨one.1, ?_, ?_⟩
  · rw [one.2]
    decide
  · rw [one.2]
    decide

/-! A loop at one word, to keep the processor quiet while a program is loaded. -/

/-- `beq $0,$0,-1` -/
def parkWord : Word := 0x1000FFFF#32

/-- `com` leaves the word there as it is. -/
def ComOut.Spares (c : ComOut) (a : MemAddress) : Prop :=
  c.writeEnable = true → c.writeImem = true → c.writeAddr.setWidth 8 = a → c.writeData = parkWord

theorem execute_parkWord (v : Visible) : execute .eventDriven parkWord v = v := by
  have back : v.pc + 1#32 + (immediate parkWord).signExtend 32 = v.pc := by
    rw [BitVec.add_assoc, show 1#32 + (immediate parkWord).signExtend 32 = 0#32 by decide,
      BitVec.add_zero]
  have branch : opCode parkWord = 0b000100#6 := by decide
  simp [execute, branch, back, show rsField parkWord = rtField parkWord by decide]

theorem passes_parked {c : ComOut} {o : Observed}
    (parked : fetch o.imem o.visible.pc = parkWord) (spares : c.Spares (o.visible.pc.setWidth 8)) :
    fetch (c.passes o).imem (c.passes o).visible.pc = parkWord := by
  change c.storeProgram o.imem (o.visible.pc.setWidth 8) = parkWord
  unfold ComOut.storeProgram
  split_ifs with stores
  · rw [Function.update_apply]
    split_ifs with there
    · exact spares stores.2 stores.1 there.symm
    · exact parked
  · exact parked

theorem executeUnder_parked (inputs : Nat → ComOut) {o : Observed}
    (parked : fetch o.imem o.visible.pc = parkWord) :
    executeUnder .eventDriven inputs o = Sampled.run ComOut.passes inputs o 2 := by
  rw [executeUnder, parked, if_pos (by decide), execute_parkWord]
  rfl

theorem run_passes_parked (inputs : Nat → ComOut) {o : Observed}
    (parked : fetch o.imem o.visible.pc = parkWord)
    (spares : ∀ k, (inputs k).Spares (o.visible.pc.setWidth 8)) (k : Nat) :
    (Sampled.run ComOut.passes inputs o k).visible.pc = o.visible.pc ∧
      fetch (Sampled.run ComOut.passes inputs o k).imem
        (Sampled.run ComOut.passes inputs o k).visible.pc = parkWord := by
  induction k with
  | zero => exact ⟨rfl, parked⟩
  | succ k ih => exact ⟨ih.1, passes_parked ih.2 (ih.1 ▸ spares k)⟩

/-- A processor that a simulator runs in a loop at one word does not take part:
whatever `com` stores elsewhere, and whether it enables or not, the memories
are as `com` alone has left them, and no register moves. The multiplexers that
synthesis builds do not take the branch, so there is no such loop. -/
theorem parked_is_harmless {s : Machine} (b : s.Boundary)
    (parked : fetch s.observed.imem s.observed.visible.pc = parkWord) (inputs : Nat → ComOut)
    (spares : ∀ k, (inputs k).Spares (s.observed.visible.pc.setWidth 8)) (n : Nat) :
    (Sampled.run (period .eventDriven false) inputs s (2 * n)).observed =
      Sampled.run ComOut.passes inputs s.observed (2 * n) := by
  suffices both : (Sampled.run (period .eventDriven false) inputs s (2 * n)).Boundary ∧
      (Sampled.run (period .eventDriven false) inputs s (2 * n)).observed =
        Sampled.run ComOut.passes inputs s.observed (2 * n) from both.2
  induction n with
  | zero => exact ⟨b, rfl⟩
  | succ n ih =>
    obtain ⟨boundary, seen⟩ := ih
    have still := (run_passes_parked inputs parked spares (2 * n)).2
    rw [← seen] at still
    obtain ⟨-, after, next⟩ := boundary.window .eventDriven fun i => inputs (2 * n + i)
    rw [boundary.imemDataIn_eq.trans still, ← Sampled.run_add] at after next
    rw [executeUnder_parked _ still, seen, ← Sampled.run_add] at next
    exact ⟨after, next⟩

theorem parked_is_harmless_load :
    let s := atBoundary (fun _ => parkWord) (fun _ => 0) (fun _ => 7) 0
    let store : ComOut :=
      { ComOut.quiet with writeEnable := true, writeImem := true, writeAddr := 1, writeData := 5 }
    (Sampled.run (period .eventDriven false) (fun _ => store) s 4).observed.visible.pc = 0#32 ∧
      (Sampled.run (period .eventDriven false) (fun _ => store) s 4).observed.imem 1#8 = 5#32 := by
  intro s store
  have parked := parked_is_harmless (atBoundary_boundary (fun _ => parkWord) (fun _ => 0)
    (fun _ => 7) 0) rfl (fun _ => store) (fun _ _ _ there => absurd there (by decide)) 2
  rw [parked]
  decide

end Tdt4255
