import Tdt4255.Driver.Protocol
import Tdt4255.Hardware.Boundary
import Tdt4255.Lib.Sampled
import Tdt4255.Lib.Store

/-! The design under any bus traffic at all, not only that of the driver. -/

namespace Tdt4255

/-! The slave registers. -/

/-- Byte `i` of a register, counted from the low end like the bits of `be`. -/
def lane (w : Word) (i : Fin 4) : BitVec 8 := w.extractLsb' (8 * i) 8

theorem lane_mergeBytes (be : BitVec 4) (data old : Word) (i : Fin 4) :
    lane (mergeBytes be data old) i = if be.getLsbD i = true then lane data i else lane old i := by
  apply BitVec.eq_of_getLsbD_eq
  intro j bound
  have place : (8 * i.val + j) / 8 = i.val := by omega
  have inside : 8 * i.val + j < 32 := by omega
  rw [lane, BitVec.getLsbD_extractLsb', mergeBytes, BitVec.getLsbD_ofFnLE, dif_pos inside, place]
  split_ifs <;> rw [lane, BitVec.getLsbD_extractLsb']

/-- The registers that the bus can write. -/
def UserLogic.slvReg (u : UserLogic) : Fin 3 → Word
  | 0 => u.slvReg0
  | 1 => u.slvReg1
  | 2 => u.slvReg2

/-- The byte that a bus cycle writes, if any. -/
def Bus2Ip.laneWrite (bus : Bus2Ip) (r : Fin 3) (i : Fin 4) : Option (BitVec 8) :=
  if bus.wrCE = 0b10000#5 >>> r.val ∧ bus.be.getLsbD i = true then some (lane bus.data i) else none

theorem UserLogic.lane_risingEdge (bus : Bus2Ip) (p : ProcessorOut) (u : UserLogic) (r : Fin 3)
    (i : Fin 4) :
    lane ((u.risingEdge false bus p).slvReg r) i = (bus.laneWrite r i).getD (lane (u.slvReg r) i) := by
  have merged : ∀ (ce : BitVec 5) (old : Word),
      lane (if bus.wrCE = ce then mergeBytes bus.be bus.data old else old) i =
        (if bus.wrCE = ce ∧ bus.be.getLsbD i = true then some (lane bus.data i) else none).getD
          (lane old i) := by
    intro ce old
    by_cases selected : bus.wrCE = ce
    · rw [if_pos selected, lane_mergeBytes]
      by_cases enabled : bus.be.getLsbD i = true
      · rw [if_pos enabled, if_pos ⟨selected, enabled⟩, Option.getD_some]
      · rw [if_neg enabled, if_neg (fun both => enabled both.2), Option.getD_none]
    · simp [selected]
  match r with
  | 0 => exact merged 0b10000#5 u.slvReg0
  | 1 => exact merged 0b01000#5 u.slvReg1
  | 2 => exact merged 0b00100#5 u.slvReg2

/-- `user_logic` out of reset, with any bus traffic and any processor. -/
def UserLogic.run (inputs : Nat → Bus2Ip × ProcessorOut) (u : UserLogic) : Nat → UserLogic :=
  Sampled.run (fun i u => u.risingEdge false i.1 i.2) inputs u

/-- Every byte of the three registers is what the last bus write that selected
its register and enabled its byte left there, whatever else happened. -/
theorem slave_registers_keep_bytes (inputs : Nat → Bus2Ip × ProcessorOut) (u : UserLogic) (k : Nat)
    (r : Fin 3) (i : Fin 4) :
    (lane ((u.run inputs k).slvReg r) i = lane (u.slvReg r) i ∧
        ∀ j < k, (inputs j).1.laneWrite r i = none) ∨
      ∃ j < k, (inputs j).1.laneWrite r i = some (lane ((u.run inputs k).slvReg r) i) ∧
        ∀ l, j < l → l < k → (inputs l).1.laneWrite r i = none :=
  Sampled.run_last_write _ (fun u => lane (u.slvReg r) i) (fun input _ => input.1.laneWrite r i)
    (fun input u => u.lane_risingEdge input.1 input.2 r i) inputs u k

/-! The stores of the whole design. -/

namespace Toplevel

def traffic (reading : Reading) (bus : Nat → BusIn) (t : Toplevel) : Nat → Toplevel :=
  Sampled.run (Toplevel.period reading false) bus t

/-- What the next rising edge stores. -/
def stores (reading : Reading) (t : Toplevel) : List MemoryWrite :=
  memoryWrites t.com.out (t.machine.fallingEdge reading false).out

variable (reading : Reading) (bus : Nat → BusIn) (t : Toplevel)

theorem contents_period (input : BusIn) :
    (t.period reading false input).machine.mems.contents =
      (t.stores reading).foldl MemoryWrite.apply t.machine.mems.contents := by
  rw [stores, ← Memories.contents_risingEdge]
  simp [Machine.period]

theorem traffic_state (k : Nat) :
    (t.traffic reading bus (k + 1)).com.state =
      (t.traffic reading bus k).com.state.next (bus k).command := by
  rw [traffic, Sampled.run_succ, period_com, Com.risingEdge_state]

theorem traffic_comStores (k : Nat) :
    (t.traffic reading bus (k + 1)).com.out.stores =
      (t.traffic reading bus k).com.state.stores (bus k).busAddressIn (bus k).busDataIn := by
  rw [traffic, Sampled.run_succ, period_com, Com.risingEdge_stores]

theorem traffic_enabled (k : Nat) :
    (t.traffic reading bus (k + 1)).com.out.processorEnable = true ↔
      (t.traffic reading bus k).com.state = .run := by
  rw [traffic, Sampled.run_succ, period_com, Com.processorEnable_iff]

end Toplevel

/-- Each state but `STATE_IDLE` and `STATE_DONE` has one command that leads to it. -/
theorem ComState.next_eq (command : Word) (s : ComState) :
    (s.next command = .wi → command = cmdWi) ∧ (s.next command = .wd → command = cmdWd) ∧
      (s.next command = .run → command = cmdRun) := by
  cases s <;> simp only [ComState.next] <;> grind

namespace Toplevel

variable {reading : Reading} {bus : Nat → BusIn} {t : Toplevel}

theorem mem_comState_stores {s : ComState} {address data : Word} {w : MemoryWrite}
    (member : w ∈ s.stores address data) :
    (s = .wi ∧ w.bank = .imem ∨ s = .wd ∧ w.bank = .dmem) ∧ w.address = address.setWidth 8 ∧
      w.value = data := by
  cases s <;> simp [ComState.stores] at member <;> subst member <;> simp

/-- Where the store of `com` at an edge comes from. -/
theorem comStore_cause (reset : t.com = .afterReset) {k : Nat} {w : MemoryWrite}
    (member : w ∈ (t.traffic reading bus k).com.out.stores) :
    ∃ j, k = j + 2 ∧ (bus j).command = (match w.bank with | .imem => cmdWi | .dmem => cmdWd) ∧
      w.address = (bus (j + 1)).busAddressIn.setWidth 8 ∧ w.value = (bus (j + 1)).busDataIn := by
  match k with
  | 0 =>
    have quiet : (t.traffic reading bus 0).com = .afterReset := reset
    simp [quiet, Com.afterReset, ComOut.stores, ComOut.quiet] at member
  | 1 =>
    have idle : (t.traffic reading bus 0).com.state = .idle := congrArg Com.state reset
    simp [traffic_comStores, idle, ComState.stores] at member
  | j + 2 =>
    rw [traffic_comStores] at member
    obtain ⟨state, address, value⟩ := mem_comState_stores member
    rw [traffic_state] at state
    obtain ⟨wi, wd, -⟩ := ComState.next_eq (bus j).command (t.traffic reading bus j).com.state
    refine ⟨j, rfl, ?_, address, value⟩
    rcases state with ⟨state, bank⟩ | ⟨state, bank⟩
    · rw [bank]
      exact wi state
    · rw [bank]
      exact wd state

theorem enabled_cause (reset : t.com = .afterReset) {k : Nat}
    (enabled : (t.traffic reading bus k).com.out.processorEnable = true) :
    ∃ j, k = j + 2 ∧ (bus j).command = cmdRun := by
  match k with
  | 0 =>
    have quiet : (t.traffic reading bus 0).com = .afterReset := reset
    simp [quiet, Com.afterReset, ComOut.quiet] at enabled
  | 1 =>
    have idle : (t.traffic reading bus 0).com.state = .idle := congrArg Com.state reset
    rw [traffic_enabled, idle] at enabled
    simp at enabled
  | j + 2 =>
    rw [traffic_enabled, traffic_state] at enabled
    exact ⟨j, rfl, (ComState.next_eq _ _).2.2 enabled⟩

/-- Enabled and storing itself `com` never is. -/
theorem quiet_of_enabled (reset : t.com = .afterReset) {k : Nat}
    (enabled : (t.traffic reading bus k).com.out.processorEnable = true) :
    (t.traffic reading bus k).com.out.stores = [] := by
  cases k with
  | zero =>
    have quiet : (t.traffic reading bus 0).com = .afterReset := reset
    simp [quiet, Com.afterReset, ComOut.quiet] at enabled
  | succ j =>
    rw [traffic_enabled] at enabled
    rw [traffic_comStores, enabled]
    rfl

/-- `com` stays in `STATE_DONE` until the command is taken away. -/
theorem done_until_none {j k : Nat} (later : j ≤ k) (done : (t.traffic reading bus j).com.state = .done)
    (held : ∀ i, j ≤ i → i < k → (bus i).command ≠ cmdNone) :
    (t.traffic reading bus k).com.state = .done := by
  induction k, later using Nat.le_induction with
  | base => exact done
  | succ k le ih =>
    rw [traffic_state, ih fun i low high => held i low (by omega), ComState.next,
      if_neg (held k le (Nat.lt_succ_self k))]

theorem state_of_comStores {k : Nat} (some : (t.traffic reading bus (k + 1)).com.out.stores ≠ []) :
    ((t.traffic reading bus k).com.state = .wi ∨ (t.traffic reading bus k).com.state = .wd) ∧
      (t.traffic reading bus (k + 1)).com.state = .done := by
  rw [traffic_comStores] at some
  rw [traffic_state]
  cases state : (t.traffic reading bus k).com.state <;> simp [state, ComState.stores] at some <;>
    simp [ComState.next]

/-- Two stores of `com` are two commands. -/
theorem none_between (reset : t.com = .afterReset) {j k : Nat} (before : j < k)
    (first : (t.traffic reading bus j).com.out.stores ≠ [])
    (second : (t.traffic reading bus k).com.out.stores ≠ []) :
    ∃ i, j ≤ i ∧ i < k ∧ (bus i).command = cmdNone := by
  by_contra never
  push Not at never
  obtain ⟨i, rfl⟩ : ∃ i, j = i + 1 := by
    refine ⟨j - 1, ?_⟩
    by_contra zero
    obtain rfl : j = 0 := by omega
    have quiet : (t.traffic reading bus 0).com = .afterReset := reset
    simp [quiet, Com.afterReset, ComOut.stores, ComOut.quiet] at first
  obtain ⟨l, rfl⟩ : ∃ l, k = l + 1 := ⟨k - 1, by omega⟩
  have done := done_until_none (by omega : i + 1 ≤ l) (state_of_comStores first).2
    fun a low high => never a low (by omega)
  rcases (state_of_comStores second).1 with state | state <;> rw [done] at state <;>
    exact absurd state (by decide)

theorem stores_of_enabled (reset : t.com = .afterReset) {k : Nat}
    (enabled : (t.traffic reading bus k).com.out.processorEnable = true) :
    ((t.traffic reading bus k).stores reading).length ≤ 1 ∧
      ∀ w ∈ (t.traffic reading bus k).stores reading, w.bank = .dmem :=
  memoryWrites_still ((ComOut.stores_eq_nil_iff _).mp (quiet_of_enabled reset enabled)) _

end Toplevel

/-- For any bus traffic, any processor and program: at most one word is stored
at an edge; it is either data of the processor, and the command two cycles
before was to run, or what the bus registers held one cycle before, and the
command two cycles before was to store it there; and between two such stores
the command was taken away. -/
theorem stores_as_commanded (reading : Reading) (bus : Nat → BusIn) {t : Toplevel}
    (reset : t.com = .afterReset) :
    (∀ k, ((t.traffic reading bus k).stores reading).length ≤ 1) ∧
      (∀ k, ∀ w ∈ (t.traffic reading bus k).stores reading, ∃ j, k = j + 2 ∧
        ((bus j).command = cmdRun ∧ w.bank = .dmem ∨
          (bus j).command = (match w.bank with | .imem => cmdWi | .dmem => cmdWd) ∧
            w.address = (bus (j + 1)).busAddressIn.setWidth 8 ∧
            w.value = (bus (j + 1)).busDataIn)) ∧
      ∀ j k, j < k → (t.traffic reading bus j).com.out.stores ≠ [] →
        (t.traffic reading bus k).com.out.stores ≠ [] →
        ∃ i, j ≤ i ∧ i < k ∧ (bus i).command = cmdNone := by
  have stopped : ∀ k, (t.traffic reading bus k).com.out.processorEnable ≠ true →
      (t.traffic reading bus k).stores reading = (t.traffic reading bus k).com.out.stores :=
    fun k disabled => memoryWrites_stopped (by simpa using disabled) _
  refine ⟨fun k => ?_, fun k w member => ?_, fun j k => Toplevel.none_between reset⟩
  · by_cases enabled : (t.traffic reading bus k).com.out.processorEnable = true
    · exact (Toplevel.stores_of_enabled reset enabled).1
    · rw [stopped k enabled]
      exact ComOut.length_stores _
  · by_cases enabled : (t.traffic reading bus k).com.out.processorEnable = true
    · obtain ⟨j, rfl, command⟩ := Toplevel.enabled_cause reset enabled
      exact ⟨j, rfl, Or.inl ⟨command, (Toplevel.stores_of_enabled reset enabled).2 w member⟩⟩
    · rw [stopped k enabled] at member
      obtain ⟨j, rfl, cause⟩ := Toplevel.comStore_cause reset member
      exact ⟨j, rfl, Or.inr cause⟩

/-- A command that is never taken away is obeyed once. -/
theorem stores_as_commanded_held :
    let t : Toplevel :=
      { com := .afterReset, machine := Machine.atBoundary (fun _ => 0) (fun _ => 0) (fun _ => 0) 0 }
    let bus : BusIn := { command := cmdWi, busAddressIn := 5, busDataIn := 7 }
    (t.traffic .eventDriven (fun _ => bus) 2).com.out.stores =
        [{ bank := .imem, address := 5#8, value := 7#32 }] ∧
      ∀ k, 2 < k → (t.traffic .eventDriven (fun _ => bus) k).com.out.stores = [] := by
  intro t bus
  have idle : (t.traffic .eventDriven (fun _ => bus) 0).com.state = .idle := rfl
  have second : (t.traffic .eventDriven (fun _ => bus) 2).com.out.stores =
      [{ bank := .imem, address := 5#8, value := 7#32 }] := by
    rw [Toplevel.traffic_comStores, Toplevel.traffic_state, idle]
    rfl
  refine ⟨second, fun k later => ?_⟩
  by_contra third
  obtain ⟨-, -, apart⟩ := stores_as_commanded .eventDriven (fun _ => bus) (t := t) rfl
  obtain ⟨i, -, -, none⟩ := apart 2 k later (by rw [second]; simp) third
  exact absurd none (by decide)

def MemoryWrite.entry (w : MemoryWrite) : (Bank × MemAddress) × Word := ((w.bank, w.address), w.value)

theorem foldl_apply_eq (ws : List MemoryWrite) (m : Contents) (b : Bank) (a : MemAddress) :
    ws.foldl MemoryWrite.apply m b a =
      (Store.latest (b, a) (ws.map MemoryWrite.entry)).getD (m b a) := by
  have same : (fun k : Bank × MemAddress => ws.foldl MemoryWrite.apply m k.1 k.2) =
      Store.writes (fun k => m k.1 k.2) (ws.map MemoryWrite.entry) := by
    induction ws generalizing m with
    | nil => rfl
    | cons w rest ih =>
      rw [List.map_cons, Store.writes_cons, List.foldl_cons, ih]
      congr 1
      funext k
      simp [MemoryWrite.apply, MemoryWrite.entry, Function.update_apply, Prod.ext_iff]
  exact (congrFun same (b, a)).trans (Store.writes_apply _ _ _)

/-- Every word of either memory is what the last store to it has left there. -/
theorem memories_keep_words (reading : Reading) (bus : Nat → BusIn) (t : Toplevel) (k : Nat)
    (b : Bank) (a : MemAddress) :
    ((t.traffic reading bus k).machine.mems.contents b a = t.machine.mems.contents b a ∧
        ∀ j < k, ∀ w ∈ (t.traffic reading bus j).stores reading, ¬ (w.bank = b ∧ w.address = a)) ∨
      ∃ j < k, ⟨b, a, (t.traffic reading bus k).machine.mems.contents b a⟩ ∈
          (t.traffic reading bus j).stores reading ∧
        ∀ l, j < l → l < k →
          ∀ w ∈ (t.traffic reading bus l).stores reading, ¬ (w.bank = b ∧ w.address = a) := by
  let last (u : Toplevel) : Option Word :=
    Store.latest (b, a) ((u.stores reading).map MemoryWrite.entry)
  have quiet : ∀ u : Toplevel, last u = none →
      ∀ w ∈ u.stores reading, ¬ (w.bank = b ∧ w.address = a) := by
    rintro u none w member ⟨rfl, rfl⟩
    exact (Store.latest_eq_none_iff _ _).mp none _ (List.mem_map_of_mem member) rfl
  have stored : ∀ (u : Toplevel) (v : Word), last u = some v → ⟨b, a, v⟩ ∈ u.stores reading := by
    intro u v written
    obtain ⟨w, member, same⟩ := List.mem_map.mp (Store.mem_of_latest written)
    obtain ⟨bank, address, value⟩ := w
    simp only [MemoryWrite.entry, Prod.mk.injEq] at same
    obtain ⟨⟨rfl, rfl⟩, rfl⟩ := same
    exact member
  have keep : ∀ (i : BusIn) (u : Toplevel),
      (u.period reading false i).machine.mems.contents b a =
        (last u).getD (u.machine.mems.contents b a) := by
    intro i u
    rw [Toplevel.contents_period, foldl_apply_eq]
  rcases Sampled.run_last_write (Toplevel.period reading false)
    (fun u => u.machine.mems.contents b a) (fun _ u => last u) keep bus t k with
    ⟨same, never⟩ | ⟨j, before, written, never⟩
  · exact Or.inl ⟨same, fun j before => quiet _ (never j before)⟩
  · exact Or.inr ⟨j, before, stored _ _ written, fun l after before => quiet _ (never l after before)⟩

end Tdt4255
