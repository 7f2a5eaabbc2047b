import Tdt4255.Serial.Dump
import Tdt4255.Lib.Store

/-! `host.py -i` and `host.py -d`: any text file into one of the memories,
line by line, with the board answering. -/

namespace Tdt4255

/-- The two options differ in the letter only. -/
def Bank.command : Bank → Int → Int → HostCommand
  | .imem => .i
  | .dmem => .d

def Bank.request : Bank → Byte → Word → Request
  | .imem => .i
  | .dmem => .d

/-- What the script writes for a line. -/
def lineBytes (long : Bool) (bank : Bank) (line : List Char) : Option (List Byte) := do
  let (address, data) ← lineFields line
  (bank.command address data).bytes long

/-- The loop over the lines: what the script prints, whether it gets to the
end of the file, and the port when it stops. -/
def load (long : Bool) (ran : Nat → Contents → Contents) (bank : Bank) :
    List (List Char) → Port → (List (List Char) × Bool) × Port
  | [], p => (([], true), p)
  | line :: rest, p =>
    match lineBytes long bank line with
    | none => (([], false), p)
    | some s =>
      let (inp, p) := (p.write ran s).readline
      let ((printed, complete), p) := load long ran bank rest p.flushInput
      ((pyRstrip inp :: printed, complete), p)

/-- The request is the one that the script makes of the line: it goes to the
address given there, with the word whose bytes are cut out of the hex text of
the data, which is the data itself when that is a word. -/
def Asked (long : Bool) (bank : Bank) (line : List Char) (q : Request) : Prop :=
  ∃ (addr : Byte) (w : Word) (data : Int), lineFields line = some ((addr.toNat : Int), data) ∧
    q = bank.request addr w ∧
    encodeData long data =
      some ([byteOf w 3, byteOf w 2, byteOf w 1, byteOf w 0].flatMap escape) ∧
    (0 ≤ data → data < 2 ^ 32 → (w.toNat : Int) = data)

theorem byteOf_append (b3 b2 b1 b0 : Byte) :
    let w : Word := b3 ++ b2 ++ b1 ++ b0
    byteOf w 3 = b3 ∧ byteOf w 2 = b2 ∧ byteOf w 1 = b1 ∧ byteOf w 0 = b0 := by
  intro w
  refine ⟨?_, ?_, ?_, ?_⟩ <;> apply BitVec.eq_of_getLsbD_eq <;> intro i bound <;>
    simp only [byteOf, w, BitVec.getLsbD_extractLsb', BitVec.getLsbD_append] <;> grind

/-- Whatever the script sends as data is a word, and the right one if there is one. -/
theorem word_of_encodeData {long : Bool} {v : Int} {bytes : List Byte}
    (written : encodeData long v = some bytes) :
    ∃ w : Word, bytes = [byteOf w 3, byteOf w 2, byteOf w 1, byteOf w 0].flatMap escape ∧
      (0 ≤ v → v < 2 ^ 32 → (w.toNat : Int) = v) := by
  by_cases inside : 0 ≤ v ∧ v < 2 ^ 32
  · obtain ⟨w, rfl⟩ : ∃ w : Word, v = (w.toNat : Int) := by
      refine ⟨BitVec.ofNat 32 v.toNat, ?_⟩
      rw [BitVec.toNat_ofNat]
      omega
    rw [encodeData_toNat] at written
    refine ⟨w, ?_, fun _ _ => rfl⟩
    rw [← Option.some.inj written]
    simp
  · simp only [encodeData, Option.bind_eq_bind, Option.bind_eq_some_iff, Option.pure_def,
      Option.some.injEq] at written
    obtain ⟨d1, -, d2, -, d3, -, d4, -, s1, chr1, s2, chr2, s3, chr3, s4, chr4, rfl⟩ := written
    obtain ⟨b1, rfl⟩ := exists_byte_of_escapeChr chr1
    obtain ⟨b2, rfl⟩ := exists_byte_of_escapeChr chr2
    obtain ⟨b3, rfl⟩ := exists_byte_of_escapeChr chr3
    obtain ⟨b4, rfl⟩ := exists_byte_of_escapeChr chr4
    rw [escapeChr_toNat, Option.some.injEq] at chr1 chr2 chr3 chr4
    obtain ⟨same1, same2, same3, same4⟩ := byteOf_append b1 b2 b3 b4
    refine ⟨b1 ++ b2 ++ b3 ++ b4, ?_, fun low high => absurd ⟨low, high⟩ inside⟩
    simp [same1, same2, same3, same4, ← chr1, ← chr2, ← chr3, ← chr4]

theorem asked_of_lineBytes {long : Bool} {bank : Bank} {line : List Char} {bytes : List Byte}
    (written : lineBytes long bank line = some bytes) :
    ∃ q, Asked long bank line q ∧ bytes = q.frame := by
  simp only [lineBytes, Option.bind_eq_bind, Option.bind_eq_some_iff] at written
  obtain ⟨⟨address, data⟩, fields, written⟩ := written
  have pieces : ∃ s, escapeChr address = some s ∧ ∃ t, encodeData long data = some t ∧
      bytes = (bank.request 0 0).letter :: s ++ t := by
    cases bank <;> simp [Bank.command, HostCommand.bytes, Option.bind_eq_some_iff] at written <;>
      obtain ⟨s, chr, t, encoded, rfl⟩ := written <;> exact ⟨s, chr, t, encoded, rfl⟩
  obtain ⟨s, chr, t, encoded, rfl⟩ := pieces
  obtain ⟨addr, rfl⟩ := exists_byte_of_escapeChr chr
  rw [escapeChr_toNat, Option.some.injEq] at chr
  obtain ⟨w, rfl, exact⟩ := word_of_encodeData encoded
  refine ⟨bank.request addr w, ⟨addr, w, data, fields, rfl, encoded, exact⟩, ?_⟩
  subst chr
  cases bank <;> simp [Request.frame, Bank.request, Request.letter, Request.payload]

theorem newline_not_mem_decimal (w : Word) : '\n' ∉ decimal w := fun member =>
  absurd (decimal_solid w _ member) (by decide)

/-- Numbers have no line end, so an answer is one line. -/
theorem readLine_callReport (c : Call) (m : Contents) :
    Text.readLine '\n' (c.report m) = (c.report m, []) := by
  have line : ∀ front middle : List Char, '\n' ∉ front → '\n' ∉ middle → ∀ v w : Word,
      Text.readLine '\n' (front ++ decimal v ++ middle ++ decimal w ++ "\r\n".toList) =
        (front ++ decimal v ++ middle ++ decimal w ++ "\r\n".toList, []) := by
    intro front middle lacks lacks' v w
    have body : '\n' ∉ front ++ decimal v ++ middle ++ decimal w ++ ['\r'] := by
      simp [newline_not_mem_decimal, lacks, lacks']
    have whole := Text.readLine_append body []
    simpa using whole
  cases c with
  | writeInstruction address data =>
    exact line "Wrote data ".toList " to instruction address ".toList (by decide) (by decide) _ _
  | writeData address data =>
    exact line "Wrote data ".toList " to data address ".toList (by decide) (by decide) _ _
  | readData address =>
    exact line "Recieved data ".toList " from address ".toList (by decide) (by decide) _ _

theorem report_request (bank : Bank) (addr : Byte) (w : Word) (m m' : Contents) :
    (bank.request addr w).call.report m = (bank.request addr w).call.report m' := by
  cases bank <;> rfl

theorem writes_of_asked {long : Bool} {bank : Bank} {lines : List (List Char)} {requests : List Request}
    (all : List.Forall₂ (Asked long bank) lines requests) :
    ∀ q ∈ requests, ∃ addr w, q = bank.request addr w := by
  induction all with
  | nil => simp
  | cons asked _ ih =>
    obtain ⟨addr, w, data, -, same, -, -⟩ := asked
    intro q member
    rcases List.mem_cons.mp member with rfl | later
    · exact ⟨addr, w, same⟩
    · exact ih q later

/-- One line that the script accepts. -/
theorem load_step (long : Bool) (ran : Nat → Contents → Contents) {bank : Bank} {line : List Char}
    {q : Request} (asked : Asked long bank line q) (written : lineBytes long bank line = some q.frame)
    (rest : List (List Char)) (m : Contents) :
    load long ran bank (line :: rest) (Port.idle m) =
      let ((printed, complete), p) := load long ran bank rest (Port.idle (q.call.perform m))
      ((pyRstrip (q.call.report m) :: printed, complete), p) := by
  obtain ⟨addr, w, data, -, rfl, -, -⟩ := asked
  rw [load, written]
  simp only [Port.idle_write, Port.readline, readLine_callReport]
  rfl

/-- The lines before the first that raises an error. -/
def accepted (long : Bool) (bank : Bank) (lines : List (List Char)) : List (List Char) :=
  lines.takeWhile fun line => (lineBytes long bank line).isSome

/-- Any file at all: the lines up to the first that the script cannot read go
over one by one, each as the write it asks for and with its own answer; behind
it nothing is sent, and the firmware waits for the next command. -/
theorem load_file (long : Bool) (ran : Nat → Contents → Contents) (bank : Bank)
    (lines : List (List Char)) (m : Contents) :
    ∃ requests, List.Forall₂ (Asked long bank) (accepted long bank lines) requests ∧
      load long ran bank lines (Port.idle m) =
        ((requests.map fun q => pyRstrip (q.call.report m),
            decide (accepted long bank lines = lines)),
          Port.idle (perform m (requests.map Request.call))) := by
  induction lines generalizing m with
  | nil => exact ⟨[], .nil, rfl⟩
  | cons line rest ih =>
    cases written : lineBytes long bank line with
    | none =>
      have stops : accepted long bank (line :: rest) = [] := by simp [accepted, written]
      refine ⟨[], stops ▸ .nil, ?_⟩
      rw [load, written, stops]
      rfl
    | some bytes =>
      obtain ⟨q, asked, rfl⟩ := asked_of_lineBytes written
      obtain ⟨requests, all, loaded⟩ := ih (q.call.perform m)
      have goes : accepted long bank (line :: rest) = line :: accepted long bank rest := by
        simp [accepted, written]
      refine ⟨q :: requests, goes ▸ .cons asked all, ?_⟩
      have answers : requests.map (fun r => pyRstrip (r.call.report (q.call.perform m))) =
          requests.map fun r => pyRstrip (r.call.report m) := by
        refine List.map_congr_left fun r member => ?_
        obtain ⟨addr, w, rfl⟩ := writes_of_asked all r member
        rw [report_request bank addr w _ m]
      rw [load_step long ran asked written, loaded, goes, answers]
      simp [perform]

/-! Files of lines in range: images of a memory. -/

/-- A line for every pair: address and data are its first two fields, which
one blank separates, and white space at its end does not matter. -/
def Image (lines : List (List Char)) (words : List (Byte × Word)) : Prop :=
  List.Forall₂ (fun line word => lineFields line = some ((word.1.toNat : Int), (word.2.toNat : Int)))
    lines words

theorem lineBytes_of_fields (long : Bool) (bank : Bank) {line : List Char} {word : Byte × Word}
    (fields : lineFields line = some ((word.1.toNat : Int), (word.2.toNat : Int))) :
    lineBytes long bank line = some (bank.request word.1 word.2).frame := by
  rw [lineBytes, fields, Option.bind_eq_bind, Option.bind_some,
    ← Request.command_bytes long (bank.request word.1 word.2)]
  cases bank <;> rfl

theorem perform_request (bank : Bank) (addr : Byte) (w : Word) (m : Contents) (b : Bank) :
    (bank.request addr w).call.perform m b =
      if b = bank then Function.update (m bank) addr w else m b := by
  funext a
  cases bank <;> cases b <;>
    simp [Bank.request, Request.call, Call.perform, Call.writes, MemoryWrite.apply,
      Function.update_apply]

theorem perform_image (bank : Bank) (words : List (Byte × Word)) (m : Contents) (b : Bank) :
    perform m (words.map fun word => (bank.request word.1 word.2).call) b =
      if b = bank then Store.writes (m bank) words else m b := by
  induction words generalizing m with
  | nil => cases b <;> cases bank <;> rfl
  | cons word rest ih =>
    rw [List.map_cons, perform, List.foldl_cons, ← perform, ih, perform_request, perform_request,
      if_pos rfl, Store.writes_cons]
    by_cases same : b = bank <;> simp [same]

theorem load_words (long : Bool) (ran : Nat → Contents → Contents) (bank : Bank)
    {lines : List (List Char)} {words : List (Byte × Word)} (image : Image lines words)
    (m : Contents) :
    ∃ printed, load long ran bank lines (Port.idle m) =
      ((printed, true),
        Port.idle (perform m (words.map fun word => (bank.request word.1 word.2).call))) := by
  induction image generalizing m with
  | nil => exact ⟨[], rfl⟩
  | @cons line word lines words fields _ ih =>
    obtain ⟨printed, loaded⟩ := ih ((bank.request word.1 word.2).call.perform m)
    have asked : Asked long bank line (bank.request word.1 word.2) :=
      ⟨word.1, word.2, _, fields, rfl, by rw [encodeData_toNat]; simp, fun _ _ => rfl⟩
    refine ⟨pyRstrip ((bank.request word.1 word.2).call.report m) :: printed, ?_⟩
    rw [load_step long ran asked (lineBytes_of_fields long bank fields), loaded]
    rfl

/-- An image is loaded whole: every address holds what the last line for it
says, addresses without a line keep what they held, and so does the other
memory. -/
theorem load_image (long : Bool) (ran : Nat → Contents → Contents) (bank : Bank)
    {lines : List (List Char)} {words : List (Byte × Word)} (image : Image lines words)
    (m : Contents) :
    ∃ printed m', load long ran bank lines (Port.idle m) = ((printed, true), Port.idle m') ∧
      (∀ a, m' bank a = (Store.latest a words).getD (m bank a)) ∧
      ∀ b, b ≠ bank → m' b = m b := by
  obtain ⟨printed, loaded⟩ := load_words long ran bank image m
  refine ⟨printed, _, loaded, fun a => ?_, fun b other => ?_⟩
  · rw [perform_image, if_pos rfl, Store.writes_apply]
  · rw [perform_image, if_neg other]

/-- Two lines for address 3, the second with a blank before the line end. -/
theorem load_image_twice :
    ∃ printed m', load true (fun _ => id) .imem ["03 08000000\n".toList, "0x3 0x08000003 \n".toList]
        (Port.idle fun _ _ => 0) = ((printed, true), Port.idle m') ∧ m' .imem 3#8 = 0x08000003#32 := by
  have image : Image ["03 08000000\n".toList, "0x3 0x08000003 \n".toList]
      [(3#8, 0x08000000#32), (3#8, 0x08000003#32)] :=
    .cons (by decide) (.cons (by decide) .nil)
  obtain ⟨printed, m', loaded, here, -⟩ := load_image true (fun _ => id) .imem image fun _ _ => 0
  exact ⟨printed, m', loaded, here 3#8⟩

end Tdt4255
