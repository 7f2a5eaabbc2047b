import Tdt4255.Host.Python
import Tdt4255.Driver.Access

/-! The byte strings that `host.py` writes for its commands. -/

namespace Tdt4255

/-- The branches on 0 and 255 around every `chr`. -/
def escapeChr (n : Int) : Option (List Byte) :=
  if n = 0 then some [255#8, 254#8]
  else if n = 255 then some [255#8, 255#8]
  else (pyChr n).map fun c => [c]

/-- `str(hex(v | 0x100000000))` less `0x1` and `L`. On a platform with short
integers the number is a long one. -/
def dataText (long : Bool) (v : Int) : List Char :=
  Text.remove ['L'] (Text.remove ['0', 'x', '1'] (pyHex long (Int.lor v 0x100000000)))

/-- The four slices `d1` to `d4`, all converted before any byte is written. -/
def encodeData (long : Bool) (v : Int) : Option (List Byte) := do
  let data := dataText long v
  let d1 ← pyInt 16 (pySlice 0 2 data)
  let d2 ← pyInt 16 (pySlice 2 4 data)
  let d3 ← pyInt 16 (pySlice 4 6 data)
  let d4 ← pyInt 16 (pySlice 6 8 data)
  let s1 ← escapeChr d1
  let s2 ← escapeChr d2
  let s3 ← escapeChr d3
  let s4 ← escapeChr d4
  return s1 ++ s2 ++ s3 ++ s4

/-- What is asked for on the command line or in a line of a file. -/
inductive HostCommand
  | i (addr data : Int)
  | d (addr data : Int)
  | r (addr : Int)
  | s
  deriving DecidableEq, Repr

def hostCmdInstruction : Byte := 0x69#8
def hostCmdWriteData : Byte := 0x64#8
def hostCmdReadData : Byte := 0x72#8
def hostCmdStartStopCpu : Byte := 0x73#8

/-- `none` when the script raises an error instead of writing. -/
def HostCommand.bytes (long : Bool) : HostCommand → Option (List Byte)
  | .i addr data => do
    let address ← escapeChr addr
    let data ← encodeData long data
    return hostCmdInstruction :: address ++ data
  | .d addr data => do
    let address ← escapeChr addr
    let data ← encodeData long data
    return hostCmdWriteData :: address ++ data
  | .r addr => do
    let address ← escapeChr addr
    return hostCmdReadData :: address
  | .s => some [hostCmdStartStopCpu]

def hostBytes (long : Bool) (commands : List HostCommand) : Option (List Byte) :=
  (commands.mapM (HostCommand.bytes long)).map List.flatten

/-! What the encoder does to values in range. -/

def escape (b : Byte) : List Byte :=
  if b = 0#8 then [255#8, 254#8] else if b = 255#8 then [255#8, 255#8] else [b]

theorem escapeChr_toNat (b : Byte) : escapeChr (b.toNat : Int) = some (escape b) := by
  have zero : (b.toNat : Int) = 0 ↔ b = 0#8 := by
    rw [← BitVec.toNat_inj]
    simp
  have full : (b.toNat : Int) = 255 ↔ b = 255#8 := by
    rw [← BitVec.toNat_inj]
    simp
    omega
  have small : (b.toNat : Int) < 256 := by exact_mod_cast b.isLt
  simp only [escapeChr, escape, zero, full]
  split_ifs
  · rfl
  · rfl
  · simp [pyChr, small]

theorem exists_byte_of_escapeChr {n : Int} {bytes : List Byte} (written : escapeChr n = some bytes) :
    ∃ b : Byte, n = (b.toNat : Int) := by
  have range : 0 ≤ n ∧ n < 256 := by
    by_contra outside
    rw [escapeChr, if_neg (by omega), if_neg (by omega), pyChr, if_neg outside] at written
    simp at written
  refine ⟨BitVec.ofNat 8 n.toNat, ?_⟩
  rw [BitVec.toNat_ofNat]
  omega

/-- Byte `k` of a word, counted from the low end. -/
def byteOf (w : Word) (k : Nat) : Byte := w.extractLsb' (8 * k) 8

theorem byteOf_toNat (w : Word) (k : Nat) : (byteOf w k).toNat = w.toNat / 16 ^ (2 * k) % 16 ^ 2 := by
  rw [byteOf, BitVec.extractLsb'_toNat, Nat.shiftRight_eq_div_pow, Nat.pow_mul, Nat.pow_mul]
  norm_num

theorem lor_pow (w : Word) : Int.lor (w.toNat : Int) 0x100000000 = ((2 ^ 32 + w.toNat : Nat) : Int) := by
  have or : 2 ^ 32 + w.toNat = w.toNat ||| 0x100000000 := by
    rw [Nat.or_comm]
    exact Nat.two_pow_add_eq_or_of_lt w.isLt 1
  rw [or]
  rfl

/-- What `data.replace('0x1', '')` leaves of the prefix and the leading digit. -/
def keptPrefix (d : Nat) : List Char := if d = 1 then [] else ['0', 'x', Nat.digitChar d]

theorem keptPrefix_noL {d : Nat} (digit : d < 16) : 'L' ∉ keptPrefix d := by
  interval_cases d <;> decide

theorem remove_keptPrefix {d : Nat} (digit : d < 16) {rest : List Char} (noX : 'x' ∉ rest) :
    Text.remove ['0', 'x', '1'] ('0' :: 'x' :: Nat.digitChar d :: rest) = keptPrefix d ++ rest := by
  by_cases one : d = 1
  · subst one
    have removed : Text.remove ['0', 'x', '1'] (['0', 'x', '1'] ++ rest) =
        Text.remove ['0', 'x', '1'] rest := Text.remove_append (by decide) rest
    exact removed.trans (Text.remove_of_not_mem (c := 'x') (by decide) noX)
  · have other : '1' ≠ Nat.digitChar d := by interval_cases d <;> first | contradiction | decide
    have notX : 'x' ≠ Nat.digitChar d := by interval_cases d <;> decide
    rw [keptPrefix, if_neg one, Text.remove_cons (by simpa using other), Text.remove_cons (by simp),
      Text.remove_of_not_mem (c := 'x') (by decide) (by simpa [notX] using noX)]
    rfl

theorem dataText_leading (long : Bool) {v : Int} {d k m : Nat} (positive : 0 < d) (digit : d < 16)
    (bound : m < 16 ^ k) (value : (Int.lor v 0x100000000).natAbs = d * 16 ^ k + m) :
    dataText long v = (if Int.lor v 0x100000000 < 0 then ['-'] else []) ++
      (keptPrefix d ++ Numeral.padded 16 k m) := by
  set z := Int.lor v 0x100000000
  set suffix : List Char := if long then ['L'] else []
  set digits := Numeral.padded 16 k m
  have plain : Numeral.Plain digits := plain_hex k m
  have noX : 'x' ∉ digits ++ suffix := by
    have inside := plain.ne (c := 'x') (by decide)
    cases long <;> simpa [suffix] using inside
  have noL : 'L' ∉ digits := plain.ne (by decide)
  have shape : pyHex long z = (if z < 0 then ['-'] else []) ++
      ('0' :: 'x' :: Nat.digitChar d :: (digits ++ suffix)) := by
    rw [pyHex, value, Numeral.toDigits_leading (by decide) positive digit bound]
    simp [suffix, digits]
  have unsuffixed : ∀ sign : List Char, 'L' ∉ sign →
      Text.remove ['L'] (sign ++ (keptPrefix d ++ (digits ++ suffix))) =
        sign ++ (keptPrefix d ++ digits) := by
    intro sign inSign
    have lacks : 'L' ∉ sign ++ (keptPrefix d ++ digits) := by simp [inSign, noL, keptPrefix_noL digit]
    rw [← remove_suffix lacks long]
    simp only [suffix, List.append_assoc]
  rw [dataText, shape]
  by_cases negative : z < 0
  · rw [if_pos negative, List.singleton_append, Text.remove_cons (by simp),
      remove_keptPrefix digit noX]
    exact unsuffixed ['-'] (by decide)
  · rw [if_neg negative, List.nil_append, remove_keptPrefix digit noX]
    exact unsuffixed [] (by decide)

theorem dataText_toNat (long : Bool) (w : Word) :
    dataText long (w.toNat : Int) = Numeral.padded 16 8 w.toNat := by
  have value : (Int.lor (w.toNat : Int) 0x100000000).natAbs = 1 * 16 ^ 8 + w.toNat := by
    rw [lor_pow, Int.natAbs_natCast]
    norm_num
  rw [dataText_leading long (by decide) (by decide) w.isLt value, if_neg (by rw [lor_pow]; omega)]
  rfl

theorem pyInt_pySlice (w : Word) {i k : Nat} (place : i + (2 + 2 * k) = 8) :
    pyInt 16 (pySlice i (i + 2) (Numeral.padded 16 8 w.toNat)) = some ((byteOf w k).toNat : Int) := by
  have digits := Numeral.take_drop_padded 16 i 2 (2 * k) w.toNat
  rw [place] at digits
  rw [pySlice, Nat.add_sub_cancel_left, digits,
    pyInt_plain (plain_hex 2 _), parse_hex,
    byteOf_toNat]
  rfl

/-- The four bytes of a word, most significant first. -/
theorem encodeData_toNat (long : Bool) (w : Word) :
    encodeData long (w.toNat : Int) =
      some (escape (byteOf w 3) ++ escape (byteOf w 2) ++ escape (byteOf w 1) ++
        escape (byteOf w 0)) := by
  have d1 := pyInt_pySlice w (i := 0) (k := 3) rfl
  have d2 := pyInt_pySlice w (i := 2) (k := 2) rfl
  have d3 := pyInt_pySlice w (i := 4) (k := 1) rfl
  have d4 := pyInt_pySlice w (i := 6) (k := 0) rfl
  simp only [Nat.zero_add, Nat.reduceAdd] at d1 d2 d3 d4
  rw [encodeData, dataText_toNat, d1, d2, d3, d4]
  simp only [Option.bind_eq_bind, Option.bind_some, escapeChr_toNat]
  rfl

end Tdt4255
