import Tdt4255.Lib.Numeral
import Tdt4255.Lib.Text

/-! The built-ins of Python 2 that `host.py` uses on numbers and strings. -/

namespace Tdt4255

/-- `hex(n)`; a long integer carries the suffix `L`. -/
def pyHex (long : Bool) (n : Int) : List Char :=
  (if n < 0 then ['-'] else []) ++ ['0', 'x'] ++ Nat.toDigits 16 n.natAbs ++
    if long then ['L'] else []

/-- `int(text)` returns a long integer beyond the native range. -/
def isLong (long : Bool) (n : Int) : Bool :=
  let bound : Int := if long then 2 ^ 31 else 2 ^ 63
  n < -bound ∨ bound ≤ n

/-- The blank, and the control characters from the tab to the return. -/
def isSpace (c : Char) : Bool := c = ' ' ∨ 9 ≤ c.toNat ∧ c.toNat ≤ 13

def pyRstrip (text : List Char) : List Char := text.rdropWhile isSpace

/-- Digits behind the sign; base 16 admits a prefix. -/
def pyDigits (base : Nat) : List Char → Option Nat
  | '0' :: 'x' :: rest => if base = 16 then Numeral.parse 16 rest else none
  | '0' :: 'X' :: rest => if base = 16 then Numeral.parse 16 rest else none
  | text => Numeral.parse base text

/-- `int(text, base)`; `none` is a `ValueError`. -/
def pyInt (base : Nat) (text : List Char) : Option Int :=
  match pyRstrip (text.dropWhile isSpace) with
  | '-' :: rest => (pyDigits base rest).map fun n : Nat => -(n : Int)
  | '+' :: rest => (pyDigits base rest).map fun n : Nat => (n : Int)
  | rest => (pyDigits base rest).map fun n : Nat => (n : Int)

def pySplit (text : List Char) : List (List Char) := text.splitOn ' '

/-- `text[i:j]`. -/
def pySlice (i j : Nat) (text : List Char) : List Char := (text.drop i).take (j - i)

abbrev Byte := BitVec 8

/-- `chr(n)`; `none` is a `ValueError`. -/
def pyChr (n : Int) : Option Byte := if 0 ≤ n ∧ n < 256 then some (BitVec.ofInt 8 n) else none

theorem digitChar_not_space {d : Nat} (small : d < 16) : isSpace (Nat.digitChar d) = false := by
  interval_cases d <;> rfl

theorem plain_hex (k n : Nat) : Numeral.Plain (Numeral.padded 16 k n) :=
  Numeral.plain_padded (by decide) le_rfl k n

theorem parse_hex (k n : Nat) :
    Numeral.parse 16 (Numeral.padded 16 (k + 1) n) = some (n % 16 ^ (k + 1)) :=
  Numeral.parse_padded (by decide) le_rfl k n

theorem not_space_of_plain {text : List Char} (plain : Numeral.Plain text) {c : Char} (member : c ∈ text) :
    isSpace c = false := by
  obtain ⟨d, small, rfl⟩ := plain c member
  exact digitChar_not_space small

theorem dropWhile_isSpace {text : List Char} (plain : ∀ c ∈ text, isSpace c = false) :
    text.dropWhile isSpace = text := by
  cases text with
  | nil => rfl
  | cons c rest => simp [plain c List.mem_cons_self]

theorem pyRstrip_of_not_space {text : List Char} (plain : ∀ c ∈ text, isSpace c = false) :
    pyRstrip text = text := by
  rw [pyRstrip, List.rdropWhile, dropWhile_isSpace (by simpa using plain), List.reverse_reverse]

theorem pyRstrip_append {blanks : List Char} (blank : ∀ c ∈ blanks, isSpace c = true)
    (text : List Char) : pyRstrip (text ++ blanks) = pyRstrip text := by
  rw [pyRstrip, List.rdropWhile, List.reverse_append,
    List.dropWhile_append_of_pos (by simpa using blank)]
  rfl

theorem pyRstrip_word {word : List Char} (nonempty : word ≠ []) (solid : ∀ c ∈ word, isSpace c = false)
    (front : List Char) : pyRstrip (front ++ word) = front ++ word := by
  obtain ⟨init, last, rfl⟩ := List.eq_nil_or_concat word |>.resolve_left nonempty
  have kept : ¬ isSpace last = true := by simp [solid last (by simp)]
  rw [List.concat_eq_append, ← List.append_assoc, pyRstrip, List.rdropWhile_concat_neg _ _ _ kept]

theorem pyDigits_plain {base : Nat} {text : List Char} (plain : Numeral.Plain text) :
    pyDigits base text = Numeral.parse base text := by
  unfold pyDigits
  split
  · exact absurd (List.mem_cons_of_mem _ List.mem_cons_self) (plain.ne (by decide))
  · exact absurd (List.mem_cons_of_mem _ List.mem_cons_self) (plain.ne (by decide))
  · rfl

/-- The three forms of a number that the tools exchange: bare digits, digits
behind a minus sign, and digits behind `0x`. -/
theorem pyInt_plain {base : Nat} {text : List Char} (plain : Numeral.Plain text) :
    pyInt base text = (Numeral.parse base text).map fun n : Nat => (n : Int) := by
  have blank : ∀ c ∈ text, isSpace c = false := fun _ member => not_space_of_plain plain member
  rw [pyInt, dropWhile_isSpace blank, pyRstrip_of_not_space blank]
  split
  · exact absurd List.mem_cons_self (plain.ne (by decide))
  · exact absurd List.mem_cons_self (plain.ne (by decide))
  · rw [pyDigits_plain plain]

theorem pyInt_minus {base : Nat} {text : List Char} (plain : Numeral.Plain text) :
    pyInt base ('-' :: text) = (Numeral.parse base text).map fun n : Nat => -(n : Int) := by
  have blank : ∀ c ∈ '-' :: text, isSpace c = false := by
    rintro c member
    rcases List.mem_cons.mp member with rfl | inside
    · rfl
    · exact not_space_of_plain plain inside
  rw [pyInt, dropWhile_isSpace blank, pyRstrip_of_not_space blank]
  simp only [pyDigits_plain plain]

theorem pyInt_hex {text : List Char} (plain : Numeral.Plain text) :
    pyInt 16 ('0' :: 'x' :: text) = (Numeral.parse 16 text).map fun n : Nat => (n : Int) := by
  have blank : ∀ c ∈ '0' :: 'x' :: text, isSpace c = false := by
    rintro c member
    rcases List.mem_cons.mp member with rfl | inside
    · rfl
    · rcases List.mem_cons.mp inside with rfl | inside
      · rfl
      · exact not_space_of_plain plain inside
  rw [pyInt, dropWhile_isSpace blank, pyRstrip_of_not_space blank]
  rfl

theorem pyHex_natCast (n : Nat) : pyHex false n = '0' :: 'x' :: Nat.toDigits 16 n := by
  simp [pyHex]

theorem pyHex_long (long : Bool) (n : Int) :
    pyHex long n = pyHex false n ++ if long then ['L'] else [] := by
  simp [pyHex]

theorem remove_suffix {text : List Char} (lacks : 'L' ∉ text) (long : Bool) :
    Text.remove ['L'] (text ++ if long then ['L'] else []) = text := by
  cases long with
  | false => exact (congrArg _ (List.append_nil _)).trans (Text.remove_of_not_mem (by decide) lacks)
  | true => exact Text.remove_concat lacks

theorem remove_long (long : Bool) (n : Nat) : Text.remove ['L'] (pyHex long n) = pyHex false n := by
  have digits : 'L' ∉ Nat.toDigits 16 n :=
    (Numeral.plain_toDigits (by decide) le_rfl n).ne (by decide)
  have lacks : 'L' ∉ pyHex false n := by simpa [pyHex_natCast] using digits
  rw [pyHex_long, remove_suffix lacks]

theorem pyInt_pyHex (n : Nat) : pyInt 16 (pyHex false n) = some (n : Int) := by
  rw [pyHex_natCast, pyInt_hex (Numeral.plain_toDigits (by decide) le_rfl n),
    Numeral.parse_toDigits (by decide) le_rfl]
  rfl

theorem pyHex_solid (n : Nat) : ∀ c ∈ pyHex false n, isSpace c = false := by
  have digits := Numeral.plain_toDigits (b := 16) (by decide) le_rfl n
  rw [pyHex_natCast, List.forall_mem_cons, List.forall_mem_cons]
  exact ⟨rfl, rfl, fun _ => not_space_of_plain digits⟩

/-- The mask makes the signed value of a word unsigned again. -/
theorem land_mask (w : BitVec 32) : Int.land w.toInt 0xFFFFFFFF = w.toNat := by
  have bound := w.isLt
  have mask : 0xFFFFFFFF = 2 ^ 32 - 1 := rfl
  by_cases negative : w.toInt < 0
  · have value : w.toInt = Int.negSucc (2 ^ 32 - (w.toNat + 1)) := by
      rw [BitVec.toInt_eq_toNat_cond] at negative ⊢
      split_ifs at negative ⊢ <;> omega
    have bits : Nat.ldiff 0xFFFFFFFF (2 ^ 32 - (w.toNat + 1)) = w.toNat := by
      refine Nat.eq_of_testBit_eq fun i => ?_
      rw [Nat.testBit_ldiff, Nat.testBit_two_pow_sub_succ bound, mask, Nat.testBit_two_pow_sub_one]
      by_cases low : i < 32
      · simp [low]
      · have high : w.toNat.testBit i = false :=
          Nat.testBit_lt_two_pow (bound.trans_le (Nat.pow_le_pow_right (by omega) (by omega)))
        simp [low, high]
    rw [value]
    exact congrArg Int.ofNat bits
  · have value : w.toInt = w.toNat := by
      rw [BitVec.toInt_eq_toNat_cond] at negative ⊢
      split_ifs at negative ⊢ <;> omega
    have bits : w.toNat &&& 0xFFFFFFFF = w.toNat := by
      rw [mask, Nat.and_two_pow_sub_one_eq_mod, Nat.mod_eq_of_lt bound]
    rw [value]
    exact congrArg Int.ofNat bits

end Tdt4255
