import Tdt4255.Serial.RoundTrip

/-! Which arguments `host.py` sends as other data words. -/

namespace Tdt4255

/-- For an argument in range the bytes of the data read back as the argument;
any other is an error before a byte is written. -/
def SendsAsAsked (long : Bool) (v : Int) : Prop :=
  ∀ addr : Int, 0 ≤ addr → addr ≤ 255 →
    ∀ command ∈ [HostCommand.i addr v, HostCommand.d addr v],
      ((0 ≤ v ∧ v < 2 ^ 32) ∧
        ∃ letter address data w, command.bytes long = some (letter :: (address ++ data)) ∧
          escapeChr addr = some address ∧ recieveData data = some (w, []) ∧ (w.toNat : Int) = v) ∨
      (¬ (0 ≤ v ∧ v < 2 ^ 32) ∧ command.bytes long = none)

/-- Arguments out of range that four slices can still be taken from: large ones
with the leading digit 1, and negative ones that start with 1 and 0 and have
seven digits or more once bit 32 is set. -/
def Slips (v : Int) : Prop :=
  (2 ^ 32 ≤ v ∧ ∃ k, 16 ^ k ≤ v ∧ v < 2 * 16 ^ k) ∨
    (v < 0 ∧ ∃ k, 5 ≤ k ∧ 16 ^ (k + 1) ≤ -Int.lor v 0x100000000 ∧
      -Int.lor v 0x100000000 < 17 * 16 ^ k)

/-! Slices of the text that are bytes. -/

/-- A slice that `int` and `chr` take. -/
def ByteText (text : List Char) : Prop := ∃ b : Byte, pyInt 16 text = some (b.toNat : Int)

theorem encodeData_isSome_iff (long : Bool) (v : Int) : (encodeData long v).isSome ↔
    ∀ i ∈ [0, 2, 4, 6], ByteText (pySlice i (i + 2) (dataText long v)) := by
  constructor
  · intro written
    obtain ⟨bytes, written⟩ := Option.isSome_iff_exists.mp written
    simp only [encodeData, Option.bind_eq_bind, Option.bind_eq_some_iff] at written
    obtain ⟨d1, slice1, d2, slice2, d3, slice3, d4, slice4, s1, chr1, s2, chr2, s3, chr3, s4, chr4, _⟩ :=
      written
    obtain ⟨b1, rfl⟩ := exists_byte_of_escapeChr chr1
    obtain ⟨b2, rfl⟩ := exists_byte_of_escapeChr chr2
    obtain ⟨b3, rfl⟩ := exists_byte_of_escapeChr chr3
    obtain ⟨b4, rfl⟩ := exists_byte_of_escapeChr chr4
    simpa using ⟨⟨b1, slice1⟩, ⟨b2, slice2⟩, ⟨b3, slice3⟩, ⟨b4, slice4⟩⟩
  · intro slices
    obtain ⟨b1, slice1⟩ := slices 0 (by simp)
    obtain ⟨b2, slice2⟩ := slices 2 (by simp)
    obtain ⟨b3, slice3⟩ := slices 4 (by simp)
    obtain ⟨b4, slice4⟩ := slices 6 (by simp)
    simp only [Nat.zero_add, Nat.reduceAdd] at slice1 slice2 slice3 slice4
    simp [encodeData, slice1, slice2, slice3, slice4, escapeChr_toNat]

theorem byteText_plain {text : List Char} (plain : Numeral.Plain text) (nonempty : text ≠ [])
    (short : text.length ≤ 2) : ByteText text := by
  obtain ⟨n, bound, digits⟩ := plain.eq_padded
  obtain ⟨k, length⟩ := Nat.exists_eq_succ_of_ne_zero (mt List.length_eq_zero_iff.mp nonempty)
  have small : n < 2 ^ 8 := bound.trans_le (Nat.pow_le_pow_right (n := 16) (by decide) short)
  rw [length] at digits bound
  refine ⟨BitVec.ofNat 8 n, ?_⟩
  rw [pyInt_plain plain, digits, parse_hex, Nat.mod_eq_of_lt bound,
    BitVec.toNat_ofNat, Nat.mod_eq_of_lt small]
  rfl

theorem byteText_slice {front digits : List Char} {i : Nat} (plain : Numeral.Plain digits)
    (behind : front.length ≤ i) (within : i < front.length + digits.length) :
    ByteText (pySlice i (i + 2) (front ++ digits)) := by
  have slice : pySlice i (i + 2) (front ++ digits) = (digits.drop (i - front.length)).take 2 := by
    rw [pySlice, List.drop_append, List.drop_eq_nil_of_le behind, List.nil_append,
      Nat.add_sub_cancel_left]
  rw [slice]
  refine byteText_plain (fun c member => plain c ?_) ?_ (List.length_take_le _ _)
  · exact List.mem_of_mem_drop (List.mem_of_mem_take member)
  · intro nil
    have length := congrArg List.length nil
    rw [List.length_take, List.length_drop, List.length_nil] at length
    omega

theorem not_byteText {text : List Char} (refused : pyInt 16 text = none) : ¬ ByteText text := by
  rintro ⟨b, read⟩
  rw [refused] at read
  exact absurd read (Option.some_ne_none _).symm

theorem byteText_minus (text : List Char) (plain : Numeral.Plain text) :
    ByteText ('-' :: text) ↔ Numeral.parse 16 text = some 0 := by
  rw [ByteText, pyInt_minus plain]
  constructor
  · rintro ⟨b, read⟩
    obtain ⟨n, parsed, same⟩ := Option.map_eq_some_iff.mp read
    obtain rfl : n = 0 := by omega
    exact parsed
  · intro parsed
    exact ⟨0#8, by rw [parsed]; rfl⟩

variable {long : Bool} {v : Int} {d k m : Nat}

theorem encodeData_nonneg (positive : 0 < d) (digit : d < 16) (bound : m < 16 ^ k) (wide : 8 ≤ k)
    (value : (Int.lor v 0x100000000).natAbs = d * 16 ^ k + m)
    (nonneg : 0 ≤ Int.lor v 0x100000000) : (encodeData long v).isSome ↔ d = 1 := by
  have text := dataText_leading long positive digit bound value
  rw [if_neg (by omega), List.nil_append] at text
  rw [encodeData_isSome_iff, text]
  by_cases one : d = 1
  · refine iff_of_true (fun i member => ?_) one
    have inside : i ≤ 6 := by simp at member; omega
    rw [keptPrefix, if_pos one]
    refine byteText_slice (plain_hex k m) (Nat.zero_le _) ?_
    rw [Numeral.length_padded, List.length_nil]
    omega
  · refine iff_of_false (fun slices => ?_) one
    have first : ByteText (pySlice 0 2 (keptPrefix d ++ Numeral.padded 16 k m)) := slices 0 (by simp)
    have slice : pySlice 0 2 (keptPrefix d ++ Numeral.padded 16 k m) = ['0', 'x'] := by
      rw [keptPrefix, if_neg one]
      rfl
    rw [slice] at first
    exact not_byteText rfl first

/-- Behind a sign the first digit is to be zero and the last slice not empty. -/
theorem byteText_slices_minus (bound : m < 16 ^ k) :
    (∀ i ∈ [0, 2, 4, 6], ByteText (pySlice i (i + 2) (['-'] ++ Numeral.padded 16 k m))) ↔
      6 ≤ k ∧ m < 16 ^ (k - 1) := by
  have plain : Numeral.Plain (Numeral.padded 16 k m) := plain_hex k m
  by_cases long : 6 ≤ k
  · obtain ⟨j, rfl⟩ : ∃ j, k = 1 + j := ⟨k - 1, by omega⟩
    have first : pySlice 0 2 (['-'] ++ Numeral.padded 16 (1 + j) m) =
        '-' :: Numeral.padded 16 1 (m / 16 ^ j) := by
      rw [Numeral.padded_add]
      rfl
    have zero : ByteText (pySlice 0 2 (['-'] ++ Numeral.padded 16 (1 + j) m)) ↔ m < 16 ^ j := by
      have top : m / 16 ^ j < 16 := by
        rw [Nat.div_lt_iff_lt_mul (by positivity), ← Nat.pow_succ', Nat.succ_eq_one_add]
        exact bound
      rw [first, byteText_minus _ (plain_hex _ _), parse_hex, Option.some_inj, Nat.zero_add,
        Nat.pow_one,
        Nat.mod_eq_of_lt top, Nat.div_eq_zero_iff_lt (by positivity)]
    rw [Nat.add_sub_cancel_left, ← zero]
    constructor
    · intro slices
      exact ⟨long, slices 0 (by simp)⟩
    · rintro ⟨-, atZero⟩ i member
      have later : i = 0 ∨ 1 ≤ i ∧ i ≤ 6 := by simp at member; omega
      rcases later with rfl | ⟨low, high⟩
      · exact atZero
      · refine byteText_slice plain low ?_
        rw [Numeral.length_padded, List.length_singleton]
        omega
  · refine iff_of_false (fun slices => ?_) (fun both => long both.1)
    have last : ByteText (pySlice 6 8 (['-'] ++ Numeral.padded 16 k m)) := slices 6 (by simp)
    have empty : pySlice 6 8 (['-'] ++ Numeral.padded 16 k m) = [] := by
      rw [pySlice, List.drop_eq_nil_of_le]
      · rfl
      · rw [List.length_append, Numeral.length_padded, List.length_singleton]
        omega
    rw [empty] at last
    exact not_byteText rfl last

theorem encodeData_negative (positive : 0 < d) (digit : d < 16) (bound : m < 16 ^ k)
    (value : (Int.lor v 0x100000000).natAbs = d * 16 ^ k + m)
    (negative : Int.lor v 0x100000000 < 0) :
    (encodeData long v).isSome ↔ d = 1 ∧ 6 ≤ k ∧ m < 16 ^ (k - 1) := by
  have text := dataText_leading long positive digit bound value
  rw [if_pos negative] at text
  rw [encodeData_isSome_iff, text]
  by_cases one : d = 1
  · rw [keptPrefix, if_pos one, List.nil_append, byteText_slices_minus bound]
    exact (and_iff_right one).symm
  · refine iff_of_false (fun slices => ?_) (fun all => one all.1)
    have second : ByteText (pySlice 2 4 (['-'] ++ (keptPrefix d ++ Numeral.padded 16 k m))) :=
      slices 2 (by simp)
    have slice : pySlice 2 4 (['-'] ++ (keptPrefix d ++ Numeral.padded 16 k m)) =
        ['x', Nat.digitChar d] := by
      rw [keptPrefix, if_neg one]
      rfl
    have refused : pyInt 16 ['x', Nat.digitChar d] = none := by
      interval_cases d <;> rfl
    rw [slice] at second
    exact not_byteText refused second

/-! The argument with bit 32 set. -/

/-- Below the next power of two the bit changes nothing but itself. -/
theorem leading_one_lor {n : Nat} (large : 2 ^ 32 ≤ n) (k : Nat) :
    16 ^ k ≤ n ||| 2 ^ 32 ∧ n ||| 2 ^ 32 < 2 * 16 ^ k ↔ 16 ^ k ≤ n ∧ n < 2 * 16 ^ k := by
  have power : 16 ^ k = 2 ^ (4 * k) := (Nat.pow_mul 2 4 k).symm
  have double : 2 * 16 ^ k = 2 ^ (4 * k + 1) := by rw [power, Nat.pow_succ']
  have above : n ≤ n ||| 2 ^ 32 := Nat.left_le_or
  constructor
  · rintro ⟨lower, upper⟩
    refine ⟨?_, above.trans_lt upper⟩
    by_contra below
    rw [power] at lower below
    exact absurd (Nat.or_lt_two_pow (by omega) (large.trans_lt (by omega))) lower.not_gt
  · rintro ⟨lower, upper⟩
    rw [double] at upper ⊢
    exact ⟨lower.trans above, Nat.or_lt_two_pow upper (large.trans_lt upper)⟩

theorem lor_nonneg {v : Int} (nonneg : 0 ≤ v) :
    ∃ n : Nat, Int.lor v 0x100000000 = n ∧ 2 ^ 32 ≤ n := by
  obtain ⟨a, rfl⟩ := Int.eq_ofNat_of_zero_le nonneg
  exact ⟨a ||| 0x100000000, rfl, Nat.right_le_or⟩

theorem lor_negative {v : Int} (negative : v < 0) :
    ∃ n : Nat, Int.lor v 0x100000000 = -(n : Int) ∧ 0 < n := by
  obtain ⟨a, rfl⟩ := Int.eq_negSucc_of_lt_zero negative
  exact ⟨Nat.ldiff a 0x100000000 + 1, rfl, Nat.succ_pos _⟩

theorem slips_iff_large (large : 2 ^ 32 ≤ v) (positive : 0 < d) (digit : d < 16)
    (bound : m < 16 ^ k) (value : Int.lor v 0x100000000 = ((d * 16 ^ k + m : Nat) : Int)) :
    Slips v ↔ d = 1 := by
  obtain ⟨n, rfl⟩ := Int.eq_ofNat_of_zero_le (a := v) (by omega)
  have wide : 2 ^ 32 ≤ n := by exact_mod_cast large
  have set : n ||| 2 ^ 32 = d * 16 ^ k + m := Int.ofNat.inj value
  have only : Slips n ↔ ∃ j, 16 ^ j ≤ d * 16 ^ k + m ∧ d * 16 ^ k + m < 2 * 16 ^ j := by
    rw [← set]
    constructor
    · rintro (⟨-, j, lower, upper⟩ | ⟨negative, -⟩)
      · exact ⟨j, (leading_one_lor wide j).mpr ⟨by exact_mod_cast lower, by exact_mod_cast upper⟩⟩
      · omega
    · rintro ⟨j, both⟩
      obtain ⟨lower, upper⟩ := (leading_one_lor wide j).mp both
      exact .inl ⟨large, j, by exact_mod_cast lower, by exact_mod_cast upper⟩
  rw [only]
  constructor
  · rintro ⟨j, lower, upper⟩
    have next : 2 * 16 ^ j ≤ 16 ^ (j + 1) := by rw [Nat.pow_succ']; omega
    obtain rfl : k = j := Numeral.place_unique positive digit bound lower (upper.trans_le next)
    have less : d * 16 ^ k < 2 * 16 ^ k := by omega
    have small : d < 2 := Nat.lt_of_mul_lt_mul_right less
    omega
  · rintro rfl
    exact ⟨k, by omega, by omega⟩

theorem slips_iff_negative (negative : v < 0) (positive : 0 < d) (digit : d < 16)
    (bound : m < 16 ^ k) (value : Int.lor v 0x100000000 = -((d * 16 ^ k + m : Nat) : Int)) :
    Slips v ↔ d = 1 ∧ 6 ≤ k ∧ m < 16 ^ (k - 1) := by
  have only : Slips v ↔ ∃ j, 5 ≤ j ∧ 16 ^ (j + 1) ≤ d * 16 ^ k + m ∧
      d * 16 ^ k + m < 17 * 16 ^ j := by
    rw [Slips, value, neg_neg]
    constructor
    · rintro (⟨large, -⟩ | ⟨-, j, five, lower, upper⟩)
      · omega
      · exact ⟨j, five, by exact_mod_cast lower, by exact_mod_cast upper⟩
    · rintro ⟨j, five, lower, upper⟩
      exact .inr ⟨negative, j, five, by exact_mod_cast lower, by exact_mod_cast upper⟩
  rw [only]
  constructor
  · rintro ⟨j, five, lower, upper⟩
    have next : 17 * 16 ^ j ≤ 16 ^ (j + 1 + 1) := by
      rw [Nat.pow_succ', Nat.pow_succ']
      omega
    obtain rfl : k = j + 1 :=
      Numeral.place_unique positive digit bound lower (upper.trans_le next)
    rw [Nat.pow_succ', ← Nat.mul_assoc] at upper
    have less : d * 16 * 16 ^ j < 17 * 16 ^ j := by omega
    have small : d * 16 < 17 := Nat.lt_of_mul_lt_mul_right less
    obtain rfl : d = 1 := by omega
    exact ⟨rfl, by omega, by rw [Nat.add_sub_cancel]; omega⟩
  · rintro ⟨rfl, long, small⟩
    obtain ⟨j, rfl⟩ : ∃ j, k = j + 1 := ⟨k - 1, by omega⟩
    rw [Nat.add_sub_cancel] at small
    have power : 16 ^ (j + 1) = 16 * 16 ^ j := Nat.pow_succ'
    exact ⟨j, by omega, by omega, by omega⟩

theorem encodeData_isSome_iff_slips (long : Bool) (outside : ¬ (0 ≤ v ∧ v < 2 ^ 32)) :
    (encodeData long v).isSome ↔ Slips v := by
  by_cases negative : v < 0
  · obtain ⟨n, value, some⟩ := lor_negative negative
    obtain ⟨d, k, m, positive, digit, bound, rfl⟩ := Numeral.exists_leading (b := 16) (by decide) some
    rw [encodeData_negative positive digit bound (by rw [value, Int.natAbs_neg, Int.natAbs_natCast])
      (by omega), slips_iff_negative negative positive digit bound value]
  · obtain ⟨n, value, large⟩ := lor_nonneg (v := v) (by omega)
    obtain ⟨d, k, m, positive, digit, bound, rfl⟩ :=
      Numeral.exists_leading (b := 16) (n := n) (by decide) (by omega)
    have wide : 8 ≤ k := by
      have place := Numeral.log_leading positive digit bound
      rw [← place]
      exact Nat.le_log_of_pow_le (by decide) large
    rw [encodeData_nonneg positive digit bound wide (by rw [value, Int.natAbs_natCast]) (by omega),
      slips_iff_large (by omega) positive digit bound value]

/-! The bytes of a word, read back. -/

theorem readCharacter_escape (b : Byte) (rest : List Byte) :
    readCharacter (escape b ++ rest) = some (b.setWidth 32, rest) := by
  by_cases zero : b = 0#8
  · subst zero
    rfl
  · by_cases full : b = 255#8
    · subst full
      rfl
    · simp [escape, zero, full, readCharacter, getNonZero]

theorem recieveData_escape (w : Word) (rest : List Byte) :
    recieveData (escape (byteOf w 3) ++ (escape (byteOf w 2) ++ (escape (byteOf w 1) ++
      (escape (byteOf w 0) ++ rest)))) = some (w, rest) := by
  simp only [recieveData, readCharacter_escape, Option.bind_eq_bind, Option.bind_some,
    Request.joinChars_byteOf]
  rfl

theorem sendsAsAsked_toNat (long : Bool) (w : Word) : SendsAsAsked long (w.toNat : Int) := by
  intro addr low high command member
  have range : 0 ≤ (w.toNat : Int) ∧ (w.toNat : Int) < 2 ^ 32 := by
    have bound := w.isLt
    omega
  have address : addr = ((BitVec.ofNat 8 addr.toNat).toNat : Int) := by
    rw [BitVec.toNat_ofNat]
    omega
  have written := encodeData_toNat long w
  have read := recieveData_escape w []
  rw [address] at member ⊢
  refine .inl ⟨range, ?_⟩
  simp only [List.append_nil] at read
  simp only [List.append_assoc] at written
  rcases List.mem_pair.mp member with rfl | rfl
  · refine ⟨hostCmdInstruction, _, _, w, ?_, escapeChr_toNat _, read, rfl⟩
    rw [HostCommand.bytes, escapeChr_toNat, written]
    rfl
  · refine ⟨hostCmdWriteData, _, _, w, ?_, escapeChr_toNat _, read, rfl⟩
    rw [HostCommand.bytes, escapeChr_toNat, written]
    rfl

theorem sendsAsAsked_outside (long : Bool) (outside : ¬ (0 ≤ v ∧ v < 2 ^ 32)) :
    SendsAsAsked long v ↔ encodeData long v = none := by
  constructor
  · intro sends
    have refused := ((sends 1 (by decide) (by decide) (.i 1 v) (by simp)).resolve_left
      fun sent => outside sent.1).2
    exact Option.eq_none_iff_forall_ne_some.mpr (by
      simpa [HostCommand.bytes, escapeChr, pyChr] using refused)
  · intro refused addr low high command member
    refine .inr ⟨outside, ?_⟩
    rcases List.mem_pair.mp member with rfl | rfl <;> simp [HostCommand.bytes, refused]

/-- A data word goes over as asked for, or is refused before a byte is sent,
unless the argument slips through the slices. -/
theorem data_word_as_asked_iff (long : Bool) (v : Int) : SendsAsAsked long v ↔ ¬ Slips v := by
  by_cases inside : 0 ≤ v ∧ v < 2 ^ 32
  · obtain ⟨w, rfl⟩ : ∃ w : Word, v = (w.toNat : Int) := by
      refine ⟨BitVec.ofNat 32 v.toNat, ?_⟩
      rw [BitVec.toNat_ofNat]
      omega
    refine iff_of_true (sendsAsAsked_toNat long w) ?_
    rintro (⟨large, -⟩ | ⟨negative, -⟩)
    · exact large.not_gt inside.2
    · exact negative.not_ge inside.1
  · rw [sendsAsAsked_outside long inside, ← encodeData_isSome_iff_slips long inside,
      Option.not_isSome_iff_eq_none]

/-- The word 5 is sent for the nine digits 100000005. -/
theorem ninth_digit_dropped :
    (HostCommand.i 0x10 0x100000005).bytes false = (HostCommand.i 0x10 5).bytes false ∧
      ¬ SendsAsAsked false 0x100000005 := by
  have five : (HostCommand.i 0x10 0x100000005).bytes false =
      some [0x69, 0x10, 0xFF, 0xFE, 0xFF, 0xFE, 0xFF, 0xFE, 0x05] := by decide
  refine ⟨five.trans (by decide), fun sends => ?_⟩
  have refused := ((sends 0x10 (by decide) (by decide) (.i 0x10 0x100000005) (by simp)).resolve_left
    fun sent => absurd sent.1 (by decide)).2
  rw [five] at refused
  exact absurd refused (by simp)

end Tdt4255
