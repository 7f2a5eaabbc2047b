import Mathlib

/-! Positional numerals as text: digits of a number, of a fixed width, and
back. -/

namespace Numeral

def digitValue (c : Char) : Option Nat :=
  if '0' ≤ c ∧ c ≤ '9' then some (c.toNat - '0'.toNat)
  else if 'a' ≤ c ∧ c ≤ 'z' then some (c.toNat - 'a'.toNat + 10)
  else if 'A' ≤ c ∧ c ≤ 'Z' then some (c.toNat - 'A'.toNat + 10)
  else none

def push (b n : Nat) (c : Char) : Option Nat :=
  (digitValue c).bind fun d => if d < b then some (b * n + d) else none

/-- At least one digit, and nothing else. -/
def parse (b : Nat) (text : List Char) : Option Nat :=
  if text = [] then none else text.foldlM (push b) 0

theorem push_digitChar {b d : Nat} (small : d < b) (base : b ≤ 16) (n : Nat) :
    push b n (Nat.digitChar d) = some (b * n + d) := by
  have value : digitValue (Nat.digitChar d) = some d := by
    have bound : d < 16 := by omega
    interval_cases d <;> rfl
  rw [push, value, Option.bind_some, if_pos small]

theorem foldlM_toDigits {b : Nat} (low : 1 < b) (base : b ≤ 16) (n : Nat) :
    (Nat.toDigits b n).foldlM (push b) 0 = some n := by
  induction n using Nat.strong_induction_on with
  | _ n ih =>
    rw [Nat.toDigits_eq_if low]
    split_ifs with small
    · simp [push_digitChar small base]
    · have smaller : n / b < n := Nat.div_lt_self (by omega) low
      rw [List.foldlM_append, ih _ smaller]
      simp [push_digitChar (Nat.mod_lt n (by omega)) base, Nat.div_add_mod]

theorem parse_toDigits {b : Nat} (low : 1 < b) (base : b ≤ 16) (n : Nat) :
    parse b (Nat.toDigits b n) = some n := by
  rw [parse, if_neg Nat.toDigits_ne_nil, foldlM_toDigits low base]

/-- The last `k` digits, with leading zeros. -/
def padded (b : Nat) : Nat → Nat → List Char
  | 0, _ => []
  | k + 1, n => padded b k (n / b) ++ [Nat.digitChar (n % b)]

@[simp] theorem length_padded (b k n : Nat) : (padded b k n).length = k := by
  induction k generalizing n with
  | zero => rfl
  | succ k ih => simp [padded, ih]

theorem padded_add (b j k n : Nat) :
    padded b (j + k) n = padded b j (n / b ^ k) ++ padded b k n := by
  induction k generalizing n with
  | zero => simp [padded]
  | succ k ih =>
    rw [← Nat.add_assoc, padded, ih, padded, ← List.append_assoc, Nat.div_div_eq_div_mul, Nat.pow_succ']

theorem take_drop_padded (b i k j n : Nat) :
    ((padded b (i + (k + j)) n).drop i).take k = padded b k (n / b ^ j) := by
  rw [padded_add, padded_add b k j, List.drop_left' (length_padded _ _ _),
    List.take_left' (length_padded _ _ _)]

theorem foldlM_padded {b k n : Nat} (low : 0 < b) (base : b ≤ 16) (m : Nat) :
    (padded b k n).foldlM (push b) m = some (b ^ k * m + n % b ^ k) := by
  induction k generalizing n with
  | zero => simp [padded, Nat.mod_one]
  | succ k ih =>
    rw [padded, List.foldlM_append, ih]
    simp only [Option.bind_eq_bind, Option.bind_some, List.foldlM_cons, List.foldlM_nil,
      push_digitChar (Nat.mod_lt n low) base, Option.pure_def, Option.some.injEq]
    rw [Nat.pow_succ', Nat.mod_mul, Nat.mul_add, Nat.mul_assoc]
    omega

theorem parse_padded {b : Nat} (low : 0 < b) (base : b ≤ 16) (k n : Nat) :
    parse b (padded b (k + 1) n) = some (n % b ^ (k + 1)) := by
  have nonempty : padded b (k + 1) n ≠ [] := by
    intro nil
    simpa using congrArg List.length nil
  rw [parse, if_neg nonempty, foldlM_padded low base]
  simp

/-- A leading digit keeps the zeros behind it. -/
theorem toDigits_leading {b d k n : Nat} (low : 1 < b) (positive : 0 < d) (digit : d < b)
    (bound : n < b ^ k) :
    Nat.toDigits b (d * b ^ k + n) = Nat.digitChar d :: padded b k n := by
  induction k generalizing n with
  | zero =>
    obtain rfl : n = 0 := by simpa using bound
    rw [Nat.pow_zero, Nat.mul_one, Nat.add_zero, Nat.toDigits_of_lt_base digit]
    rfl
  | succ k ih =>
    have power : d * b ^ (k + 1) = b * (d * b ^ k) := by
      rw [Nat.pow_succ']
      ring
    have large : b ≤ d * b ^ (k + 1) + n := by
      have least : 1 ≤ d * b ^ k := Nat.mul_pos positive (Nat.pow_pos (by omega))
      have scaled : b * 1 ≤ b * (d * b ^ k) := Nat.mul_le_mul_left b least
      omega
    have div : (d * b ^ (k + 1) + n) / b = d * b ^ k + n / b := by
      rw [power, Nat.mul_add_div (by omega)]
    have mod : (d * b ^ (k + 1) + n) % b = n % b := by
      rw [power, Nat.mul_add_mod]
    have next : n / b < b ^ k := by
      rw [Nat.div_lt_iff_lt_mul (by omega)]
      rwa [Nat.pow_succ] at bound
    rw [Nat.toDigits_eq_if low, if_neg (by omega), div, mod, ih next, padded]
    rfl

theorem exists_leading {b n : Nat} (low : 1 < b) (positive : 0 < n) :
    ∃ d k m, 0 < d ∧ d < b ∧ m < b ^ k ∧ n = d * b ^ k + m := by
  have lower := Nat.pow_log_le_self b positive.ne'
  have upper := Nat.lt_pow_succ_log_self low n
  have power : 0 < b ^ Nat.log b n := Nat.pow_pos (by omega)
  refine ⟨n / b ^ Nat.log b n, Nat.log b n, n % b ^ Nat.log b n, Nat.div_pos lower power, ?_,
    Nat.mod_lt _ power, ?_⟩
  · rw [Nat.div_lt_iff_lt_mul power]
    rwa [Nat.pow_succ'] at upper
  · rw [Nat.mul_comm]
    exact (Nat.div_add_mod _ _).symm

theorem log_leading {b d k n : Nat} (positive : 0 < d) (digit : d < b) (bound : n < b ^ k) :
    Nat.log b (d * b ^ k + n) = k := by
  refine Nat.log_eq_of_pow_le_of_lt_pow ?_ ?_
  · have least : 1 * b ^ k ≤ d * b ^ k := Nat.mul_le_mul_right _ positive
    omega
  · have most : (d + 1) * b ^ k ≤ b * b ^ k := Nat.mul_le_mul_right _ digit
    rw [Nat.add_mul, Nat.one_mul] at most
    rw [Nat.pow_succ']
    omega

theorem place_unique {b d j k n : Nat} (positive : 0 < d) (digit : d < b) (bound : n < b ^ k)
    (lower : b ^ j ≤ d * b ^ k + n) (upper : d * b ^ k + n < b ^ (j + 1)) : k = j := by
  have place := log_leading positive digit bound
  rw [← place]
  exact Nat.log_eq_of_pow_le_of_lt_pow lower upper

/-- Texts of digits only, in a base up to 16. -/
def Plain (text : List Char) : Prop := ∀ c ∈ text, ∃ d < 16, c = Nat.digitChar d

theorem Plain.ne {text : List Char} (plain : Plain text) {c : Char}
    (other : ∀ d < 16, Nat.digitChar d ≠ c) : c ∉ text := by
  intro member
  obtain ⟨d, small, same⟩ := plain c member
  exact other d small same.symm

theorem plain_toDigits {b : Nat} (low : 1 < b) (base : b ≤ 16) (n : Nat) :
    Plain (Nat.toDigits b n) := by
  induction n using Nat.strong_induction_on with
  | _ n ih =>
    rw [Nat.toDigits_eq_if low]
    intro c member
    split_ifs at member with small
    · exact ⟨n, by omega, by simpa using member⟩
    · have last : n % b < b := Nat.mod_lt n (by omega)
      rcases List.mem_append.mp member with front | back
      · exact ih _ (Nat.div_lt_self (by omega) low) c front
      · exact ⟨n % b, by omega, by simpa using back⟩

theorem plain_padded {b : Nat} (low : 0 < b) (base : b ≤ 16) (k n : Nat) :
    Plain (padded b k n) := by
  induction k generalizing n with
  | zero => simp [padded, Plain]
  | succ k ih =>
    intro c member
    have last : n % b < b := Nat.mod_lt n low
    rcases List.mem_append.mp member with front | back
    · exact ih _ c front
    · exact ⟨n % b, by omega, by simpa using back⟩

theorem Plain.eq_padded {text : List Char} (plain : Plain text) :
    ∃ n < 16 ^ text.length, text = padded 16 text.length n := by
  induction text using List.reverseRecOn with
  | nil => exact ⟨0, by simp, rfl⟩
  | append_singleton text c ih =>
    obtain ⟨n, bound, front⟩ := ih fun d member => plain d (List.mem_append_left _ member)
    obtain ⟨d, small, rfl⟩ := plain c (by simp)
    have div : (16 * n + d) / 16 = n := by omega
    have mod : (16 * n + d) % 16 = d := by omega
    refine ⟨16 * n + d, ?_, ?_⟩
    · rw [List.length_append, List.length_singleton, Nat.pow_succ]
      omega
    · rw [List.length_append, List.length_singleton, padded, div, mod, ← front]

end Numeral
