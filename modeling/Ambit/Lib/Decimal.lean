import Mathlib.Data.List.DropRight
import Ambit.Lib.IsoDate

/-! Numbers in decimal at a fixed width: the last digits of a number, against its decimal text filled
up with zeros. -/

namespace Decimal

open IsoDate (digits)

variable {j k n : ℕ} {c : Char}

@[simp] theorem length_digits (k n : ℕ) : (digits k n).length = k := by
  induction k with
  | zero => rfl
  | succ k ih => rw [digits, List.length_cons, ih]

theorem isDigit_of_mem_digits (h : c ∈ digits k n) : c.isDigit = true := by
  induction k with
  | zero => cases h
  | succ k ih =>
    rw [digits, List.mem_cons] at h
    rcases h with rfl | h
    · have hdigit : ∀ d < 10, (Nat.digitChar d).isDigit = true := by decide
      exact hdigit _ (Nat.mod_lt _ (by decide))
    · exact ih h

/-- The digits of zero. -/
theorem digits_zero (k : ℕ) : digits k 0 = List.replicate k '0' := by
  induction k with
  | zero => rfl
  | succ k ih => rw [digits, ih, Nat.zero_div, Nat.zero_mod, List.replicate_succ]; rfl

/-- The last digit, and those before it. -/
theorem digits_succ (k n : ℕ) : digits (k + 1) n = digits k (n / 10) ++ [Nat.digitChar (n % 10)] := by
  induction k with
  | zero =>
    show [Nat.digitChar (n / 10 ^ 0 % 10)] = _
    rw [pow_zero, Nat.div_one]
    rfl
  | succ k ih => rw [digits, ih, digits, List.cons_append, Nat.div_div_eq_div_mul, ← pow_succ']

/-- Digits further up make no difference. -/
theorem digits_mod (h : k ≤ j) (n : ℕ) : digits k (n % 10 ^ j) = digits k n := by
  induction k with
  | zero => rfl
  | succ k ih =>
    have hdigit : n % 10 ^ j / 10 ^ k % 10 = n / 10 ^ k % 10 := by
      rw [← Nat.add_sub_cancel' (Nat.le_of_succ_le h), pow_add, Nat.mod_mul_right_div_self]
      exact Nat.mod_mod_of_dvd _ (dvd_pow_self 10 (Nat.sub_ne_zero_of_lt h))
    rw [digits, digits, ih (Nat.le_of_succ_le h), hdigit]

theorem rtake_digits (h : k ≤ j) (n : ℕ) : (digits j n).rtake k = digits k n := by
  rw [List.rtake, length_digits]
  induction h with
  | refl => rw [Nat.sub_self, List.drop_zero]
  | step h ih => rw [digits, Nat.succ_sub h, List.drop_succ_cons, ih]

theorem leftpad_concat (k : ℕ) (cs : List Char) :
    (cs ++ [c]).leftpad (k + 1) '0' = cs.leftpad k '0' ++ [c] := by
  rw [List.leftpad, List.leftpad, List.length_append, List.length_singleton, Nat.add_sub_add_right,
    List.append_assoc]

theorem leftpad_toDigits_of_lt (k : ℕ) (hn : n < 10) :
    (Nat.toDigits 10 n).leftpad (k + 1) '0' = digits (k + 1) n := by
  have hzeros : ([] : List Char).leftpad k '0' = List.replicate k '0' := List.append_nil _
  rw [Nat.toDigits_of_lt_base hn, ← List.nil_append [n.digitChar], leftpad_concat, hzeros,
    digits_succ, Nat.div_eq_of_lt hn, Nat.mod_eq_of_lt hn, digits_zero]

/-- The decimal text of a number, filled up with zeros. -/
theorem leftpad_toDigits (hn : n < 10 ^ (k + 1)) :
    (Nat.toDigits 10 n).leftpad (k + 1) '0' = digits (k + 1) n := by
  induction k generalizing n with
  | zero => exact leftpad_toDigits_of_lt 0 (by simpa using hn)
  | succ k ih =>
    by_cases hlt : n < 10
    · exact leftpad_toDigits_of_lt (k + 1) hlt
    · have hquot : n / 10 < 10 ^ (k + 1) := Nat.div_lt_of_lt_mul (pow_succ' 10 (k + 1) ▸ hn)
      rw [Nat.toDigits_of_base_le (by decide) (Nat.not_lt.mp hlt), leftpad_concat, ih hquot,
        digits_succ (k + 1)]

/-- The number that the digits write, after those of another. -/
theorem ofDigitChars_digits (k n m : ℕ) :
    Nat.ofDigitChars 10 (digits k n) m = 10 ^ k * m + n % 10 ^ k := by
  induction k generalizing m with
  | zero => rw [digits, Nat.ofDigitChars_nil, Nat.pow_zero, Nat.one_mul, Nat.mod_one, Nat.add_zero]
  | succ k ih =>
    rw [digits, Nat.ofDigitChars_cons_digitChar_of_lt_ten (Nat.mod_lt _ (by decide)), ih,
      Nat.mod_pow_succ, Nat.pow_succ]
    ring

end Decimal
