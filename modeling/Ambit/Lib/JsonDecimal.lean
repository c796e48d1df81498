import Ambit.Lib.Json
import Mathlib.Data.Rat.Defs
import Mathlib.Tactic.Ring

/-! Number literals for the rationals: an integer is written in decimal, and a fraction as its
numerator with its denominator where the exponent stands, so that every rational reads back. -/

namespace Json

def digit (d : ℕ) : UInt8 := UInt8.ofNat (Nat.digitChar d).toNat

def natText (n : ℕ) : Text := (Nat.toDigits 10 n).map fun c => UInt8.ofNat c.toNat

def readNat (t : Text) : ℕ := Nat.ofDigitChars 10 (t.map fun b => Char.ofNat b.toNat) 0

theorem natText_of_lt {n : ℕ} (h : n < 10) : natText n = [digit n] := by
  rw [natText, Nat.toDigits_of_lt_base h]
  rfl

theorem natText_of_le {n : ℕ} (h : 10 ≤ n) : natText n = natText (n / 10) ++ [digit (n % 10)] := by
  rw [natText, Nat.toDigits_of_base_le (by decide) h, List.map_append]
  rfl

/-- The digits of a number are the ASCII ones. -/
theorem toNat_of_mem_toDigits {c : Char} {n : ℕ} (hc : c ∈ Nat.toDigits 10 n) :
    48 ≤ c.toNat ∧ c.toNat ≤ 57 ∧ (UInt8.ofNat c.toNat).toNat = c.toNat := by
  have hdigit := Nat.isDigit_of_mem_toDigits (by decide) (by decide) hc
  obtain ⟨hlow, hhigh⟩ : 48 ≤ c.toNat ∧ c.toNat ≤ 57 := by
    simpa [Char.isDigit, UInt32.le_iff_toNat_le] using hdigit
  refine ⟨hlow, hhigh, ?_⟩
  simp
  omega

theorem readNat_natText (n : ℕ) : readNat (natText n) = n := by
  have hchars : (natText n).map (fun b => Char.ofNat b.toNat) = Nat.toDigits 10 n := by
    rw [natText, List.map_map]
    conv => rhs; rw [← List.map_id (Nat.toDigits 10 n)]
    apply List.map_congr_left
    intro c hc
    simp only [Function.comp_apply, (toNat_of_mem_toDigits hc).2.2, id_eq, Char.ofNat_toNat]
  rw [readNat, hchars, Nat.ofDigitChars_ten_toDigits]

theorem not_mem_natText {b : UInt8} (hb : b.toNat < 48 ∨ 57 < b.toNat) (n : ℕ) :
    b ∉ natText n := by
  intro hmem
  obtain ⟨c, hc, rfl⟩ := List.mem_map.mp hmem
  obtain ⟨hlow, hhigh, hbyte⟩ := toNat_of_mem_toDigits hc
  rw [hbyte] at hb
  omega

theorem natText_ne_nil (n : ℕ) : natText n ≠ [] := by
  rw [natText, Ne, List.map_eq_nil_iff]
  exact Nat.toDigits_ne_nil

/-! ## Literals -/

theorem step_digit : ∀ d < 10,
    NumberState.step .integer (digit d) = some .integer ∧
    NumberState.step .exponentDigits (digit d) = some .exponentDigits ∧
    NumberState.step .exponent (digit d) = some .exponentDigits ∧
    NumberState.step .start (digit d) = some (if d = 0 then .zero else .integer) ∧
    NumberState.step .minus (digit d) = some (if d = 0 then .zero else .integer) := by decide

theorem digit_lt (n : ℕ) : n % 10 < 10 := Nat.mod_lt n (by decide)

/-- A decimal at the beginning of a literal. -/
theorem readNumber_natText {state : NumberState} (hstate : state = .start ∨ state = .minus) (n : ℕ) :
    (natText n).foldlM NumberState.step state = some (if n = 0 then .zero else .integer) := by
  induction n using Nat.strongRecOn with
  | _ n ih =>
    rcases Nat.lt_or_ge n 10 with hlt | hge
    · obtain ⟨-, -, -, hstart, hminus⟩ := step_digit n hlt
      rw [natText_of_lt hlt, List.foldlM_cons]
      rcases hstate with rfl | rfl
      · rw [hstart]
        rfl
      · rw [hminus]
        rfl
    · have hquot : n / 10 ≠ 0 := by omega
      rw [natText_of_le hge, List.foldlM_append, ih (n / 10) (by omega), if_neg hquot,
        if_neg (by omega)]
      show NumberState.step .integer (digit (n % 10)) >>= pure = _
      rw [(step_digit _ (digit_lt n)).1]
      rfl

/-- A decimal in the exponent of a literal. -/
theorem readExponent_natText (n : ℕ) :
    (natText n).foldlM NumberState.step .exponent = some .exponentDigits := by
  induction n using Nat.strongRecOn with
  | _ n ih =>
    rcases Nat.lt_or_ge n 10 with hlt | hge
    · rw [natText_of_lt hlt, List.foldlM_cons, (step_digit n hlt).2.2.1]
      rfl
    · rw [natText_of_le hge, List.foldlM_append, ih (n / 10) (by omega)]
      show NumberState.step .exponentDigits (digit (n % 10)) >>= pure = _
      rw [(step_digit _ (digit_lt n)).2.1]
      rfl

def intText (n : ℤ) : Text := if n < 0 then 0x2D :: natText n.natAbs else natText n.natAbs

theorem readNumber_intText (n : ℤ) :
    readNumber (intText n) = some (if n = 0 then .zero else .integer) := by
  have habs : n.natAbs = 0 ↔ n = 0 := Int.natAbs_eq_zero
  rw [intText, readNumber]
  split
  · rw [List.foldlM_cons]
    show (natText n.natAbs).foldlM NumberState.step .minus = _
    rw [readNumber_natText (.inr rfl)]
    simp [habs]
  · rw [readNumber_natText (.inl rfl)]
    simp [habs]

/-- The text of a rational. -/
def rationalText (q : ℚ) : Text :=
  if q.den = 1 then intText q.num else intText q.num ++ 0x65 :: natText q.den

theorem isNumber_rationalText (q : ℚ) : IsNumber (rationalText q) := by
  have hint := readNumber_intText q.num
  rw [rationalText]
  split
  · rw [IsNumber, hint]
    split <;> rfl
  · rw [IsNumber, readNumber, List.foldlM_append]
    rw [readNumber] at hint
    rw [hint, Option.bind_eq_bind, Option.bind_some, List.foldlM_cons]
    have hexponent : NumberState.step (if q.num = 0 then .zero else .integer) 0x65 =
        some .exponent := by
      split <;> rfl
    rw [hexponent, Option.bind_eq_bind, Option.bind_some, readExponent_natText]
    rfl

def readInt : Text → ℤ
  | [] => 0
  | b :: t => if b = 0x2D then -readNat t else readNat (b :: t)

/-- The rational that a text of that form stands for. -/
def readRational (t : Text) : ℚ :=
  match t.dropWhile (· ≠ 0x65) with
  | [] => readInt t
  | _ :: den => readInt (t.takeWhile (· ≠ 0x65)) / readNat den

theorem readInt_intText (n : ℤ) : readInt (intText n) = n := by
  rw [intText]
  split
  · rw [readInt, if_pos rfl, readNat_natText]
    omega
  · obtain ⟨b, t, hbt⟩ := List.exists_cons_of_ne_nil (natText_ne_nil n.natAbs)
    have hb : b ≠ 0x2D := by
      rintro rfl
      exact not_mem_natText (.inl (by decide)) n.natAbs (hbt ▸ List.mem_cons_self)
    rw [hbt, readInt, if_neg hb, ← hbt, readNat_natText]
    omega

theorem not_mem_intText (n : ℤ) : (0x65 : UInt8) ∉ intText n := by
  have hnat : (0x65 : UInt8) ∉ natText n.natAbs := not_mem_natText (.inr (by decide)) _
  rw [intText]
  split
  · intro hmem
    rcases List.mem_cons.mp hmem with h | h
    · revert h
      decide
    · exact hnat h
  · exact hnat

theorem readRational_rationalText (q : ℚ) : readRational (rationalText q) = q := by
  have hplain : ∀ b ∈ intText q.num, decide (b ≠ 0x65) = true := by
    intro b hb
    rw [decide_eq_true_eq]
    rintro rfl
    exact not_mem_intText q.num hb
  rw [rationalText]
  split
  · rename_i hden
    have hdrop : (intText q.num).dropWhile (· ≠ 0x65) = [] := by
      have happend : (intText q.num ++ []).dropWhile (· ≠ 0x65) = _ :=
        List.dropWhile_append_of_pos hplain
      simpa using happend
    rw [readRational, hdrop, readInt_intText]
    exact Rat.coe_int_num_of_den_eq_one hden
  · have hdrop : (intText q.num ++ 0x65 :: natText q.den).dropWhile (· ≠ 0x65) =
        0x65 :: natText q.den := by
      rw [List.dropWhile_append_of_pos hplain]
      simp
    have htake : (intText q.num ++ 0x65 :: natText q.den).takeWhile (· ≠ 0x65) = intText q.num := by
      rw [List.takeWhile_append_of_pos hplain]
      simp
    rw [readRational, hdrop]
    show (readInt ((intText q.num ++ 0x65 :: natText q.den).takeWhile (· ≠ 0x65)) : ℚ) /
      readNat (natText q.den) = q
    rw [htake, readInt_intText, readNat_natText]
    exact Rat.num_div_den q

end Json
