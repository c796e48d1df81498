import Mathlib.Tactic.Ring
import Mathlib.Algebra.Order.Ring.Abs
import Mathlib.Algebra.Order.Ring.Int

/-! Times as ISO 8601 texts. A time is a number of milliseconds since the epoch; its text is the one
of ECMAScript's `toISOString`, in the proleptic Gregorian calendar, with a sign and six digits for
the years outside 0 to 9999. Years are counted from March, so that the leap day ends a year, in
eras of 400 years of 146097 days. -/

namespace IsoDate

/-! ## The calendar -/

/-- A day of the calendar. -/
structure Civil where
  year : Int
  month : Nat
  day : Nat

/-- A day as an era, a year of the era and a day of the year, all counted from March. -/
structure EraDay where
  era : Int
  year : Nat
  day : Nat

/-- The era and the year of a day counted from the epoch. -/
def eraDay (days : Int) : EraDay :=
  let shifted := days + 719468
  let day := (shifted % 146097).toNat
  let century := min (day / 36524) 3
  let inCentury := day - 36524 * century
  let cycle := inCentury / 1461
  let inCycle := inCentury - 1461 * cycle
  let year := min (inCycle / 365) 3
  ⟨shifted / 146097, 100 * century + 4 * cycle + year, inCycle - 365 * year⟩

def EraDay.days (d : EraDay) : Int :=
  d.era * 146097 + 36524 * (d.year / 100 : Nat) + 1461 * (d.year % 100 / 4 : Nat) +
    365 * (d.year % 4 : Nat) + d.day - 719468

def EraDay.civil (d : EraDay) : Civil :=
  let monthFromMarch := (5 * d.day + 2) / 153
  let month := if monthFromMarch < 10 then monthFromMarch + 3 else monthFromMarch - 9
  ⟨d.era * 400 + d.year + (if month ≤ 2 then 1 else 0), month,
    d.day - (153 * monthFromMarch + 2) / 5 + 1⟩

def Civil.eraDay (c : Civil) : EraDay :=
  let year := c.year - (if c.month ≤ 2 then 1 else 0)
  let monthFromMarch := if c.month ≤ 2 then c.month + 9 else c.month - 3
  ⟨year / 400, (year % 400).toNat, (153 * monthFromMarch + 2) / 5 + c.day - 1⟩

theorem eraDay_bounds (days : Int) : (eraDay days).year < 400 ∧ (eraDay days).day ≤ 365 := by
  simp only [eraDay]
  omega

theorem year_parts (century : Nat) {cycle year : Nat} (hcycle : cycle < 25) (hyear : year < 4) :
    (100 * century + 4 * cycle + year) / 100 = century ∧
    (100 * century + 4 * cycle + year) % 100 / 4 = cycle ∧
    (100 * century + 4 * cycle + year) % 4 = year := by omega

theorem days_eraDay (days : Int) : (eraDay days).days = days := by
  simp only [EraDay.days, eraDay]
  generalize hday : ((days + 719468) % 146097).toNat = day
  have hera : day < 146097 := by omega
  generalize hcentury : min (day / 36524) 3 = century
  have hin : 36524 * century ≤ day ∧ day - 36524 * century < 36525 := by omega
  generalize hcycle : (day - 36524 * century) / 1461 = cycle
  have hlt : cycle < 25 := by omega
  generalize hyear : min ((day - 36524 * century - 1461 * cycle) / 365) 3 = year
  obtain ⟨hcentury', hcycle', hyear'⟩ := year_parts century hlt (show year < 4 by omega)
  rw [hcentury', hcycle', hyear']
  omega

theorem EraDay.civil_bounds {d : EraDay} (hday : d.day ≤ 365) :
    d.civil.month < 100 ∧ d.civil.day < 100 := by
  simp only [EraDay.civil]
  split <;> omega

theorem EraDay.eraDay_civil {d : EraDay} (hyear : d.year < 400) (hday : d.day ≤ 365) :
    d.civil.eraDay = d := by
  obtain ⟨era, year, day⟩ := d
  simp only [EraDay.civil, Civil.eraDay, EraDay.mk.injEq] at hyear hday ⊢
  by_cases hmonth : (5 * day + 2) / 153 < 10
  · have hlate : ¬ (5 * day + 2) / 153 + 3 ≤ 2 := by omega
    simp only [if_pos hmonth, if_neg hlate]
    omega
  · have hearly : (5 * day + 2) / 153 - 9 ≤ 2 := by omega
    simp only [if_neg hmonth, if_pos hearly]
    omega

/-- The day of the calendar that lies a number of days after the epoch. -/
def civil (days : Int) : Civil := (eraDay days).civil

def Civil.days (c : Civil) : Int := c.eraDay.days

theorem days_civil (days : Int) : (civil days).days = days := by
  obtain ⟨hyear, hday⟩ := eraDay_bounds days
  rw [civil, Civil.days, EraDay.eraDay_civil hyear hday, days_eraDay]

/-! ## Digits -/

/-- The last `k` digits of a number. -/
def digits : Nat → Nat → List Char
  | 0, _ => []
  | k + 1, n => Nat.digitChar (n / 10 ^ k % 10) :: digits k n

/-- Read `k` digits after those that stand for `n`. -/
def readDigits : Nat → Nat → List Char → Option (Nat × List Char)
  | 0, n, cs => some (n, cs)
  | _ + 1, _, [] => none
  | k + 1, n, c :: cs => if c.isDigit then readDigits k (10 * n + (c.toNat - 48)) cs else none

theorem readDigits_digits (k n : Nat) (rest : List Char) (m : Nat) :
    readDigits k m (digits k n ++ rest) = some (10 ^ k * m + n % 10 ^ k, rest) := by
  induction k generalizing m with
  | zero => simp [readDigits, digits, Nat.mod_one]
  | succ k ih =>
    have hdigit : ∀ d < 10, (Nat.digitChar d).isDigit = true ∧ (Nat.digitChar d).toNat - 48 = d := by
      decide
    obtain ⟨his, hval⟩ := hdigit (n / 10 ^ k % 10) (Nat.mod_lt _ (by decide))
    rw [digits, List.cons_append, readDigits, if_pos his, ih, hval]
    congr 2
    rw [Nat.mod_pow_succ, pow_succ]
    ring

/-- Read one character. -/
def expect (c : Char) : List Char → Option (List Char)
  | [] => none
  | d :: cs => if d = c then some cs else none

@[simp] theorem expect_cons (c : Char) (cs : List Char) : expect c (c :: cs) = some cs := by
  simp [expect]

/-! ## Texts -/

/-- A year is four digits, or a sign and six. -/
def yearText (year : Int) : List Char :=
  if 0 ≤ year ∧ year ≤ 9999 then digits 4 year.toNat
  else (if 0 ≤ year then '+' else '-') :: digits 6 year.natAbs

def readYear : List Char → Option (Int × List Char)
  | [] => none
  | c :: cs =>
    if c = '+' then (readDigits 6 0 cs).map fun r => ((r.1 : Int), r.2)
    else if c = '-' then (readDigits 6 0 cs).map fun r => (-(r.1 : Int), r.2)
    else (readDigits 4 0 (c :: cs)).map fun r => ((r.1 : Int), r.2)

theorem readYear_yearText {year : Int} (h : |year| < 1000000) (rest : List Char) :
    readYear (yearText year ++ rest) = some (year, rest) := by
  rw [yearText]
  split
  · rename_i hrange
    have hdigit : ∀ d < 10, Nat.digitChar d ≠ '+' ∧ Nat.digitChar d ≠ '-' := by decide
    obtain ⟨hplus, hminus⟩ := hdigit (year.toNat / 10 ^ 3 % 10) (Nat.mod_lt _ (by decide))
    have hread := readDigits_digits 4 year.toNat rest 0
    rw [digits, List.cons_append] at hread ⊢
    rw [readYear, if_neg hplus, if_neg hminus, hread]
    simp only [Option.map_some, Option.some.injEq, Prod.mk.injEq, and_true]
    omega
  · obtain ⟨hlow, hhigh⟩ := abs_lt.mp h
    have hread := readDigits_digits 6 year.natAbs rest 0
    rw [List.cons_append]
    split
    · rw [readYear, if_pos rfl, hread]
      simp only [Option.map_some, Option.some.injEq, Prod.mk.injEq, and_true]
      omega
    · rw [readYear, if_neg (by decide), if_pos rfl, hread]
      simp only [Option.map_some, Option.some.injEq, Prod.mk.injEq, and_true]
      omega

def dayMs : Int := 86400000

/-- `toISOString` -/
def text (time : Int) : List Char :=
  let date := civil (time / dayMs)
  let ms := (time % dayMs).toNat
  yearText date.year ++ '-' :: (digits 2 date.month ++ '-' :: (digits 2 date.day ++
    'T' :: (digits 2 (ms / 3600000) ++ ':' :: (digits 2 (ms / 60000 % 60) ++
    ':' :: (digits 2 (ms / 1000 % 60) ++ '.' :: (digits 3 (ms % 1000) ++ ['Z']))))))

/-- The time that a text of that form stands for, if it has that form. -/
def read (cs : List Char) : Option Int := do
  let (year, cs) ← readYear cs
  let (month, cs) ← readDigits 2 0 (← expect '-' cs)
  let (day, cs) ← readDigits 2 0 (← expect '-' cs)
  let (hours, cs) ← readDigits 2 0 (← expect 'T' cs)
  let (minutes, cs) ← readDigits 2 0 (← expect ':' cs)
  let (seconds, cs) ← readDigits 2 0 (← expect ':' cs)
  let (millis, _) ← readDigits 3 0 (← expect '.' cs)
  let ms := 3600000 * hours + 60000 * minutes + 1000 * seconds + millis
  return (Civil.mk year month day).days * dayMs + ms

/-- The times that a date can hold. -/
def IsTime (time : Int) : Prop := |time| ≤ 8640000000000000

instance (time : Int) : Decidable (IsTime time) := inferInstanceAs (Decidable (_ ≤ _))

theorem civil_bounds (days : Int) : (civil days).month < 100 ∧ (civil days).day < 100 :=
  EraDay.civil_bounds (eraDay_bounds days).2

theorem year_lt_of_isTime {time : Int} (h : IsTime time) :
    |(civil (time / dayMs)).year| < 1000000 := by
  obtain ⟨hlow, hhigh⟩ := abs_le.mp h
  have hdays : -100000000 ≤ time / dayMs ∧ time / dayMs ≤ 100000000 := by
    unfold dayMs
    omega
  generalize time / dayMs = days at hdays ⊢
  have hyear := (eraDay_bounds days).1
  have hera : (eraDay days).era = (days + 719468) / 146097 := rfl
  simp only [civil, EraDay.civil, abs_lt]
  rw [hera]
  split <;> omega

/-- **Dates read back.** The text of a time stands for that time. -/
theorem read_text {time : Int} (h : IsTime time) : read (text time) = some time := by
  obtain ⟨hmonth, hday⟩ := civil_bounds (time / dayMs)
  have hdays := days_civil (time / dayMs)
  have hsplit : time / dayMs * dayMs + time % dayMs = time := by
    rw [Int.mul_comm]
    exact Int.mul_ediv_add_emod time dayMs
  have hms : 0 ≤ time % dayMs ∧ time % dayMs < 86400000 :=
    ⟨Int.emod_nonneg _ (by decide), Int.emod_lt_of_pos _ (by decide)⟩
  simp only [read, text, readYear_yearText (year_lt_of_isTime h), readDigits_digits, expect_cons,
    Option.bind_eq_bind, Option.bind_some, Option.pure_def, Option.some.injEq, Nat.mul_zero,
    Nat.zero_add]
  have hmonth' : (civil (time / dayMs)).month % 10 ^ 2 = (civil (time / dayMs)).month :=
    Nat.mod_eq_of_lt hmonth
  have hday' : (civil (time / dayMs)).day % 10 ^ 2 = (civil (time / dayMs)).day :=
    Nat.mod_eq_of_lt hday
  rw [hmonth', hday', hdays]
  omega

example : text 1753315200123 = "2025-07-24T00:00:00.123Z".toList := by decide +kernel

end IsoDate
