import Ambit.Lib.BinaryFloat
import Mathlib.Algebra.Order.Ring.Rat

/-! The JavaScript values the sources compute with: numbers with their infinities and NaN, dates
as whole milliseconds or Invalid Date, string truthiness and blankness, and the error classes
that the modelled functions throw. -/

namespace Ambit

/-! ## Numbers and dates -/

/-- A JavaScript number, but for the sign of a zero. Sums and products are rounded to doubles; the
differences of two times are whole numbers that a double holds, and taken as they are. -/
inductive JsNumber where
  | finite (q : ℚ)
  | infinity
  | negInfinity
  | nan
  deriving DecidableEq

namespace JsNumber

/-- The `<` operator: false whenever an operand is NaN. -/
def lt : JsNumber → JsNumber → Bool
  | .finite a, .finite b => a < b
  | .finite _, .infinity | .negInfinity, .finite _ | .negInfinity, .infinity => true
  | _, _ => false

/-- The `<=` operator. -/
def le : JsNumber → JsNumber → Bool
  | .finite a, .finite b => a ≤ b
  | .finite _, .infinity | .negInfinity, .finite _ | .negInfinity, .infinity => true
  | .infinity, .infinity | .negInfinity, .negInfinity => true
  | _, _ => false

/-- The double for an exact result: the nearest one, or an infinity beyond the largest. -/
def ofExact (q : ℚ) : JsNumber :=
  let rounded := FloatFormat.binary64.round q
  if |rounded| < 2 ^ 1024 then .finite rounded
  else if 0 < rounded then .infinity
  else .negInfinity

def add : JsNumber → JsNumber → JsNumber
  | .finite a, .finite b => ofExact (a + b)
  | .nan, _ | _, .nan | .infinity, .negInfinity | .negInfinity, .infinity => .nan
  | .infinity, _ | _, .infinity => .infinity
  | .negInfinity, _ | _, .negInfinity => .negInfinity

/-- Multiplication by a positive constant. -/
def scale (k : ℚ) : JsNumber → JsNumber
  | .finite a => ofExact (a * k)
  | x => x

/-- What a number becomes through JSON text: an infinity or NaN is written as `null`, which every
comparison and operation here treats as zero. -/
def reload : JsNumber → JsNumber
  | .finite a => .finite a
  | _ => .finite 0

@[simp] theorem reload_reload (x : JsNumber) : x.reload.reload = x.reload := by cases x <;> rfl

theorem ofExact_of_lt {q : ℚ} (h : |FloatFormat.binary64.round q| < 2 ^ 1024) :
    ofExact q = .finite (FloatFormat.binary64.round q) := if_pos h

/-- Whole numbers up to the largest significand are exact. -/
theorem ofExact_intCast {n : ℤ} (h : |n| ≤ 2 ^ 53) : ofExact n = .finite n := by
  have hround : FloatFormat.binary64.round n = n :=
    FloatFormat.isNearest_round.eq_self (FloatFormat.holds_intCast (by decide) h)
  have hsize : |(n : ℚ)| < 2 ^ 1024 := by
    have hcast : |(n : ℚ)| ≤ 2 ^ 53 := by exact_mod_cast h
    exact hcast.trans_lt (pow_lt_pow_right₀ (by norm_num) (by norm_num))
  rw [ofExact_of_lt (by rw [hround]; exact hsize), hround]

end JsNumber

/-- A `Date`: whole milliseconds since the epoch, or Invalid Date. -/
inductive Date where
  | ms (t : Int)
  | invalid
  deriving DecidableEq

namespace Date

/-- The largest time value, in milliseconds. -/
def maxTime : ℚ := 8640000000000000

/-- `new Date(x)`: truncated toward zero, Invalid unless finite and within `maxTime`. -/
def ofNumber : JsNumber → Date
  | .finite q => if |q| ≤ maxTime then .ms (q.num.tdiv q.den) else .invalid
  | _ => .invalid

/-- `getTime()`: NaN for Invalid Date. -/
def getTime : Date → JsNumber
  | .ms t => .finite t
  | .invalid => .nan

def Valid (d : Date) : Prop := d ≠ .invalid

instance : DecidablePred Valid := fun d => inferInstanceAs (Decidable (d ≠ .invalid))

/-- What a date becomes through JSON text: Invalid Date is written as `null` and `new Date(null)`
is the epoch. -/
def reload : Date → Date
  | .ms t => .ms t
  | .invalid => .ms 0

@[simp] theorem reload_reload (d : Date) : d.reload.reload = d.reload := by cases d <;> rfl

theorem valid_ms (t : Int) : (Date.ms t).Valid := by simp [Valid]

theorem reload_of_valid {d : Date} (h : d.Valid) : d.reload = d := by
  cases d with
  | ms t => rfl
  | invalid => exact absurd rfl h

/-- A date is not after another where the `<=` of their times says so, and then both are valid. -/
theorem le_iff {d e : Date} :
    d.getTime.le e.getTime = true ↔ ∃ s t : Int, d = .ms s ∧ e = .ms t ∧ s ≤ t := by
  cases d <;> cases e <;> simp [getTime, JsNumber.le]

theorem lt_iff {d e : Date} :
    d.getTime.lt e.getTime = true ↔ ∃ s t : Int, d = .ms s ∧ e = .ms t ∧ s < t := by
  cases d <;> cases e <;> simp [getTime, JsNumber.lt]

theorem le_self {d : Date} (h : d.Valid) : d.getTime.le d.getTime = true := by
  cases d with
  | ms t => exact le_iff.mpr ⟨t, t, rfl, rfl, Int.le_refl t⟩
  | invalid => exact absurd rfl h

/-- Valid dates are ordered one way or the other. -/
theorem lt_of_not_le {d : Date} (h : d.Valid) {t : Int}
    (hle : d.getTime.le (Date.ms t).getTime = false) : (Date.ms t).getTime.lt d.getTime = true := by
  cases d with
  | ms s =>
    refine lt_iff.mpr ⟨t, s, rfl, rfl, Int.not_le.mp fun hst => ?_⟩
    rw [le_iff.mpr ⟨s, t, rfl, rfl, hst⟩] at hle
    cases hle
  | invalid => exact absurd rfl h

theorem lt_of_lt_of_le {d e f : Date} (hlt : d.getTime.lt e.getTime = true)
    (hle : e.getTime.le f.getTime = true) : d.getTime.lt f.getTime = true := by
  obtain ⟨s, t, rfl, rfl, hst⟩ := lt_iff.mp hlt
  obtain ⟨t', u, ht, rfl, htu⟩ := le_iff.mp hle
  cases ht
  exact lt_iff.mpr ⟨s, u, rfl, rfl, Int.lt_of_lt_of_le hst htu⟩

end Date

/-- `Math.round`: to the nearest integer, halves upward. -/
def jsRound (q : ℚ) : Int := (q + 1 / 2).floor

/-! ## Strings -/

/-- The characters `trim()` removes. -/
def isJsWhitespace (c : Char) : Bool :=
  c.toNat ∈ [0x09, 0x0A, 0x0B, 0x0C, 0x0D, 0x20, 0xA0, 0x1680, 0x2028, 0x2029, 0x202F, 0x205F,
    0x3000, 0xFEFF] || (0x2000 ≤ c.toNat && c.toNat ≤ 0x200A)

/-- `s.trim().length === 0`. -/
def isBlank (s : String) : Bool := s.toList.all isJsWhitespace

/-- An optional string in a condition: absent and empty are both falsy. -/
def truthy (s : Option String) : Option String := s.filter (· ≠ "")

theorem truthy_eq_some {s : Option String} {a : String} :
    truthy s = some a ↔ s = some a ∧ a ≠ "" := by
  simp [truthy, Option.filter_eq_some_iff]

/-! ## Errors -/

/-- The error classes of the sources, with their messages; `io` is an error of a file operation
and `undefinedThrown` a thrown `undefined`. -/
inductive Err where
  | invalidScope (message : String)
  | policyViolation (message : String)
  | unknownToken (message : String)
  | circuitOpen (message : String)
  | unknownRequest (message : String)
  | requestNotPending (message : String)
  | wrongSubject (message : String)
  | requestNotApproved (message : String)
  | tokenSecretAlreadyClaimed (message : String)
  | unauthorizedDecider (message : String)
  | missingReasonCode (message : String)
  | invalidPolicy (message : String)
  | unknownPolicy (message : String)
  | invalidRedactionRule (message : String)
  | invalidAgentIdentity (message : String)
  | duplicateAgentIdentity (message : String)
  | endpointUnreachable (message : String)
  | io
  | undefinedThrown
  deriving DecidableEq

end Ambit
