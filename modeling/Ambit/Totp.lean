import Mathlib.Data.List.DropRight
import Ambit.Platform

/-! `totp.ts`: time-based codes, and the verifier that remembers the last timestep it accepted. -/

namespace Ambit

/-- What the login takes from the platform besides: HMAC-SHA-1, and upper case in all of Unicode. -/
structure LoginPlatform extends Platform where
  toUpperCase : String → String
  /-- `createHmac("sha1", key).update(message).digest()` -/
  hmacSha1 : List UInt8 → List UInt8 → List UInt8
  hmacSha1_length : ∀ key message, (hmacSha1 key message).length = 20

inductive TotpError where
  | error (message : String)
  /-- `writeUInt32BE` of a value that is not a 32-bit number. -/
  | rangeError (value : JsNumber)
  deriving DecidableEq

/-! ## Base 32 -/

def base32Alphabet : List Char := "ABCDEFGHIJKLMNOPQRSTUVWXYZ234567".toList

/-- `\s` of a regular expression. -/
def isWhiteSpace (c : Char) : Bool :=
  c.toNat ∈ [0x09, 0x0a, 0x0b, 0x0c, 0x0d, 0x20, 0xa0, 0x1680, 0x2028, 0x2029, 0x202f, 0x205f,
    0x3000, 0xfeff] ∨ (0x2000 ≤ c.toNat ∧ c.toNat ≤ 0x200a)

/-- The loop of `base32Decode`, with the bits that are left over and the value that holds them. -/
def base32DecodeFrom (bits : Nat) (value : UInt32) : List Char → Except TotpError (List UInt8)
  | [] => .ok []
  | char :: rest =>
    match base32Alphabet.idxOf? char with
    | none => .error (.error ("Invalid base32 character: \"" ++ char.toString ++ "\""))
    | some idx =>
      let value := value <<< 5 ||| UInt32.ofNat idx
      let bits := bits + 5
      if 8 ≤ bits then do
        let bytes ← base32DecodeFrom (bits - 8) value rest
        return (value >>> UInt32.ofNat (bits - 8)).toUInt8 :: bytes
      else base32DecodeFrom bits value rest

variable (p : LoginPlatform)

def base32Decode (input : String) : Except TotpError (List UInt8) :=
  let clean := ((p.toUpperCase input).toList.rdropWhile (· = '=')).filter (!isWhiteSpace ·)
  base32DecodeFrom 0 0 clean

/-! ## Codes -/

/-- `text.padStart(width, "0")`. -/
def padStart (width : Nat) (text : String) : String :=
  String.ofList (text.toList.leftpad width '0')

/-- The eight bytes of the counter; the upper four are always zero. -/
def counterBuffer (counter : Nat) : List UInt8 :=
  [0, 0, 0, 0] ++ [24, 16, 8, 0].map fun shift : Nat => UInt8.ofNat (counter >>> shift)

/-- `hmac[index]` as an operand of a bitwise operator: a byte that is not there is `undefined`, which
counts as zero. -/
def hmacByte (hmac : List UInt8) (index : Nat) : Int32 := Int32.ofNat (hmac.getD index 0).toNat

/-- Where the dynamic truncation starts. -/
def hmacOffset (hmac : List UInt8) : Nat := (hmac.getD (hmac.length - 1) 0 &&& 0x0f).toNat

/-- The dynamic truncation, with the signed 32-bit operators of JavaScript. -/
def truncated (hmac : List UInt8) : Int32 :=
  let offset := hmacOffset hmac
  ((hmacByte hmac offset &&& 0x7f) <<< 24) ||| ((hmacByte hmac (offset + 1) &&& 0xff) <<< 16) |||
    ((hmacByte hmac (offset + 2) &&& 0xff) <<< 8) ||| (hmacByte hmac (offset + 3) &&& 0xff)

/-- `Math.floor(timeMs / 1000 / stepSeconds)`, which is no finite number for a step of zero. -/
def totpCounter (timeMs : Int) (stepSeconds : Nat) : JsNumber :=
  if stepSeconds = 0 then
    if timeMs = 0 then .nan
    else if 0 < timeMs then .infinity
    else .negInfinity
  else .finite (timeMs / 1000 / stepSeconds : Int)

/-- What `writeUInt32BE` writes of a number that is not out of range: NaN is none, and written as zero. -/
def JsNumber.written : JsNumber → Nat
  | .finite q => ⌊q⌋.toNat
  | _ => 0

def generateTotpCode (secretBase32 : String) (timeMs : Int) (stepSeconds digits : Nat) :
    Except TotpError String := do
  let counter := totpCounter timeMs stepSeconds
  if counter.lt (.finite 0) ∨ (JsNumber.finite 0xffffffff).lt counter then
    throw (.rangeError counter)
  let key ← base32Decode p secretBase32
  let hmac := p.hmacSha1 key (counterBuffer counter.written)
  -- `%` takes the sign of the truncation; where `10 ** digits` is rounded, it is the larger of the two
  return padStart digits (toString ((truncated hmac).toInt.tmod (10 ^ digits)))

section
variable {p} {secret : String} {key : List UInt8} {timeMs counter : Int} {stepSeconds digits : Nat}

theorem totpCounter_of_pos (hstep : 1 ≤ stepSeconds) (hcounter : timeMs / 1000 / stepSeconds = counter) :
    totpCounter timeMs stepSeconds = .finite counter := by
  rw [totpCounter, if_neg (Nat.pos_iff_ne_zero.mp hstep), hcounter]

theorem written_intCast (n : Int) : (JsNumber.finite n).written = n.toNat := by
  rw [JsNumber.written, Int.floor_intCast]

theorem generateTotpCode_of_key (hstep : 1 ≤ stepSeconds)
    (hcounter : timeMs / 1000 / stepSeconds = counter) (hlow : 0 ≤ counter)
    (hhigh : counter ≤ 0xffffffff) (hkey : base32Decode p secret = .ok key) :
    generateTotpCode p secret timeMs stepSeconds digits =
      let hmac := p.hmacSha1 key (counterBuffer counter.toNat)
      .ok (padStart digits (toString ((truncated hmac).toInt.tmod (10 ^ digits)))) := by
  have hlow' : ¬ (JsNumber.finite counter).lt (.finite 0) = true := by
    simpa [JsNumber.lt] using hlow
  have hhigh' : ¬ (JsNumber.finite 0xffffffff).lt (.finite counter) = true := by
    have hcast : (counter : ℚ) ≤ 0xffffffff := by exact_mod_cast hhigh
    simpa [JsNumber.lt] using hcast
  unfold generateTotpCode
  rw [totpCounter_of_pos hstep hcounter, if_neg (not_or.mpr ⟨hlow', hhigh'⟩), hkey, written_intCast]
  rfl

/-- A time before the epoch has no counter that can be written. -/
theorem generateTotpCode_of_neg (hstep : 1 ≤ stepSeconds)
    (hcounter : timeMs / 1000 / stepSeconds = counter) (h : counter < 0) :
    generateTotpCode p secret timeMs stepSeconds digits = .error (.rangeError (.finite counter)) := by
  have hlow : (JsNumber.finite counter).lt (.finite 0) = true := by
    simpa [JsNumber.lt] using h
  unfold generateTotpCode
  rw [totpCounter_of_pos hstep hcounter, if_pos (.inl hlow)]
  rfl

end

/-! ## The verifier -/

/-- Its step is a second or more: the timesteps are whole numbers. -/
structure TotpVerifier where
  secret : String
  stepSeconds : Nat := 30
  digits : Nat := 6
  driftSteps : Nat := 1
  lastAcceptedTimestep : Option Int := none

namespace TotpVerifier

/-- The timestep is not after the last one that was accepted. -/
def replays (v : TotpVerifier) (timestep : Int) : Bool := v.lastAcceptedTimestep.any (timestep ≤ ·)

/-- The timesteps that are tried at a time, in order. -/
def timesteps (v : TotpVerifier) (now : Int) : List Int :=
  (List.range (2 * v.driftSteps + 1)).map fun k => now / 1000 / v.stepSeconds - v.driftSteps + k

/-- The loop of `verify`: the first timestep that is not a replay and has the code. -/
def findTimestep (v : TotpVerifier) (code : String) : List Int → Except TotpError (Option Int)
  | [] => .ok none
  | timestep :: rest =>
    if v.replays timestep then v.findTimestep code rest
    else do
      let candidate ←
        generateTotpCode p v.secret (timestep * v.stepSeconds * 1000) v.stepSeconds v.digits
      if candidate = code then return some timestep
      v.findTimestep code rest

def verify (v : TotpVerifier) (code : String) (now : Int) :
    Except TotpError (Bool × TotpVerifier) := do
  match ← v.findTimestep p code (v.timesteps now) with
  | some timestep => return (true, { v with lastAcceptedTimestep := some timestep })
  | none => return (false, v)

variable {p} {v v' : TotpVerifier} {code : String} {now : Int}

theorem findTimestep_spec {steps : List Int} {timestep : Int}
    (h : v.findTimestep p code steps = .ok (some timestep)) :
    timestep ∈ steps ∧ v.replays timestep = false := by
  induction steps with
  | nil => cases h
  | cons step rest ih =>
    have hrest : v.findTimestep p code rest = .ok (some timestep) →
        timestep ∈ step :: rest ∧ v.replays timestep = false := fun h =>
      ⟨List.mem_cons_of_mem _ (ih h).1, (ih h).2⟩
    rw [findTimestep] at h
    split at h
    · exact hrest h
    · rename_i hreplays
      cases hcode : generateTotpCode p v.secret (step * v.stepSeconds * 1000) v.stepSeconds
          v.digits with
      | error err =>
        rw [hcode] at h
        cases h
      | ok candidate =>
        rw [hcode] at h
        simp only [bind, Except.bind] at h
        split at h
        · cases h
          exact ⟨List.mem_cons_self .., Bool.eq_false_iff.mpr hreplays⟩
        · exact hrest h

/-- A code that is not accepted leaves the verifier as it is; one that is accepted is remembered
with a timestep after all that were accepted before. -/
theorem verify_spec {accepted : Bool} (h : v.verify p code now = .ok (accepted, v')) :
    (accepted = false ∧ v' = v) ∨ accepted = true ∧ ∃ timestep ∈ v.timesteps now,
      v.replays timestep = false ∧ v' = { v with lastAcceptedTimestep := some timestep } := by
  unfold verify at h
  cases hfind : v.findTimestep p code (v.timesteps now) with
  | error err =>
    rw [hfind] at h
    cases h
  | ok found =>
    rw [hfind] at h
    cases found with
    | none =>
      cases h
      exact .inl ⟨rfl, rfl⟩
    | some timestep =>
      cases h
      obtain ⟨hmem, hreplays⟩ := findTimestep_spec hfind
      exact .inr ⟨rfl, timestep, hmem, hreplays, rfl⟩

end TotpVerifier

end Ambit
