import Ambit.Platform
import Mathlib.Data.List.Basic

/-! `passwordHash.ts`: salted scrypt digests as `<saltHex>:<hashHex>`. -/

namespace Ambit

def keyLength : Nat := 64

def hexDigit (n : Nat) : Char := Nat.digitChar n

/-- `buffer.toString("hex")`. -/
def toHex (bytes : List UInt8) : List Char :=
  bytes.flatMap fun b => [hexDigit (b.toNat / 16), hexDigit (b.toNat % 16)]

def hexValue (c : Char) : Option Nat :=
  if '0' ≤ c ∧ c ≤ '9' then some (c.toNat - '0'.toNat)
  else if 'a' ≤ c ∧ c ≤ 'f' then some (c.toNat - 'a'.toNat + 10)
  else if 'A' ≤ c ∧ c ≤ 'F' then some (c.toNat - 'A'.toNat + 10)
  else none

/-- `Buffer.from(text, "hex")`: decoding stops at the first pair that is not hexadecimal. -/
def fromHex : List Char → List UInt8
  | c :: d :: rest =>
    match hexValue c, hexValue d with
    | some h, some l => UInt8.ofNat (16 * h + l) :: fromHex rest
    | _, _ => []
  | _ => []

variable (p : Platform)

/-- `hashPassword` with the salt it drew. -/
def hashPassword (plaintext : String) (salt : List UInt8) : String :=
  String.ofList (toHex salt ++ ':' :: toHex (p.scrypt plaintext salt keyLength))

def verifyPassword (plaintext storedHash : String) : Bool :=
  match storedHash.toList.splitOn ':' with
  | saltHex :: hashHex :: _ =>
    if saltHex = [] ∨ hashHex = [] then false
    else
      let salt := fromHex saltHex
      let expected := fromHex hashHex
      let actual := p.scrypt plaintext salt expected.length
      actual.length = expected.length ∧ actual = expected
  | _ => false

/-! ## A fresh hash verifies -/

theorem hexValue_hexDigit {n : Nat} (h : n < 16) : hexValue (hexDigit n) = some n := by
  revert n
  decide

theorem hexDigit_ne_colon {n : Nat} (h : n < 16) : hexDigit n ≠ ':' := by
  revert n
  decide

theorem fromHex_toHex (bytes : List UInt8) : fromHex (toHex bytes) = bytes := by
  induction bytes with
  | nil => rfl
  | cons b bytes ih =>
    have hb : b.toNat < 256 := b.toNat_lt
    have hhi : b.toNat / 16 < 16 := by omega
    have hlo : b.toNat % 16 < 16 := by omega
    have hsum : 16 * (b.toNat / 16) + b.toNat % 16 = b.toNat := by omega
    show fromHex (hexDigit _ :: hexDigit _ :: toHex bytes) = _
    rw [fromHex, hexValue_hexDigit hhi, hexValue_hexDigit hlo]
    simp only [hsum, ih, UInt8.ofNat_toNat]

theorem colon_notMem_toHex (bytes : List UInt8) : ':' ∉ toHex bytes := by
  intro h
  simp only [toHex, List.mem_flatMap, List.mem_cons, List.not_mem_nil, or_false] at h
  obtain ⟨b, -, hb | hb⟩ := h
  · exact hexDigit_ne_colon (Nat.div_lt_of_lt_mul b.toNat_lt) hb.symm
  · exact hexDigit_ne_colon (Nat.mod_lt _ (by decide)) hb.symm

theorem toHex_eq_nil {bytes : List UInt8} : toHex bytes = [] ↔ bytes = [] := by
  cases bytes <;> simp [toHex]

theorem verifyPassword_hashPassword (plaintext : String) {salt : List UInt8} (hsalt : salt ≠ []) :
    verifyPassword p plaintext (hashPassword p plaintext salt) = true := by
  have hlen := p.scrypt_length plaintext salt keyLength
  have hsplit : (hashPassword p plaintext salt).toList.splitOn ':' =
      [toHex salt, toHex (p.scrypt plaintext salt keyLength)] := by
    rw [hashPassword, String.toList_ofList,
      List.splitOn_append_cons_self_of_not_mem (colon_notMem_toHex _),
      List.splitOn_eq_singleton (colon_notMem_toHex _)]
  have hdigest : p.scrypt plaintext salt keyLength ≠ [] := by
    intro h
    rw [h] at hlen
    exact absurd hlen (by decide)
  simp [verifyPassword, hsplit, toHex_eq_nil, hsalt, hdigest, fromHex_toHex, hlen]

/-- A hash shows its salt. -/
theorem salt_of_hashPassword {plaintext plaintext' : String} {salt salt' : List UInt8}
    (h : hashPassword p plaintext salt = hashPassword p plaintext' salt') : salt = salt' := by
  have hchars := String.ofList_injective h
  have hhex := (List.append_cons_inj_of_notMem (colon_notMem_toHex salt) (colon_notMem_toHex _)).mp hchars
  rw [← fromHex_toHex salt, hhex.1, fromHex_toHex]

end Ambit
