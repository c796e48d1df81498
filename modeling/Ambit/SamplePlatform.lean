import Ambit.World

/-! A concrete deployment, for runs on fixed inputs: numbered ids and secrets, a derivation that
keeps the password's first bytes, the default limits of the sources and no customers. -/

namespace Ambit

theorem append_toString_injective (pre : String) :
    Function.Injective fun n : Nat => pre ++ toString n := by
  intro m n h
  have hlist := congrArg String.toList h
  simp only [String.toList_append] at hlist
  have hdigits : Nat.toDigits 10 m = Nat.toDigits 10 n := by
    simpa using List.append_cancel_left hlist
  calc m = Nat.ofDigitChars 10 (Nat.toDigits 10 m) 0 := Nat.ofDigitChars_ten_toDigits.symm
    _ = Nat.ofDigitChars 10 (Nat.toDigits 10 n) 0 := by rw [hdigits]
    _ = n := Nat.ofDigitChars_ten_toDigits

theorem append_toString_ne_empty {pre : String} (hpre : pre.toList ≠ []) (n : Nat) :
    pre ++ toString n ≠ "" := by
  intro h
  have hlist := congrArg String.toList h
  simp [hpre] at hlist

def samplePlatform : Platform where
  randomUUID n := "id-" ++ toString n
  randomUUID_injective := append_toString_injective "id-"
  randomUUID_ne_empty := append_toString_ne_empty (by decide)
  randomSecret n := "secret-" ++ toString n
  randomSecret_injective := append_toString_injective "secret-"
  randomSecret_ne_empty := append_toString_ne_empty (by decide)
  randomSalt n := List.replicate 16 (UInt8.ofNat n)
  randomSalt_length n := by simp
  scrypt plaintext salt n :=
    (plaintext.toList.map (fun c : Char => UInt8.ofNat c.toNat) ++ salt ++ List.replicate n 0).take n
  scrypt_length plaintext salt n := by simp; omega
  sha256 text := "sha256:" ++ text
  stringify content := content.id ++ content.subject ++ content.action ++ content.decision.text
  toISOString t := toString t
  numberText _ := "number"

def sampleEnv : Env where
  toPlatform := samplePlatform
  audit := ⟨"audit-log", ".jsonl", 5000⟩
  circuitBreaker := ⟨3, 5000⟩
  anomaly := ⟨.finite 3, .finite 60000, .finite 3⟩
  customerRegistry _ := none

end Ambit
