import Ambit.PasswordHash
import Ambit.SamplePlatform

/-! Stored password hashes of any shape: which of them let nobody in who does not have a full digest. -/

namespace Ambit

variable {p : Platform} {plaintext storedHash : String}

/-- The stored hash lets the password in only with a digest of 64 bytes that is derived from it. -/
def AdmitsByDigest (p : Platform) (plaintext storedHash : String) : Prop :=
  verifyPassword p plaintext storedHash = true → ∃ saltHex hashHex rest,
    storedHash.toList.splitOn ':' = saltHex :: hashHex :: rest ∧
      (fromHex hashHex).length = keyLength ∧
        fromHex hashHex = p.scrypt plaintext (fromHex saltHex) keyLength

/-- Two parts of the stored hash are there and not empty, and the second one does not decode to 64
bytes. -/
def Damaged (storedHash : String) : Prop :=
  ∃ saltHex hashHex rest, storedHash.toList.splitOn ':' = saltHex :: hashHex :: rest ∧
    saltHex ≠ [] ∧ hashHex ≠ [] ∧ (fromHex hashHex).length ≠ keyLength

/-- What a password needs to get in: a digest of the length that the stored hash itself has. -/
theorem verifyPassword_iff : verifyPassword p plaintext storedHash = true ↔
    ∃ saltHex hashHex rest, storedHash.toList.splitOn ':' = saltHex :: hashHex :: rest ∧
      saltHex ≠ [] ∧ hashHex ≠ [] ∧
        p.scrypt plaintext (fromHex saltHex) (fromHex hashHex).length = fromHex hashHex := by
  unfold verifyPassword
  rcases storedHash.toList.splitOn ':' with _ | ⟨saltHex, _ | ⟨hashHex, rest⟩⟩
  · simp
  · simp
  · dsimp only
    by_cases hempty : saltHex = [] ∨ hashHex = []
    · rw [if_pos hempty]
      refine iff_of_false Bool.false_ne_true ?_
      rintro ⟨_, _, _, ⟨⟩, hsalt, hhash, -⟩
      exact hempty.elim hsalt hhash
    · rw [if_neg hempty]
      obtain ⟨hsalt, hhash⟩ := not_or.mp hempty
      rw [decide_eq_true_iff]
      constructor
      · rintro ⟨-, hdigest⟩
        exact ⟨saltHex, hashHex, rest, rfl, hsalt, hhash, hdigest⟩
      · rintro ⟨_, _, _, ⟨⟩, -, -, hdigest⟩
        exact ⟨p.scrypt_length .., hdigest⟩

/-- A second part that does not decode at all lets every password in. -/
theorem undecodable_admits {saltHex hashHex : List Char} {rest : List (List Char)}
    (hfields : storedHash.toList.splitOn ':' = saltHex :: hashHex :: rest) (hsalt : saltHex ≠ [])
    (hhash : hashHex ≠ []) (hnone : fromHex hashHex = []) :
    verifyPassword p plaintext storedHash = true := by
  refine verifyPassword_iff.mpr ⟨saltHex, hashHex, rest, hfields, hsalt, hhash, ?_⟩
  rw [hnone]
  exact List.length_eq_zero_iff.mp (p.scrypt_length ..)

/-- The stored hash is damaged, and the password derives the digest that is left of it. -/
def DamagedInto (p : Platform) (plaintext storedHash : String) : Prop :=
  ∃ saltHex hashHex rest, storedHash.toList.splitOn ':' = saltHex :: hashHex :: rest ∧
    saltHex ≠ [] ∧ hashHex ≠ [] ∧ (fromHex hashHex).length ≠ keyLength ∧
      p.scrypt plaintext (fromHex saltHex) (fromHex hashHex).length = fromHex hashHex

theorem admitsByDigest_iff :
    AdmitsByDigest p plaintext storedHash ↔ ¬ DamagedInto p plaintext storedHash := by
  constructor
  · rintro hadmits ⟨saltHex, hashHex, rest, hfields, hsalt, hhash, hlength, hdigest⟩
    obtain ⟨_, _, _, hfields', hlength', -⟩ :=
      hadmits (verifyPassword_iff.mpr ⟨saltHex, hashHex, rest, hfields, hsalt, hhash, hdigest⟩)
    cases hfields.symm.trans hfields'
    exact hlength hlength'
  · intro hdamaged hverify
    obtain ⟨saltHex, hashHex, rest, hfields, hsalt, hhash, hdigest⟩ := verifyPassword_iff.mp hverify
    have hlength : (fromHex hashHex).length = keyLength :=
      of_not_not fun hlength =>
        hdamaged ⟨saltHex, hashHex, rest, hfields, hsalt, hhash, hlength, hdigest⟩
    exact ⟨saltHex, hashHex, rest, hfields, hlength, hlength ▸ hdigest.symm⟩

/-- A key derivation that yields these bytes where as many are asked for. -/
def samplePlatformOf (digest : List UInt8) : Platform :=
  { samplePlatform with
    scrypt := fun _ _ n => if n = digest.length then digest else List.replicate n 0
    scrypt_length := fun _ _ n => by
      split
      · next h => exact h.symm
      · exact List.length_replicate }

theorem admitsByDigest_all_iff :
    (∀ p plaintext, AdmitsByDigest p plaintext storedHash) ↔ ¬ Damaged storedHash := by
  constructor
  · rintro hadmits ⟨saltHex, hashHex, rest, hfields, hsalt, hhash, hlength⟩
    refine admitsByDigest_iff.mp (hadmits (samplePlatformOf (fromHex hashHex)) "") ?_
    exact ⟨saltHex, hashHex, rest, hfields, hsalt, hhash, hlength, if_pos rfl⟩
  · intro hwhole p plaintext
    refine admitsByDigest_iff.mpr ?_
    rintro ⟨saltHex, hashHex, rest, hfields, hsalt, hhash, hlength, -⟩
    exact hwhole ⟨saltHex, hashHex, rest, hfields, hsalt, hhash, hlength⟩

/-- The password gets in with its own fresh hash, and with the stored one only by a full digest. -/
def StoredHashSafe (p : Platform) (plaintext storedHash : String) : Prop :=
  AdmitsByDigest p plaintext storedHash ∧
    ∀ n, verifyPassword p plaintext (hashPassword p plaintext (p.randomSalt n)) = true

/-- **What a damaged stored hash does.** It lets in exactly the passwords that derive the digest that
is left of it; and only a stored hash that is not damaged lets nobody else in, whatever the key
derivation. -/
theorem storedHashSafe_iff (storedHash : String) :
    (∀ p plaintext, StoredHashSafe p plaintext storedHash ↔ ¬ DamagedInto p plaintext storedHash) ∧
      ((∀ p plaintext, StoredHashSafe p plaintext storedHash) ↔ ¬ Damaged storedHash) := by
  have hfresh : ∀ (p : Platform) plaintext n,
      verifyPassword p plaintext (hashPassword p plaintext (p.randomSalt n)) = true := by
    intro p plaintext n
    refine verifyPassword_hashPassword p plaintext fun hempty => ?_
    have hlength := p.randomSalt_length n
    rw [hempty] at hlength
    cases hlength
  constructor
  · intro p plaintext
    rw [← admitsByDigest_iff]
    exact and_iff_left (hfresh p plaintext)
  · rw [← admitsByDigest_all_iff]
    exact forall₂_congr fun p plaintext => and_iff_left (hfresh p plaintext)

/-- **A guess gets in** with a hash part that is not hexadecimal, as every password does. -/
theorem not_storedHashSafe : ¬ StoredHashSafe samplePlatform "guess" "00:zz" := by
  intro hsafe
  have hfields' : ("00:zz".toList.splitOn ':') = [['0', '0'], ['z', 'z']] := by decide
  have hverify : verifyPassword samplePlatform "guess" "00:zz" = true :=
    undecodable_admits hfields' (by decide) (by decide) (by decide)
  obtain ⟨saltHex, hashHex, rest, hfields, hlength, -⟩ := hsafe.1 hverify
  cases hfields'.symm.trans hfields
  exact absurd hlength (by decide)

end Ambit
