import Ambit.Lib.BitString
import Ambit.Lib.Decimal
import Ambit.SamplePlatform
import Ambit.Totp

/-! `totp.ts`: the truncation of an HMAC, against RFC 4226, and the digits of the codes. -/

namespace Ambit

open BitString IsoDate

variable {hmac : List UInt8}

/-! ## RFC 4226 -/

/-- `DT` of RFC 4226, section 5.3: the last 31 bits of the four bytes that start at the offset in the
low-order four bits of the last byte. -/
def rfc4226Truncate (hmac : List UInt8) : ℕ :=
  let offset := BitString.value (low 4 (hmac.getD 19 0).toNat)
  BitString.value ((bitsOf ((hmac.drop offset).take 4)).rtake 31)

/-! ## The truncation -/

theorem hmacOffset_eq : hmacOffset hmac =
    BitString.value (low 4 (hmac.getD (hmac.length - 1) 0).toNat) := by
  rw [hmacOffset, UInt8.toNat_and, value_low]
  exact Nat.and_two_pow_sub_one_eq_mod _ 4

theorem hmacOffset_lt : hmacOffset hmac < 16 := by
  rw [hmacOffset_eq, value_low]
  exact Nat.mod_lt _ (by decide)

/-- A stretch of a list that does not go over its end. -/
theorem take_drop_eq {α : Type} {l : List α} {i k : ℕ} (h : i + k ≤ l.length) (a : α) :
    (l.drop i).take k = (List.range k).map fun j => l.getD (i + j) a := by
  refine List.ext_getElem ?_ fun j hj hj' => ?_
  · rw [List.length_take, List.length_drop, List.length_map, List.length_range]
    omega
  · rw [List.length_map, List.length_range] at hj'
    rw [List.getElem_take, List.getElem_drop, List.getElem_map, List.getElem_range,
      List.getElem_eq_getD a]

/-- Four bytes without the highest bit, as the operators put them together. -/
theorem low_or (a b c d : ℕ) (hb : b < 2 ^ 8) (hc : c < 2 ^ 8) (hd : d < 2 ^ 8) :
    low 31 (a <<< 24 ||| b <<< 16 ||| c <<< 8 ||| d) = low 7 a ++ low 8 b ++ low 8 c ++ low 8 d := by
  have hnested : a <<< 24 ||| b <<< 16 ||| c <<< 8 ||| d =
      ((a <<< 8 ||| b) <<< 8 ||| c) <<< 8 ||| d := by
    simp only [Nat.shiftLeft_or_distrib, ← Nat.shiftLeft_add]
  rw [hnested, low_push (n := 23) hd, low_push (n := 15) hc, low_push (n := 7) hb]

theorem hmacByte_and (index n : ℕ) (hn : n ≤ 8) :
    (hmacByte hmac index &&& Int32.ofNat (2 ^ n - 1)).toBitVec.toNat =
      (hmac.getD index 0).toNat % 2 ^ n := by
  have hmask : 2 ^ n - 1 < 2 ^ 32 := by
    have hpow : 2 ^ n ≤ 2 ^ 8 := Nat.pow_le_pow_right (by decide) hn
    omega
  have hbyte : (hmac.getD index 0).toNat < 2 ^ 32 := (UInt8.toNat_lt _).trans (by decide)
  rw [Int32.toBitVec_and, BitVec.toNat_and, hmacByte, Int32.toBitVec_ofNat', Int32.toBitVec_ofNat',
    BitVec.toNat_ofNat, BitVec.toNat_ofNat, Nat.mod_eq_of_lt hmask, Nat.mod_eq_of_lt hbyte,
    Nat.and_two_pow_sub_one_eq_mod]

/-- No bit of a byte is shifted out, or into the place of the sign. -/
theorem toNat_truncated : (truncated hmac).toBitVec.toNat =
    ((hmac.getD (hmacOffset hmac) 0).toNat % 2 ^ 7) <<< 24 |||
      (hmac.getD (hmacOffset hmac + 1) 0).toNat <<< 16 |||
      (hmac.getD (hmacOffset hmac + 2) 0).toNat <<< 8 |||
      (hmac.getD (hmacOffset hmac + 3) 0).toNat := by
  have hfirst : (hmacByte hmac (hmacOffset hmac) &&& 0x7f).toBitVec.toNat =
      (hmac.getD (hmacOffset hmac) 0).toNat % 2 ^ 7 := hmacByte_and _ 7 (by decide)
  have hbyte : ∀ index, (hmacByte hmac index &&& 0xff).toBitVec.toNat =
      (hmac.getD index 0).toNat := fun index =>
    (hmacByte_and index 8 le_rfl).trans (Nat.mod_eq_of_lt (UInt8.toNat_lt _))
  have hshift : ∀ (x : BitVec 32) (k : ℕ), x.toNat <<< k < 2 ^ 32 →
      (x <<< k).toNat = x.toNat <<< k := fun x k h => by
    rw [BitVec.toNat_shiftLeft, Nat.mod_eq_of_lt h]
  show ((hmacByte hmac (hmacOffset hmac) &&& 0x7f).toBitVec <<< 24 |||
    (hmacByte hmac (hmacOffset hmac + 1) &&& 0xff).toBitVec <<< 16 |||
    (hmacByte hmac (hmacOffset hmac + 2) &&& 0xff).toBitVec <<< 8 |||
    (hmacByte hmac (hmacOffset hmac + 3) &&& 0xff).toBitVec).toNat = _
  rw [BitVec.toNat_or, BitVec.toNat_or, BitVec.toNat_or, hshift, hshift, hshift, hfirst, hbyte, hbyte,
    hbyte]
  · rw [hbyte]
    exact shiftLeft_lt (UInt8.toNat_lt _) (by decide)
  · rw [hbyte]
    exact shiftLeft_lt (UInt8.toNat_lt _) (by decide)
  · rw [hfirst]
    exact shiftLeft_lt (Nat.mod_lt _ (by decide)) (by decide)

theorem low_truncated (h : hmacOffset hmac + 4 ≤ hmac.length) :
    low 31 (truncated hmac).toBitVec.toNat =
      (bitsOf ((hmac.drop (hmacOffset hmac)).take 4)).rtake 31 := by
  rw [toNat_truncated, low_or _ _ _ _ (UInt8.toNat_lt _) (UInt8.toNat_lt _) (UInt8.toNat_lt _), low_mod,
    take_drop_eq h 0]
  rfl

theorem truncated_lt : (truncated hmac).toBitVec.toNat < 2 ^ 31 := by
  rw [toNat_truncated]
  refine Nat.or_lt_two_pow (Nat.or_lt_two_pow (Nat.or_lt_two_pow ?_ ?_) ?_) ?_
  · exact shiftLeft_lt (Nat.mod_lt _ (by decide)) (by decide)
  · exact shiftLeft_lt (UInt8.toNat_lt _) (by decide)
  · exact shiftLeft_lt (UInt8.toNat_lt _) (by decide)
  · exact (UInt8.toNat_lt _).trans (by decide)

/-- The truncation is not negative, and is the number of RFC 4226. -/
theorem toInt_truncated (h : hmac.length = 20) :
    (truncated hmac).toInt = rfc4226Truncate hmac ∧ rfc4226Truncate hmac < 2 ^ 31 := by
  have hinside : hmacOffset hmac + 4 ≤ hmac.length := by
    have hoffset : hmacOffset hmac < 16 := hmacOffset_lt
    omega
  have hlast : hmac.getD (hmac.length - 1) 0 = hmac.getD 19 0 := by rw [h]
  have hvalue : (truncated hmac).toBitVec.toNat = rfc4226Truncate hmac := by
    rw [rfc4226Truncate, ← hlast, ← hmacOffset_eq, ← low_truncated hinside, value_low,
      Nat.mod_eq_of_lt truncated_lt]
  have hlt : rfc4226Truncate hmac < 2 ^ 31 := hvalue ▸ truncated_lt
  refine ⟨?_, hlt⟩
  rw [← Int32.toInt_toBitVec, BitVec.toInt_eq_toNat_of_lt, hvalue]
  rw [hvalue]
  omega

/-! ## Codes -/

section
variable {p : LoginPlatform} {secret : String} {key : List UInt8} {timeMs counter : ℤ}
  {stepSeconds n : ℕ}

/-- The code is the last digits of the truncation. -/
theorem generateTotpCode_digits (hstep : 1 ≤ stepSeconds)
    (hcounter : timeMs / 1000 / stepSeconds = counter) (h : 0 ≤ counter) (hlt : counter < 2 ^ 32)
    (hkey : base32Decode p secret = .ok key) (hn : 1 ≤ n) :
    generateTotpCode p secret timeMs stepSeconds n =
      .ok (String.ofList (digits n (rfc4226Truncate (p.hmacSha1 key (counterBuffer counter.toNat))))) := by
  obtain ⟨n, rfl⟩ := Nat.exists_eq_add_of_le' hn
  have hsnum := (toInt_truncated (p.hmacSha1_length key (counterBuffer counter.toNat))).1
  generalize rfc4226Truncate (p.hmacSha1 key (counterBuffer counter.toNat)) = snum at hsnum
  have htext : padStart (n + 1) (toString (snum % 10 ^ (n + 1))) = String.ofList (digits (n + 1) snum) := by
    rw [padStart, Nat.toString_eq_ofList_toDigits, String.toList_ofList,
      Decimal.leftpad_toDigits (Nat.mod_lt _ (Nat.pow_pos (by decide))), Decimal.digits_mod le_rfl]
  rw [generateTotpCode_of_key hstep hcounter h (Int.le_sub_one_of_lt hlt) hkey]
  dsimp only
  rw [hsnum, ← htext]
  rfl

end

/-- The places of an HMAC that the dynamic truncation reads. -/
def hmacReads (hmac : List UInt8) : List ℕ :=
  (hmac.length - 1) :: (List.range 4).map (hmacOffset hmac + ·)

/-- What the truncation of an HMAC is: it reads the HMAC in a few places, where it has bytes, and is a
number of 31 bits, the one of RFC 4226. -/
structure TruncatesExactly (hmac : List UInt8) : Prop where
  inside : ∀ i ∈ hmacReads hmac, i < hmac.length
  reads : ∀ hmac' : List UInt8, hmac'.length = hmac.length →
    (∀ i ∈ hmacReads hmac, hmac'[i]? = hmac[i]?) → truncated hmac' = truncated hmac
  nonneg : 0 ≤ (truncated hmac).toInt
  lt : (truncated hmac).toInt < 2 ^ 31
  rfc4226 : (truncated hmac).toInt = rfc4226Truncate hmac

/-- What the codes of different lengths that are made of one number are: so many decimal digits, those
of its remainder, and a shorter code is the end of a longer one. -/
structure CodesExactly (snum : ℕ) (generate : ℕ → Except TotpError String) : Prop where
  code : ∀ n, 1 ≤ n → ∃ code, generate n = .ok code ∧ code.length = n ∧
    (∀ c ∈ code.toList, c.isDigit = true) ∧ Nat.ofDigitChars 10 code.toList 0 = snum % 10 ^ n
  last : ∀ m n code, 1 ≤ m → m ≤ n → generate n = .ok code →
    generate m = .ok (String.ofList (code.toList.rtake m))

theorem truncated_congr {hmac' : List UInt8} (hlength : hmac'.length = hmac.length)
    (h : ∀ i ∈ hmacReads hmac, hmac'[i]? = hmac[i]?) : truncated hmac' = truncated hmac := by
  have hget : ∀ i ∈ hmacReads hmac, hmac'.getD i 0 = hmac.getD i 0 := fun i hi => by
    rw [List.getD_eq_getElem?_getD, List.getD_eq_getElem?_getD, h i hi]
  have hoffset : hmacOffset hmac' = hmacOffset hmac := by
    rw [hmacOffset, hmacOffset, hlength, hget _ (List.mem_cons_self ..)]
  have hbyte : ∀ k < 4, hmacByte hmac' (hmacOffset hmac + k) = hmacByte hmac (hmacOffset hmac + k) := by
    intro k hk
    have hmem : hmacOffset hmac + k ∈ hmacReads hmac :=
      List.mem_cons_of_mem _ (List.mem_map.mpr ⟨k, List.mem_range.mpr hk, rfl⟩)
    rw [hmacByte, hmacByte, hget _ hmem]
  have hfirst : hmacByte hmac' (hmacOffset hmac) = hmacByte hmac (hmacOffset hmac) :=
    hbyte 0 (by decide)
  simp only [truncated, hoffset, hfirst, hbyte 1 (by decide), hbyte 2 (by decide), hbyte 3 (by decide)]

theorem truncatesExactly (h : hmac.length = 20) : TruncatesExactly hmac := by
  obtain ⟨hsnum, hlt⟩ := toInt_truncated h
  have hoffset : hmacOffset hmac < 16 := hmacOffset_lt
  refine ⟨?_, fun hmac' => truncated_congr, ?_, ?_, hsnum⟩
  · intro i hi
    rcases List.mem_cons.mp hi with rfl | hi
    · omega
    · obtain ⟨k, hk, rfl⟩ := List.mem_map.mp hi
      have hk := List.mem_range.mp hk
      omega
  · rw [hsnum]
    exact Int.natCast_nonneg _
  · rw [hsnum]
    exact_mod_cast hlt

theorem codesExactly {snum : ℕ} {generate : ℕ → Except TotpError String}
    (h : ∀ n, 1 ≤ n → generate n = .ok (String.ofList (digits n snum))) :
    CodesExactly snum generate where
  code n hn := by
    refine ⟨_, h n hn, ?_, ?_, ?_⟩
    · rw [String.length_ofList, Decimal.length_digits]
    · rw [String.toList_ofList]
      exact fun c hc => Decimal.isDigit_of_mem_digits hc
    · rw [String.toList_ofList, Decimal.ofDigitChars_digits, Nat.mul_zero, Nat.zero_add]
  last m n code hm hle hcode := by
    rw [h n (hm.trans hle)] at hcode
    cases hcode
    rw [h m hm, String.toList_ofList, Decimal.rtake_digits hle]

/-- **The truncation and the codes are those of RFC 4226.** -/
theorem hotp_exact (hlength : hmac.length = 20) {timeMs counter : ℤ} {stepSeconds : ℕ}
    (hstep : 1 ≤ stepSeconds) (hcounter : timeMs / 1000 / stepSeconds = counter) (hlt : counter < 2 ^ 32) :
    TruncatesExactly hmac ∧ ∀ (p : LoginPlatform) (secret : String) (key : List UInt8),
      base32Decode p secret = .ok key → p.hmacSha1 key (counterBuffer counter.toNat) = hmac →
      (counter < 0 → ∀ n, generateTotpCode p secret timeMs stepSeconds n =
        .error (.rangeError (.finite counter))) ∧
      (0 ≤ counter →
        CodesExactly (rfc4226Truncate hmac) (generateTotpCode p secret timeMs stepSeconds)) := by
  refine ⟨truncatesExactly hlength, fun p secret key hkey hhmac => ⟨fun hneg n => ?_, fun hpos => ?_⟩⟩
  · exact generateTotpCode_of_neg hstep hcounter hneg
  · subst hhmac
    exact codesExactly fun n hn => generateTotpCode_digits hstep hcounter hpos hlt hkey hn

/-- The HMAC of the example in RFC 4226, section 5.4. -/
def sampleHmac : List UInt8 :=
  [0x1f, 0x86, 0x98, 0x69, 0x0e, 0x02, 0xca, 0x16, 0x61, 0x85, 0x50, 0xef, 0x7f, 0x19, 0xda, 0x8e, 0x94,
    0x5b, 0x55, 0x5a]

/-- A deployment whose HMACs are all that one. -/
def sampleHmacPlatform : LoginPlatform where
  toPlatform := samplePlatform
  toUpperCase := id
  hmacSha1 _ _ := sampleHmac
  hmacSha1_length _ _ := rfl

/-- The six digits of the example are 872921. -/
theorem hotp_exact_sample : TruncatesExactly sampleHmac ∧
    CodesExactly 0x50ef7f19 (generateTotpCode sampleHmacPlatform "AAAAAAAA" 59000 30) ∧
    generateTotpCode sampleHmacPlatform "AAAAAAAA" 59000 30 6 = .ok "872921" := by
  have hexact := @hotp_exact sampleHmac rfl 59000 1 30 (by decide) (by decide) (by decide)
  refine ⟨hexact.1, ?_, rfl⟩
  exact (hexact.2 sampleHmacPlatform "AAAAAAAA" [0, 0, 0, 0, 0] rfl rfl).2 (by decide)

end Ambit
