import Ambit.Lib.BitString
import Ambit.SamplePlatform
import Ambit.Totp

/-! `totp.ts`: the base 32 of secrets, against RFC 4648. -/

namespace Ambit

open BitString

/-! ## Encoding -/

/-- `BASE32_ALPHABET[value & 31]` -/
def base32Char (value : UInt32) : Char := base32Alphabet.getD (value &&& 31).toNat 'A'

/-- The inner loop of `base32Encode`: the characters it puts out, and the bits that are left over. -/
def base32Emit : Nat → UInt32 → List Char × Nat
  | bits + 5, value =>
    let (output, left) := base32Emit bits value
    (base32Char (value >>> UInt32.ofNat bits) :: output, left)
  | bits, _ => ([], bits)

/-- The loop of `base32Encode` and what follows it, up to the padding. -/
def base32EncodeFrom (bits : Nat) (value : UInt32) : List UInt8 → List Char
  | [] => if 0 < bits then [base32Char (value <<< UInt32.ofNat (5 - bits))] else []
  | byte :: rest =>
    let value := value <<< 8 ||| byte.toUInt32
    let (output, left) := base32Emit (bits + 8) value
    output ++ base32EncodeFrom left value rest

/-- The last loop of `base32Encode`. -/
def base32Pad (output : List Char) : List Char :=
  if output.length % 8 ≠ 0 then base32Pad (output ++ ['=']) else output
termination_by (8 - output.length % 8) % 8
decreasing_by
  rw [List.length_append, List.length_singleton]
  omega

def base32Encode (buf : List UInt8) : String := String.ofList (base32Pad (base32EncodeFrom 0 0 buf))

/-! ## RFC 4648 -/

/-- The character of a group of five bits. -/
def base32Digit (group : List Bool) : Char := base32Alphabet.getD (BitString.value group) 'A'

/-- The encoding as RFC 4648 has it: the bits in groups of five, the last one filled up with zeros, and
padding up to a multiple of eight characters. -/
def rfc4648Base32 (bytes : List UInt8) : String :=
  let digits := (groups 5 (bitsOf bytes)).map base32Digit
  String.ofList (digits ++ List.replicate ((8 - digits.length % 8) % 8) '=')

/-! ## The accumulator -/

section
variable {n w bits : ℕ} {value : UInt32}

theorem toNat_ofNat_mod (h : n < 32) : (UInt32.ofNat n).toNat % 32 = n := by
  rw [UInt32.toNat_ofNat', Nat.mod_mod_of_dvd _ (by decide), Nat.mod_eq_of_lt h]

/-- A digit put below the value: what was in the places that are still looked at moves up. -/
theorem low_push32 (hw : w < 32) (h : n + w ≤ 32) {digit : UInt32} (hdigit : digit.toNat < 2 ^ w) :
    low (n + w) (value <<< UInt32.ofNat w ||| digit).toNat =
      low n value.toNat ++ low w digit.toNat := by
  rw [UInt32.toNat_or, UInt32.toNat_shiftLeft, toNat_ofNat_mod hw, ← low_push hdigit]
  refine low_congr fun i hi => ?_
  rw [Nat.testBit_or, Nat.testBit_or, Nat.testBit_mod_two_pow, decide_eq_true (hi.trans_le h),
    Bool.true_and]

theorem toNat_shiftRight (h : n < 32) : (value >>> UInt32.ofNat n).toNat = value.toNat >>> n := by
  rw [UInt32.toNat_shiftRight, toNat_ofNat_mod h]

theorem base32Char_eq : base32Char value = base32Digit (low 5 value.toNat) := by
  rw [base32Char, base32Digit, value_low, UInt32.toNat_and]
  exact congrArg (base32Alphabet.getD · 'A') (Nat.and_two_pow_sub_one_eq_mod value.toNat 5)

theorem base32Emit_eq (h : bits < 32) :
    base32Emit bits value = ((whole 5 (low bits value.toNat)).map base32Digit, bits % 5) := by
  induction bits using Nat.strongRecOn with
  | ind bits ih =>
    by_cases hlt : bits < 5
    · rw [whole_short (by rwa [length_low]), Nat.mod_eq_of_lt hlt]
      unfold base32Emit
      split
      · omega
      · rfl
    · obtain ⟨m, rfl⟩ := Nat.exists_eq_add_of_le' (not_lt.mp hlt)
      rw [base32Emit, ih m (by omega) (by omega), base32Char_eq, toNat_shiftRight (by omega),
        Nat.add_comm m 5, low_add, whole_append (by decide) (length_low ..), Nat.add_mod_left]
      rfl

/-- The loop, from any value: the bits that are left over, and those of the bytes to come. -/
theorem base32EncodeFrom_eq (h : bits < 5) (bytes : List UInt8) :
    base32EncodeFrom bits value bytes =
      (groups 5 (low bits value.toNat ++ bitsOf bytes)).map base32Digit := by
  induction bytes generalizing bits value with
  | nil =>
    rw [base32EncodeFrom, bitsOf, List.flatMap_nil, List.append_nil]
    by_cases hpos : 0 < bits
    · have hlow : low 5 (value <<< UInt32.ofNat (5 - bits)).toNat =
          low bits value.toNat ++ List.replicate (5 - bits) false := by
        have hpush : low (bits + (5 - bits)) (value <<< UInt32.ofNat (5 - bits) ||| 0).toNat =
            low bits value.toNat ++ low (5 - bits) (0 : UInt32).toNat :=
          low_push32 (by omega) (by omega) (Nat.two_pow_pos _)
        rw [UInt32.or_zero, Nat.add_sub_cancel' h.le] at hpush
        rw [hpush, ← low_zero]
        rfl
      rw [if_pos hpos, groups_short (by rwa [length_low]) (by rwa [length_low]), base32Char_eq, hlow,
        length_low]
      rfl
    · rw [if_neg hpos, Nat.eq_zero_of_not_pos hpos, low, groups_nil (by decide)]
      rfl
  | cons byte bytes ih =>
    have hpush : low (bits + 8) (value <<< 8 ||| byte.toUInt32).toNat =
        low bits value.toNat ++ low 8 byte.toNat := by
      refine (low_push32 (by decide) (by omega) ?_).trans ?_
      · rw [UInt8.toNat_toUInt32]
        exact byte.toNat_lt
      · rw [UInt8.toNat_toUInt32]
    rw [base32EncodeFrom, base32Emit_eq (by omega)]
    dsimp only
    rw [ih (Nat.mod_lt _ (by decide)), ← List.map_append, ← groups_low_append (by decide), hpush,
      List.append_assoc]
    rfl

theorem base32Pad_eq (output : List Char) :
    base32Pad output = output ++ List.replicate ((8 - output.length % 8) % 8) '=' := by
  induction output using base32Pad.induct with
  | case1 output hne ih =>
    rw [base32Pad, if_pos hne, ih, List.append_assoc, List.length_append, List.length_singleton]
    have hcount : (8 - output.length % 8) % 8 = (8 - (output.length + 1) % 8) % 8 + 1 := by omega
    rw [hcount, List.replicate_succ]
    rfl
  | case2 output heq =>
    rw [base32Pad, if_neg heq, not_not.mp heq]
    exact (List.append_nil output).symm

end

/-- Encoding conforms to RFC 4648. -/
theorem base32Encode_eq (bytes : List UInt8) : base32Encode bytes = rfc4648Base32 bytes := by
  rw [base32Encode, base32Pad_eq, base32EncodeFrom_eq (by decide)]
  rfl

/-! ## Decoding -/

/-- The string that the loop of `base32Decode` goes through. -/
def base32Clean (p : LoginPlatform) (input : String) : List Char :=
  ((p.toUpperCase input).toList.rdropWhile (· = '=')).filter (!isWhiteSpace ·)

theorem base32Decode_eq (p : LoginPlatform) (input : String) :
    base32Decode p input = base32DecodeFrom 0 0 (base32Clean p input) := rfl

section
variable {bits : ℕ} {value : UInt32} {chars : List Char}

theorem idxOf?_getD : ∀ n < 32, base32Alphabet.idxOf? (base32Alphabet.getD n 'A') = some n := by
  decide

theorem getD_mem_alphabet : ∀ n < 32, base32Alphabet.getD n 'A' ∈ base32Alphabet := by decide

theorem idxOf?_base32Digit {g : List Bool} (hg : g.length = 5) :
    base32Alphabet.idxOf? (base32Digit g) = some (BitString.value g) :=
  idxOf?_getD _ ((value_lt g).trans_eq (congrArg (2 ^ ·) hg))

/-- The loop, from any value: the whole bytes of the bits that are left over and those to come. -/
theorem base32DecodeFrom_eq (h : bits < 8) {gs : List (List Bool)} (hgs : ∀ g ∈ gs, g.length = 5) :
    base32DecodeFrom bits value (gs.map base32Digit) =
      .ok (bytesOf (low bits value.toNat ++ gs.flatten)) := by
  induction gs generalizing bits value with
  | nil =>
    rw [List.flatten_nil, List.append_nil, bytesOf, whole_short (by rwa [length_low])]
    rfl
  | cons g gs ih =>
    obtain ⟨hg, hgs⟩ := List.forall_mem_cons.mp hgs
    have hpush : low (bits + 5) (value <<< 5 ||| UInt32.ofNat (BitString.value g)).toNat =
        low bits value.toNat ++ g := by
      have hlt : BitString.value g < 2 ^ 5 := hg ▸ value_lt g
      have htoNat : (UInt32.ofNat (BitString.value g)).toNat = BitString.value g :=
        UInt32.toNat_ofNat_of_lt' (hlt.trans (by decide))
      refine (low_push32 (by decide) (by omega) (by rwa [htoNat])).trans ?_
      rw [htoNat]
      exact congrArg _ (hg ▸ low_value g)
    rw [List.map_cons, base32DecodeFrom, idxOf?_base32Digit hg]
    dsimp only
    by_cases hbyte : 8 ≤ bits + 5
    · obtain ⟨left, hleft⟩ := Nat.exists_eq_add_of_le hbyte
      have hsub : bits + 5 - 8 = left := by omega
      rw [if_pos hbyte, hsub, ih (by omega) hgs, List.flatten_cons, ← List.append_assoc, ← hpush, hleft,
        low_add, List.append_assoc, bytesOf, bytesOf, whole_append (by decide) (length_low ..),
        List.map_cons, value_low, ← toNat_shiftRight (by omega)]
      refine congrArg (fun byte => Except.ok (byte :: _)) (UInt8.toNat_inj.mp ?_)
      rw [UInt32.toNat_toUInt8, UInt8.toNat_ofNat', Nat.mod_mod]
    · rw [if_neg hbyte, ih (by omega) hgs, List.flatten_cons, ← List.append_assoc, hpush]

/-- A text is accepted if and only if its characters are in the alphabet. -/
theorem base32DecodeFrom_accepts (bits : ℕ) (value : UInt32) (chars : List Char) :
    (∃ bytes, base32DecodeFrom bits value chars = .ok bytes) ↔ ∀ c ∈ chars, c ∈ base32Alphabet := by
  induction chars generalizing bits value with
  | nil => exact iff_of_true ⟨[], rfl⟩ fun c hc => absurd hc List.not_mem_nil
  | cons char rest ih =>
    rw [base32DecodeFrom, List.forall_mem_cons]
    cases hidx : base32Alphabet.idxOf? char with
    | none =>
      refine iff_of_false ?_ fun h => (List.idxOf?_eq_none_iff.mp hidx) h.1
      rintro ⟨bytes, hbytes⟩
      cases hbytes
    | some idx =>
      have hmem : char ∈ base32Alphabet := by
        by_contra hnot
        cases hidx.symm.trans (List.idxOf?_eq_none_iff.mpr hnot)
      rw [and_iff_right hmem]
      dsimp only
      split
      · rw [← ih (bits + 5 - 8) (value <<< 5 ||| UInt32.ofNat idx)]
        constructor
        · rintro ⟨bytes, hbytes⟩
          cases hrest : base32DecodeFrom (bits + 5 - 8) (value <<< 5 ||| UInt32.ofNat idx) rest with
          | ok bytes' => exact ⟨bytes', rfl⟩
          | error err =>
            rw [hrest] at hbytes
            cases hbytes
        · rintro ⟨bytes, hbytes⟩
          rw [hbytes]
          exact ⟨_, rfl⟩
      · exact ih _ _

end

/-! ## Upper case, padding and white space -/

/-- What `toUpperCase` does: a text is mapped character by character; ASCII letters get their upper
case, the other ASCII characters and white space stay, and no other character becomes white space or a
padding character. -/
structure UpperCases (toUpperCase : String → String) (mapping : Char → List Char) : Prop where
  mapped : ∀ s, (toUpperCase s).toList = s.toList.flatMap mapping
  ascii : ∀ c, c.toNat < 128 → mapping c = [c.toUpper]
  white : ∀ c, isWhiteSpace c = true → mapping c = [c]
  other : ∀ c, 128 ≤ c.toNat → isWhiteSpace c = false →
    ∀ d ∈ mapping c, d ≠ '=' ∧ isWhiteSpace d = false

section
variable {p : LoginPlatform} {mapping : Char → List Char}

theorem alphabet_plain : ∀ c ∈ '=' :: base32Alphabet,
    c.toNat < 128 ∧ c.toUpper = c ∧ isWhiteSpace c = false := by
  have hall : ('=' :: base32Alphabet).all
    fun c => c.toNat < 128 ∧ c.toUpper = c ∧ isWhiteSpace c = false := by decide
  exact fun c hc => of_decide_eq_true (List.all_eq_true.mp hall c hc)

theorem padding_not_mem : '=' ∉ base32Alphabet := by decide

theorem flatMap_plain (hupper : UpperCases p.toUpperCase mapping) {chars : List Char}
    (h : ∀ c ∈ chars, c ∈ '=' :: base32Alphabet) : chars.flatMap mapping = chars := by
  induction chars with
  | nil => rfl
  | cons c chars ih =>
    obtain ⟨hc, hchars⟩ := List.forall_mem_cons.mp h
    obtain ⟨hascii, htoUpper, -⟩ := alphabet_plain c hc
    rw [List.flatMap_cons, ih hchars, hupper.ascii c hascii, htoUpper]
    rfl

theorem rdropWhile_append_replicate (chars : List Char) (k : ℕ) :
    (chars ++ List.replicate k '=').rdropWhile (· = '=') = chars.rdropWhile (· = '=') := by
  induction k with
  | zero => rw [List.replicate_zero, List.append_nil]
  | succ k ih =>
    rw [List.replicate_succ', ← List.append_assoc, List.rdropWhile_concat_pos _ _ _ (by decide), ih]

theorem rdropWhile_of_not_mem {chars : List Char} (h : '=' ∉ chars) :
    chars.rdropWhile (· = '=') = chars := by
  rw [List.rdropWhile_eq_self_iff]
  intro hne heq
  rw [decide_eq_true_eq] at heq
  exact h (heq ▸ List.getLast_mem hne)

/-- A text of the alphabet, padded, is cleaned of the padding. -/
theorem base32Clean_padded (hupper : UpperCases p.toUpperCase mapping) {digits : List Char}
    (hdigits : ∀ c ∈ digits, c ∈ base32Alphabet) (k : ℕ) :
    base32Clean p (String.ofList (digits ++ List.replicate k '=')) = digits := by
  have hplain : ∀ c ∈ digits ++ List.replicate k '=', c ∈ '=' :: base32Alphabet := by
    intro c hc
    rcases List.mem_append.mp hc with hc | hc
    · exact List.mem_cons_of_mem _ (hdigits c hc)
    · rw [(List.mem_replicate.mp hc).2]
      exact List.mem_cons_self ..
  rw [base32Clean, hupper.mapped, String.toList_ofList, flatMap_plain hupper hplain,
    rdropWhile_append_replicate, rdropWhile_of_not_mem fun h => padding_not_mem (hdigits _ h)]
  refine List.filter_eq_self.mpr fun c hc => ?_
  obtain ⟨-, -, hwhite⟩ := alphabet_plain c (List.mem_cons_of_mem _ (hdigits c hc))
  rw [hwhite]
  rfl

theorem base32Decode_encode (hupper : UpperCases p.toUpperCase mapping) (bytes : List UInt8) :
    base32Decode p (base32Encode bytes) = .ok bytes := by
  have hdigits : ∀ c ∈ (groups 5 (bitsOf bytes)).map base32Digit, c ∈ base32Alphabet := by
    intro c hc
    obtain ⟨g, hg, rfl⟩ := List.mem_map.mp hc
    exact getD_mem_alphabet _ ((value_lt g).trans_eq (congrArg (2 ^ ·) (length_of_mem_groups hg)))
  rw [base32Encode_eq, rfc4648Base32, base32Decode_eq, base32Clean_padded hupper hdigits,
    base32DecodeFrom_eq (by decide) fun g hg => length_of_mem_groups hg, low, List.nil_append,
    bytesOf_groups (by decide) (by decide)]

/-- What base 32 does to bytes: the text is that of RFC 4648, and decodes to them. -/
structure Base32Sound (p : LoginPlatform) (bytes : List UInt8) : Prop where
  conforms : base32Encode bytes = rfc4648Base32 bytes
  decodes : base32Decode p (base32Encode bytes) = .ok bytes

/-- **Base 32 conforms and comes back.** -/
theorem base32_sound (hupper : UpperCases p.toUpperCase mapping) (bytes : List UInt8) :
    Base32Sound p bytes :=
  ⟨base32Encode_eq bytes, base32Decode_encode hupper bytes⟩

/-! ## Other case, more white space -/

/-- The second text is the first with letters of ASCII in any case and white space put in anywhere. -/
inductive Respaced : List Char → List Char → Prop
  | nil : Respaced [] []
  | char {c c' : Char} {s s' : List Char} (hcase : c.toUpper = c'.toUpper) (h : Respaced s s') :
      Respaced (c :: s) (c' :: s')
  | space {c : Char} {s s' : List Char} (hwhite : isWhiteSpace c = true) (h : Respaced s s') :
      Respaced s (c :: s')

/-- No white space stands after a padding character. -/
def PaddedLast (text : List Char) : Prop :=
  text.Pairwise fun a b => a = '=' → isWhiteSpace b = false

instance (text : List Char) : Decidable (PaddedLast text) :=
  inferInstanceAs (Decidable (text.Pairwise _))

theorem toUpper_of_not_ascii {c : Char} (h : 128 ≤ c.toNat) : c.toUpper = c := by
  unfold Char.toUpper
  rw [dif_neg]
  rintro ⟨-, hle⟩
  have hle : c.toNat ≤ 'z'.toNat := hle
  exact absurd (h.trans hle) (by decide)

theorem toUpper_ofNat : ∀ n < 128,
    ((Char.ofNat n).toUpper = '=' ↔ Char.ofNat n = '=') ∧
      isWhiteSpace (Char.ofNat n).toUpper = isWhiteSpace (Char.ofNat n) ∧
      (isWhiteSpace (Char.ofNat n) = true → (Char.ofNat n).toUpper = Char.ofNat n) ∧
      (Char.ofNat n).toUpper.toNat < 128 := by
  decide

theorem toUpper_ascii {c : Char} (h : c.toNat < 128) :
    (c.toUpper = '=' ↔ c = '=') ∧ isWhiteSpace c.toUpper = isWhiteSpace c ∧
      (isWhiteSpace c = true → c.toUpper = c) ∧ c.toUpper.toNat < 128 := by
  have hc := toUpper_ofNat c.toNat h
  rwa [Char.ofNat_toNat] at hc

namespace UpperCases

variable (hupper : UpperCases p.toUpperCase mapping) {c c' d : Char} {s s' : List Char}
include hupper

theorem mapping_congr (h : c.toUpper = c'.toUpper) : mapping c = mapping c' := by
  rcases Nat.lt_or_ge c.toNat 128 with hc | hc
  · rcases Nat.lt_or_ge c'.toNat 128 with hc' | hc'
    · rw [hupper.ascii c hc, hupper.ascii c' hc', h]
    · have hlt := (toUpper_ascii hc).2.2.2
      rw [h, toUpper_of_not_ascii hc'] at hlt
      exact absurd hlt (Nat.not_lt.mpr hc')
  · rcases Nat.lt_or_ge c'.toNat 128 with hc' | hc'
    · have hlt := (toUpper_ascii hc').2.2.2
      rw [← h, toUpper_of_not_ascii hc] at hlt
      exact absurd hlt (Nat.not_lt.mpr hc)
    · rw [toUpper_of_not_ascii hc, toUpper_of_not_ascii hc'] at h
      rw [h]

/-- A padding character comes from a padding character. -/
theorem eq_padding (h : '=' ∈ mapping c) : c = '=' := by
  rcases Nat.lt_or_ge c.toNat 128 with hc | hc
  · rw [hupper.ascii c hc, List.mem_singleton] at h
    exact (toUpper_ascii hc).1.mp h.symm
  · cases hwhite : isWhiteSpace c with
    | true =>
      rw [hupper.white c hwhite, List.mem_singleton] at h
      exact h.symm
    | false => exact absurd rfl (hupper.other c hc hwhite _ h).1

/-- White space comes from white space. -/
theorem white_of_mem (hd : d ∈ mapping c) (h : isWhiteSpace d = true) : isWhiteSpace c = true := by
  cases hwhite : isWhiteSpace c with
  | true => rfl
  | false =>
    rcases Nat.lt_or_ge c.toNat 128 with hc | hc
    · rw [hupper.ascii c hc, List.mem_singleton] at hd
      rw [hd, (toUpper_ascii hc).2.1] at h
      exact hwhite.symm.trans h
    · exact (hupper.other c hc hwhite d hd).2.symm.trans h

theorem mapping_padding : mapping '=' = ['='] := hupper.ascii '=' (by decide)

theorem paddedLast_flatMap : PaddedLast (s.flatMap mapping) ↔ PaddedLast s := by
  rw [PaddedLast, List.pairwise_flatMap]
  constructor
  · rintro ⟨-, h⟩
    refine h.imp fun {a b} hab ha => ?_
    subst ha
    cases hwhite : isWhiteSpace b with
    | false => rfl
    | true =>
      have hb : b ∈ mapping b := by
        rw [hupper.white b hwhite]
        exact List.mem_singleton_self b
      rw [← hwhite]
      exact hab '=' (by rw [hupper.mapping_padding]; exact List.mem_singleton_self _) b hb rfl
  · intro h
    refine ⟨fun c _ => ?_, h.imp fun {a b} hab x hx y hy hpadding => ?_⟩
    · by_cases hc : c = '='
      · rw [hc, hupper.mapping_padding]
        exact List.pairwise_singleton _ _
      · refine List.Pairwise.imp_of_mem (R := fun _ _ => True) (fun {a b} ha _ _ hpadding => ?_) ?_
        · exact absurd (hupper.eq_padding (hpadding ▸ ha)) hc
        · exact List.pairwise_of_forall fun _ _ => trivial
    · have ha := hab (hupper.eq_padding (hpadding ▸ hx))
      cases hwhite : isWhiteSpace y with
      | false => rfl
      | true => exact (hupper.white_of_mem hy hwhite).symm.trans ha

/-- Without white space the two texts are one. -/
theorem filter_respaced (h : Respaced s s') :
    (s'.flatMap mapping).filter (!isWhiteSpace ·) = (s.flatMap mapping).filter (!isWhiteSpace ·) := by
  induction h with
  | nil => rfl
  | char hcase _ ih =>
    rw [List.flatMap_cons, List.flatMap_cons, List.filter_append, List.filter_append, ih,
      hupper.mapping_congr hcase]
  | space hwhite _ ih =>
    rw [List.flatMap_cons, hupper.white _ hwhite, List.filter_append, ih, List.filter_singleton, hwhite]
    rfl

end UpperCases

section
variable {text : List Char}

theorem isWhiteSpace_padding : isWhiteSpace '=' = false := by decide

theorem paddedLast_of_not_mem (h : '=' ∉ text) : PaddedLast text := by
  induction text with
  | nil => exact List.Pairwise.nil
  | cons a text ih =>
    obtain ⟨ha, htext⟩ := not_or.mp (mt List.mem_cons.mpr h)
    exact List.Pairwise.cons (fun b _ heq => absurd heq.symm ha) (ih htext)

/-- Where no white space stands after the padding, it does not matter which of them goes first. -/
theorem filter_rdropWhile (h : PaddedLast text) :
    (text.rdropWhile (· = '=')).filter (!isWhiteSpace ·) =
      (text.filter (!isWhiteSpace ·)).rdropWhile (· = '=') := by
  induction text using List.reverseRecOn with
  | nil => rfl
  | append_singleton text c ih =>
    obtain ⟨htext, -, hlast⟩ := List.pairwise_append.mp h
    rw [List.filter_append, List.filter_singleton]
    by_cases hc : c = '='
    · subst hc
      rw [List.rdropWhile_concat_pos _ _ _ (by decide), ih htext, isWhiteSpace_padding, Bool.not_false,
        cond_true, List.rdropWhile_concat_pos _ _ _ (by decide)]
    · rw [List.rdropWhile_concat_neg _ _ _ (by simpa using hc), List.filter_append,
        List.filter_singleton]
      cases hwhite : isWhiteSpace c with
      | false =>
        rw [Bool.not_false, cond_true, List.rdropWhile_concat_neg _ _ _ (by simpa using hc)]
      | true =>
        rw [Bool.not_true, cond_false, List.append_nil, rdropWhile_of_not_mem]
        intro hmem
        have hfalse := hlast '=' (List.mem_of_mem_filter hmem) c (List.mem_singleton_self c) rfl
        cases hwhite.symm.trans hfalse

/-- Padding that white space stands after is not dropped. -/
theorem padding_mem_clean (h : ¬ PaddedLast text) :
    '=' ∈ (text.rdropWhile (· = '=')).filter (!isWhiteSpace ·) := by
  induction text using List.reverseRecOn with
  | nil => exact absurd List.Pairwise.nil h
  | append_singleton text c ih =>
    by_cases hc : c = '='
    · subst hc
      rw [List.rdropWhile_concat_pos _ _ _ (by decide)]
      refine ih fun htext => h (List.pairwise_append.mpr ⟨htext, List.pairwise_singleton _ _, ?_⟩)
      intro a _ b hb _
      rw [List.mem_singleton.mp hb]
      exact isWhiteSpace_padding
    · rw [List.rdropWhile_concat_neg _ _ _ (by simpa using hc)]
      refine List.mem_filter.mpr ⟨?_, rfl⟩
      by_contra hnot
      exact h (paddedLast_of_not_mem hnot)

/-- What is left of a text without padding in it is what is left without white space. -/
theorem rdropWhile_filter (h : '=' ∉ (text.rdropWhile (· = '=')).filter (!isWhiteSpace ·)) :
    (text.filter (!isWhiteSpace ·)).rdropWhile (· = '=') =
      (text.rdropWhile (· = '=')).filter (!isWhiteSpace ·) := by
  have hpadding : ∃ k, text.rtakeWhile (· = '=') = List.replicate k '=' := by
    refine ⟨_, List.eq_replicate_iff.mpr ⟨rfl, fun c hc => ?_⟩⟩
    have hc := List.mem_rtakeWhile_imp hc
    exact of_decide_eq_true hc
  obtain ⟨k, hk⟩ := hpadding
  have htext : text.filter (!isWhiteSpace ·) =
      (text.rdropWhile (· = '=')).filter (!isWhiteSpace ·) ++ List.replicate k '=' := by
    conv_lhs => rw [← List.rdropWhile_append_rtakeWhile (p := (· = '=')) (l := text)]
    rw [List.filter_append, hk]
    congr 1
    refine List.filter_eq_self.mpr fun c hc => ?_
    rw [(List.mem_replicate.mp hc).2]
    rfl
  rw [htext, rdropWhile_append_replicate, rdropWhile_of_not_mem h]

end

/-- **Case and white space are ignored exactly where no white space stands after the padding.** -/
theorem base32Decode_respaced_iff (hupper : UpperCases p.toUpperCase mapping) {s s' : String}
    {bytes : List UInt8} (haccepted : base32Decode p s = .ok bytes)
    (h : Respaced s.toList s'.toList) :
    base32Decode p s' = .ok bytes ↔ PaddedLast s'.toList := by
  have hplain : ∀ {s : String} {bytes : List UInt8}, base32Decode p s = .ok bytes →
      '=' ∉ base32Clean p s := by
    intro s bytes haccepted hmem
    exact padding_not_mem ((base32DecodeFrom_accepts 0 0 (base32Clean p s)).mp ⟨bytes, haccepted⟩ _ hmem)
  constructor
  · intro haccepted'
    by_contra hnot
    rw [← hupper.paddedLast_flatMap, ← hupper.mapped] at hnot
    exact hplain haccepted' (padding_mem_clean hnot)
  · intro hpadded
    rw [← hupper.paddedLast_flatMap] at hpadded
    have hclean : base32Clean p s' = base32Clean p s := by
      rw [base32Clean, hupper.mapped, filter_rdropWhile hpadded, hupper.filter_respaced h,
        ← hupper.mapped]
      exact rdropWhile_filter (hplain haccepted)
    rw [base32Decode_eq, hclean, ← base32Decode_eq]
    exact haccepted

end

/-! ## Fixed texts -/

/-- A platform whose `toUpperCase` is that of ASCII. -/
def asciiPlatform : LoginPlatform where
  toPlatform := samplePlatform
  toUpperCase s := String.ofList (s.toList.map Char.toUpper)
  hmacSha1 key message := (key ++ message ++ List.replicate 20 0).take 20
  hmacSha1_length key message := by simp; omega

theorem upperCases_ascii : UpperCases asciiPlatform.toUpperCase fun c => [c.toUpper] := by
  refine ⟨fun s => ?_, fun c _ => rfl, fun c hwhite => ?_, fun c hc hwhite d hd => ?_⟩
  · show (String.ofList (s.toList.map Char.toUpper)).toList = _
    rw [String.toList_ofList]
    exact (List.flatMap_pure_eq_map _ _).symm
  · rcases Nat.lt_or_ge c.toNat 128 with hc | hc
    · rw [(toUpper_ascii hc).2.2.1 hwhite]
    · rw [toUpper_of_not_ascii hc]
  · rw [List.mem_singleton, toUpper_of_not_ascii hc] at hd
    subst hd
    exact ⟨fun heq => absurd (heq ▸ hc) (by decide), hwhite⟩

/-- The test vector of RFC 4648. -/
example : rfc4648Base32 [0x66, 0x6f, 0x6f, 0x62, 0x61, 0x72] = "MZXW6YTBOI======" := by decide

theorem base32_sound_sample : Base32Sound asciiPlatform [0x66, 0x6f, 0x6f, 0x62, 0x61, 0x72] :=
  base32_sound upperCases_ascii _

theorem respaced_of_eq (s : List Char) : Respaced s s := by
  induction s with
  | nil => exact .nil
  | cons c s ih => exact .char rfl ih

/-- The test vector, with a letter in lower case and a space before the padding. -/
theorem base32Decode_respaced_iff_sample :
    base32Decode asciiPlatform "mZXW6YTBOI ======" = .ok [0x66, 0x6f, 0x6f, 0x62, 0x61, 0x72] ↔
      PaddedLast "mZXW6YTBOI ======".toList :=
  base32Decode_respaced_iff (s := "MZXW6YTBOI======") upperCases_ascii (by decide)
    (by
      iterate 10 refine .char (by decide) ?_
      exact .space (by decide) (respaced_of_eq _))

/-- A space after the padding of the test vector: it is refused. -/
theorem not_base32Decode_respaced : ¬ ∀ s s' bytes, base32Decode asciiPlatform s = .ok bytes →
    Respaced s.toList s'.toList → base32Decode asciiPlatform s' = .ok bytes := by
  intro h
  have hspaced : Respaced "MZXW6YTBOI======".toList "MZXW6YTBOI====== ".toList := by
    iterate 16 refine .char rfl ?_
    exact .space (by decide) .nil
  have haccepted : base32Decode asciiPlatform "MZXW6YTBOI======" =
      .ok [0x66, 0x6f, 0x6f, 0x62, 0x61, 0x72] := by decide
  have hrefused : base32Decode asciiPlatform "MZXW6YTBOI====== " ≠
      .ok [0x66, 0x6f, 0x6f, 0x62, 0x61, 0x72] := by decide
  exact hrefused (h _ _ _ haccepted hspaced)

end Ambit
