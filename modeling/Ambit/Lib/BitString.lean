import Mathlib.Algebra.Ring.Nat
import Mathlib.Data.List.Basic

/-! Strings of bits, the highest first: the low bits of a number, the number that a bit string writes,
and a bit string in groups of one width, with the last one filled up or left out. Bytes that are put in
smaller groups come back. -/

namespace BitString

/-- The lowest `n` bits of a number. -/
def low : ℕ → ℕ → List Bool
  | 0, _ => []
  | n + 1, v => v.testBit n :: low n v

/-- The number that a bit string writes. -/
def value : List Bool → ℕ
  | [] => 0
  | b :: bits => 2 ^ bits.length * b.toNat + value bits

/-- The groups of `w` bits that a bit string is made of; what is left over is filled with zeros. -/
def groups (w : ℕ) (bits : List Bool) : List (List Bool) :=
  (List.range ((bits.length + (w - 1)) / w)).map fun i =>
    ((bits.drop (w * i)).take w).rightpad w false

/-- The groups of `w` bits that a bit string is made of; what is left over is dropped. -/
def whole (w : ℕ) (bits : List Bool) : List (List Bool) :=
  (List.range (bits.length / w)).map fun i => (bits.drop (w * i)).take w

/-- The bits of a text of bytes. -/
def bitsOf (bytes : List UInt8) : List Bool := bytes.flatMap fun byte => low 8 byte.toNat

/-- The whole bytes of a bit string. -/
def bytesOf (bits : List Bool) : List UInt8 := (whole 8 bits).map fun g => UInt8.ofNat (value g)

variable {n m w v x : ℕ} {bits rest g : List Bool} {gs : List (List Bool)}

/-! ## Bits of numbers -/

@[simp] theorem length_low (n v : ℕ) : (low n v).length = n := by
  induction n with
  | zero => rfl
  | succ n ih => rw [low, List.length_cons, ih]

theorem low_congr (h : ∀ i < n, v.testBit i = x.testBit i) : low n v = low n x := by
  induction n with
  | zero => rfl
  | succ n ih => rw [low, low, h n (Nat.lt_succ_self n), ih fun i hi => h i (Nat.lt_succ_of_lt hi)]

theorem low_mod (n v : ℕ) : low n (v % 2 ^ n) = low n v :=
  low_congr fun i hi => by rw [Nat.testBit_mod_two_pow, decide_eq_true hi, Bool.true_and]

/-- A shifted number stays below the bits that it has room for. -/
theorem shiftLeft_lt {k : ℕ} (hv : v < 2 ^ n) (h : n + k ≤ m) : v <<< k < 2 ^ m :=
  calc v <<< k < 2 ^ n <<< k := by
        rw [Nat.shiftLeft_eq, Nat.shiftLeft_eq]
        exact Nat.mul_lt_mul_of_pos_right hv (Nat.two_pow_pos k)
    _ = 2 ^ (n + k) := by rw [Nat.shiftLeft_eq, Nat.pow_add]
    _ ≤ 2 ^ m := Nat.pow_le_pow_right (by decide) h

/-- The low bits of a number, above and below a place. -/
theorem low_add (m n v : ℕ) : low (m + n) v = low m (v >>> n) ++ low n v := by
  induction m with
  | zero => rw [Nat.zero_add, low, List.nil_append]
  | succ m ih => rw [Nat.succ_add, low, low, ih, Nat.testBit_shiftRight, Nat.add_comm, List.cons_append]

/-- A digit put below a number. -/
theorem low_push (hx : x < 2 ^ w) : low (n + w) (v <<< w ||| x) = low n v ++ low w x := by
  rw [low_add]
  congr 1
  · refine low_congr fun i _ => ?_
    rw [Nat.testBit_shiftRight, Nat.testBit_or, Nat.testBit_shiftLeft, Nat.add_sub_cancel_left,
      decide_eq_true (Nat.le_add_right w i), Bool.true_and,
      Nat.testBit_lt_two_pow (Nat.lt_of_lt_of_le hx
        (Nat.pow_le_pow_right (by decide) (Nat.le_add_right w i))), Bool.or_false]
  · refine low_congr fun i hi => ?_
    rw [Nat.testBit_or, Nat.testBit_shiftLeft, decide_eq_false (Nat.not_le.mpr hi), Bool.false_and,
      Bool.false_or]

theorem low_zero (n : ℕ) : low n 0 = List.replicate n false := by
  induction n with
  | zero => rfl
  | succ n ih => rw [low, ih, Nat.zero_testBit, List.replicate_succ]

theorem value_lt (bits : List Bool) : value bits < 2 ^ bits.length := by
  induction bits with
  | nil => decide
  | cons b bits ih =>
    rw [value, List.length_cons, Nat.pow_succ]
    have hb : b.toNat ≤ 1 := Bool.toNat_le b
    have hmul : 2 ^ bits.length * b.toNat ≤ 2 ^ bits.length * 1 := Nat.mul_le_mul_left _ hb
    omega

theorem value_low (n v : ℕ) : value (low n v) = v % 2 ^ n := by
  induction n with
  | zero => rw [Nat.pow_zero, Nat.mod_one]; rfl
  | succ n ih => rw [low, value, ih, length_low, Nat.toNat_testBit, Nat.mod_pow_succ, Nat.add_comm]

theorem low_value (bits : List Bool) : low bits.length (value bits) = bits := by
  induction bits with
  | nil => rfl
  | cons b bits ih =>
    have htop : (value (b :: bits)).testBit bits.length = b := by
      rw [value, Nat.testBit_two_pow_mul_add _ (value_lt bits), if_neg (Nat.lt_irrefl _), Nat.sub_self]
      cases b
      · rfl
      · rfl
    have hrest : low bits.length (value (b :: bits)) = low bits.length (value bits) := by
      refine low_congr fun i hi => ?_
      rw [value, Nat.testBit_two_pow_mul_add _ (value_lt bits), if_pos hi]
    rw [List.length_cons, low, htop, hrest, ih]

/-! ## Groups -/

/-- A bit string is made of groups of one width and a shorter rest. -/
theorem groups_induction {P : List Bool → Prop} (hw : 0 < w) (short : ∀ bits, bits.length < w → P bits)
    (group : ∀ g rest, g.length = w → P rest → P (g ++ rest)) (bits : List Bool) : P bits := by
  induction hlength : bits.length using Nat.strongRecOn generalizing bits with
  | ind n ih =>
    subst hlength
    by_cases hlt : bits.length < w
    · exact short bits hlt
    · rw [← List.take_append_drop w bits]
      refine group _ _ (by rw [List.length_take]; omega) (ih _ ?_ _ rfl)
      rw [List.length_drop]
      omega

theorem groups_append (hw : 0 < w) (hg : g.length = w) :
    groups w (g ++ rest) = g :: groups w rest := by
  have hcount : ((g ++ rest).length + (w - 1)) / w = (rest.length + (w - 1)) / w + 1 := by
    rw [List.length_append, hg, Nat.add_assoc, Nat.add_div_left _ hw]
  rw [groups, hcount, List.range_succ_eq_map, List.map_cons, List.map_map]
  congr 1
  · rw [Nat.mul_zero, List.drop_zero, List.take_left' hg, List.rightpad, hg, Nat.sub_self]
    exact List.append_nil g
  · refine List.map_congr_left fun i _ => ?_
    show ((((g ++ rest).drop (w * (i + 1))).take w).rightpad w false) = _
    rw [Nat.mul_succ, Nat.add_comm, ← List.drop_drop, List.drop_left' hg]

theorem groups_nil (hw : 0 < w) : groups w [] = [] := by
  rw [groups, List.length_nil, Nat.zero_add, Nat.div_eq_of_lt (Nat.sub_lt hw Nat.one_pos)]
  rfl

theorem groups_short (hpos : 0 < bits.length) (hlt : bits.length < w) :
    groups w bits = [bits ++ List.replicate (w - bits.length) false] := by
  have hcount : (bits.length + (w - 1)) / w = 1 := by
    rw [Nat.div_eq_of_lt_le]
    · omega
    · omega
  rw [groups, hcount]
  show [((bits.drop (w * 0)).take w).rightpad w false] = _
  rw [Nat.mul_zero, List.drop_zero, List.take_of_length_le (Nat.le_of_lt hlt)]
  rfl

theorem length_of_mem_groups (h : g ∈ groups w bits) : g.length = w := by
  obtain ⟨i, -, rfl⟩ := List.mem_map.mp h
  rw [List.length_rightpad, List.length_take]
  omega

/-- The groups put together again: the bit string, and less than a group of zeros. -/
theorem flatten_groups (hw : 0 < w) (bits : List Bool) :
    ∃ k < w, (groups w bits).flatten = bits ++ List.replicate k false := by
  induction bits using groups_induction hw with
  | short bits hlt =>
    cases bits with
    | nil =>
      refine ⟨0, hw, ?_⟩
      rw [groups_nil hw]
      rfl
    | cons b bits =>
      have hpos : 0 < (b :: bits).length := Nat.succ_pos _
      refine ⟨w - (b :: bits).length, Nat.sub_lt hw hpos, ?_⟩
      rw [groups_short hpos hlt, List.flatten_singleton]
  | group g rest hg ih =>
    obtain ⟨k, hk, hflatten⟩ := ih
    refine ⟨k, hk, ?_⟩
    rw [groups_append hw hg, List.flatten_cons, hflatten, List.append_assoc]

theorem whole_append (hw : 0 < w) (hg : g.length = w) : whole w (g ++ rest) = g :: whole w rest := by
  have hcount : (g ++ rest).length / w = rest.length / w + 1 := by
    rw [List.length_append, hg, Nat.add_div_left _ hw]
  rw [whole, hcount, List.range_succ_eq_map, List.map_cons, List.map_map]
  congr 1
  · rw [Nat.mul_zero, List.drop_zero, List.take_left' hg]
  · refine List.map_congr_left fun i _ => ?_
    show ((g ++ rest).drop (w * (i + 1))).take w = _
    rw [Nat.mul_succ, Nat.add_comm, ← List.drop_drop, List.drop_left' hg]

theorem whole_short (hlt : bits.length < w) : whole w bits = [] := by
  rw [whole, Nat.div_eq_of_lt hlt]
  rfl

theorem whole_flatten (hw : 0 < w) (hgs : ∀ g ∈ gs, g.length = w) (hlt : bits.length < w) :
    whole w (gs.flatten ++ bits) = gs := by
  induction gs with
  | nil => exact whole_short hlt
  | cons g gs ih =>
    obtain ⟨hg, hgs⟩ := List.forall_mem_cons.mp hgs
    rw [List.flatten_cons, List.append_assoc, whole_append hw hg, ih hgs]

/-- The groups of a number's bits come first, then those that the bits below them begin. -/
theorem groups_low_append (hw : 0 < w) (n v : ℕ) (rest : List Bool) :
    groups w (low n v ++ rest) = whole w (low n v) ++ groups w (low (n % w) v ++ rest) := by
  induction n using Nat.strongRecOn with
  | ind n ih =>
    by_cases hlt : n < w
    · rw [whole_short (by rwa [length_low]), List.nil_append, Nat.mod_eq_of_lt hlt]
    · obtain ⟨m, rfl⟩ := Nat.exists_eq_add_of_le (Nat.not_lt.mp hlt)
      rw [low_add, List.append_assoc, groups_append hw (length_low ..), ih m (by omega),
        whole_append hw (length_low ..), Nat.add_mod_left, List.cons_append]

/-- What was put in groups of a smaller width comes back in its own. -/
theorem whole_groups (hw : 0 < w) (hle : w ≤ v) (hgs : ∀ g ∈ gs, g.length = v) :
    whole v (groups w gs.flatten).flatten = gs := by
  obtain ⟨k, hk, hflatten⟩ := flatten_groups hw gs.flatten
  rw [hflatten]
  exact whole_flatten (Nat.lt_of_lt_of_le hw hle) hgs (by rw [List.length_replicate]; omega)

theorem bytesOf_groups (hw : 0 < w) (hle : w ≤ 8) (bytes : List UInt8) :
    bytesOf (groups w (bitsOf bytes)).flatten = bytes := by
  have hbits : bitsOf bytes = (bytes.map fun byte => low 8 byte.toNat).flatten :=
    List.flatMap_def ..
  have hwhole : whole 8 (groups w (bitsOf bytes)).flatten = bytes.map fun byte => low 8 byte.toNat := by
    rw [hbits]
    refine whole_groups hw hle fun g hg => ?_
    obtain ⟨byte, -, rfl⟩ := List.mem_map.mp hg
    exact length_low ..
  rw [bytesOf, hwhole, List.map_map]
  refine (List.map_congr_left fun byte _ => ?_).trans (List.map_id bytes)
  show UInt8.ofNat (value (low 8 byte.toNat)) = byte
  rw [value_low, ← UInt8.toNat_inj, UInt8.toNat_ofNat', Nat.mod_mod]
  exact Nat.mod_eq_of_lt byte.toNat_lt

end BitString
