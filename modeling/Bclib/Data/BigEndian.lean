import Mathlib.Data.Nat.Digits.Lemmas

namespace Bclib.Data

/-! Big-endian byte strings and the naturals they denote.  The minimal string
of a number has no leading zero byte. -/

abbrev Byte := BitVec 8

/-- The minimal big-endian byte string of a number; zero has the empty one. -/
def bigEndian (number : Nat) : List Byte :=
  ((Nat.digits 256 number).map (BitVec.ofNat 8)).reverse

/-- The number a big-endian byte string denotes, leading zeros allowed. -/
def ofBigEndian (bytes : List Byte) : Nat :=
  Nat.ofDigits 256 (bytes.reverse.map BitVec.toNat)

def NoLeadingZero (bytes : List Byte) : Prop :=
  bytes.head? ≠ some 0#8

instance : DecidablePred NoLeadingZero :=
  fun bytes => inferInstanceAs (Decidable (bytes.head? ≠ some 0#8))

@[simp] theorem bigEndian_zero : bigEndian 0 = [] := rfl

@[simp] theorem ofBigEndian_nil : ofBigEndian [] = 0 := rfl

@[simp] theorem ofBigEndian_singleton (byte : Byte) :
    ofBigEndian [byte] = byte.toNat := by
  simp [ofBigEndian]

theorem ofBigEndian_cons (byte : Byte) (bytes : List Byte) :
    ofBigEndian (byte :: bytes) =
      byte.toNat * 256 ^ bytes.length + ofBigEndian bytes := by
  simp [ofBigEndian, Nat.ofDigits_append, Nat.mul_comm, Nat.add_comm]

@[simp] theorem ofBigEndian_zero_cons (bytes : List Byte) :
    ofBigEndian (0#8 :: bytes) = ofBigEndian bytes := by
  simp [ofBigEndian_cons]

theorem ofBigEndian_replicate_append (count : Nat) (rest : List Byte) :
    ofBigEndian (List.replicate count 0#8 ++ rest) = ofBigEndian rest := by
  induction count with
  | zero => rfl
  | succ count ih =>
      rw [List.replicate_succ, List.cons_append]
      exact (ofBigEndian_zero_cons _).trans ih

theorem ofBigEndian_append (high low : List Byte) :
    ofBigEndian (high ++ low) = ofBigEndian high * 256 ^ low.length + ofBigEndian low := by
  simp [ofBigEndian, Nat.ofDigits_append, Nat.mul_comm, Nat.add_comm]

theorem eq_replicate_of_ofBigEndian_eq_zero {bytes : List Byte}
    (zero : ofBigEndian bytes = 0) : bytes = List.replicate bytes.length 0 := by
  induction bytes with
  | nil => rfl
  | cons byte rest ih =>
      rw [ofBigEndian_cons] at zero
      have first : byte.toNat * 256 ^ rest.length = 0 := by omega
      have high : byte.toNat = 0 :=
        (Nat.mul_eq_zero.1 first).resolve_right (Nat.pow_pos (by decide)).ne'
      rw [List.length_cons, List.replicate_succ, ← ih (by omega)]
      exact congrArg (· :: rest) (BitVec.eq_of_toNat_eq (by simpa using high))

theorem take_eq_replicate_of_lt {bytes : List Byte} {extra width : Nat}
    (length : bytes.length = extra + width) (small : ofBigEndian bytes < 256 ^ width) :
    bytes.take extra = List.replicate extra 0 := by
  have rest : (bytes.drop extra).length = width := by simp [length]
  have front : (bytes.take extra).length = extra := by simp [length]
  rw [← List.take_append_drop extra bytes, ofBigEndian_append, rest] at small
  have zero : ofBigEndian (bytes.take extra) = 0 := by
    by_contra positive
    have := Nat.mul_le_mul_right (256 ^ width) (Nat.one_le_iff_ne_zero.2 positive)
    omega
  simpa [front] using eq_replicate_of_ofBigEndian_eq_zero zero

theorem ofBigEndian_lt (bytes : List Byte) :
    ofBigEndian bytes < 256 ^ bytes.length := by
  have bounded := Nat.ofDigits_lt_base_pow_length (b := 256)
    (l := bytes.reverse.map BitVec.toNat) (by decide) (by
      intro digit member
      obtain ⟨byte, _, rfl⟩ := List.mem_map.mp member
      exact byte.isLt)
  simpa [ofBigEndian] using bounded

theorem eq_of_ofBigEndian_eq {left right : List Byte} (length : left.length = right.length)
    (value : ofBigEndian left = ofBigEndian right) : left = right := by
  have small : ∀ bytes : List Byte, ∀ digit ∈ bytes.reverse.map BitVec.toNat, digit < 256 := by
    intro bytes digit member
    obtain ⟨byte, _, rfl⟩ := List.mem_map.mp member
    exact byte.isLt
  have digits := Nat.ofDigits_inj_of_len_eq (b := 256) (by decide) (by simpa using length)
    (small left) (small right) value
  exact List.reverse_injective (List.map_injective_iff.2 (fun _ _ => BitVec.eq_of_toNat_eq) digits)

theorem ofBigEndian_bigEndian (number : Nat) :
    ofBigEndian (bigEndian number) = number := by
  have digitsKept :
      ((Nat.digits 256 number).map (BitVec.ofNat 8)).map BitVec.toNat =
        Nat.digits 256 number := by
    rw [List.map_map]
    conv_rhs => rw [← List.map_id (Nat.digits 256 number)]
    apply List.map_congr_left
    intro digit member
    have small := Nat.digits_lt_base (b := 256) (by decide) member
    simp [Nat.mod_eq_of_lt small]
  simp only [ofBigEndian, bigEndian, List.reverse_reverse]
  rw [digitsKept, Nat.ofDigits_digits]

theorem bigEndian_ofBigEndian {bytes : List Byte}
    (minimal : NoLeadingZero bytes) :
    bigEndian (ofBigEndian bytes) = bytes := by
  have digitsEquality :
      Nat.digits 256 (ofBigEndian bytes) =
        bytes.reverse.map BitVec.toNat := by
    apply Nat.digits_ofDigits 256 (by decide)
    · intro digit member
      obtain ⟨byte, _, rfl⟩ := List.mem_map.mp member
      exact byte.isLt
    · intro nonempty last
      cases bytes with
      | nil => simp at nonempty
      | cons first rest =>
          apply minimal
          have zero : first.toNat = 0 := by simpa using last
          simpa using BitVec.eq_of_toNat_eq (y := 0#8) (by simpa using zero)
  simp only [bigEndian, digitsEquality, List.map_map]
  have identity : (BitVec.ofNat 8 ∘ BitVec.toNat : Byte → Byte) = id := by
    funext byte
    simp
  simp [identity]

theorem bigEndian_noLeadingZero (number : Nat) :
    NoLeadingZero (bigEndian number) := by
  intro leading
  rw [bigEndian, List.head?_reverse] at leading
  by_cases zero : number = 0
  · subst zero
    simp at leading
  · have nonempty : Nat.digits 256 number ≠ [] :=
      Nat.digits_ne_nil_iff_ne_zero.mpr zero
    rw [List.getLast?_map, List.getLast?_eq_getLast_of_ne_nil nonempty] at leading
    have small := Nat.digits_lt_base (b := 256) (by decide)
      (List.getLast_mem nonempty)
    have value := congrArg BitVec.toNat (Option.some.inj leading)
    rw [BitVec.toNat_ofNat, Nat.mod_eq_of_lt (by simpa using small)] at value
    exact Nat.getLast_digit_ne_zero 256 zero (by simpa using value)

@[simp] theorem bigEndian_length (number : Nat) :
    (bigEndian number).length = (Nat.digits 256 number).length := by
  simp [bigEndian]

theorem bigEndian_length_le_iff {number width : Nat} :
    (bigEndian number).length ≤ width ↔ number < 256 ^ width := by
  rw [bigEndian_length]
  exact Nat.digits_length_le_iff (by decide) number

theorem bigEndian_length_pos {number : Nat} (positive : 0 < number) :
    0 < (bigEndian number).length := by
  rw [bigEndian_length, List.length_pos_iff]
  exact Nat.digits_ne_nil_iff_ne_zero.mpr (by omega)

theorem eq_bigEndian_iff {bytes : List Byte} {number : Nat} :
    bytes = bigEndian number ↔
      NoLeadingZero bytes ∧ ofBigEndian bytes = number := by
  constructor
  · rintro rfl
    exact ⟨bigEndian_noLeadingZero number, ofBigEndian_bigEndian number⟩
  · rintro ⟨minimal, rfl⟩
    exact (bigEndian_ofBigEndian minimal).symm

theorem bigEndian_of_lt {number : Nat} (positive : 0 < number)
    (small : number < 256) : bigEndian number = [BitVec.ofNat 8 number] := by
  symm
  rw [eq_bigEndian_iff]
  constructor
  · intro leading
    have value := congrArg BitVec.toNat (Option.some.inj leading)
    rw [BitVec.toNat_ofNat, Nat.mod_eq_of_lt (by simpa using small)] at value
    simp at value
    omega
  · simp [Nat.mod_eq_of_lt small]

def lowBytes : (width number : Nat) → List Byte
  | 0, _ => []
  | width + 1, number => BitVec.ofNat 8 (number >>> (8 * width)) :: lowBytes width number

theorem lowBytes_length (width number : Nat) : (lowBytes width number).length = width := by
  induction width with
  | zero => rfl
  | succ width ih => rw [lowBytes, List.length_cons, ih]

theorem shiftRight_bytes (number width : Nat) : number >>> (8 * width) = number / 256 ^ width := by
  rw [Nat.shiftRight_eq_div_pow, Nat.pow_mul]

theorem ofBigEndian_lowBytes (width number : Nat) :
    ofBigEndian (lowBytes width number) = number % 256 ^ width := by
  induction width with
  | zero => simp [lowBytes, Nat.mod_one]
  | succ width ih =>
      rw [lowBytes, ofBigEndian_cons, lowBytes_length, ih, BitVec.toNat_ofNat, shiftRight_bytes,
        @Nat.mod_pow_succ number 256, Nat.mul_comm, Nat.add_comm]

theorem lowBytes_ofBigEndian {bytes : List Byte} {width : Nat} (length : bytes.length = width) :
    lowBytes width (ofBigEndian bytes) = bytes := by
  subst length
  refine eq_of_ofBigEndian_eq (lowBytes_length _ _) ?_
  rw [ofBigEndian_lowBytes, Nat.mod_eq_of_lt (ofBigEndian_lt bytes)]

theorem lowBytes_eq_bigEndian {width number : Nat} (low : 256 ^ width ≤ number)
    (high : number < 256 ^ (width + 1)) : lowBytes (width + 1) number = bigEndian number := by
  rw [eq_bigEndian_iff, ofBigEndian_lowBytes, Nat.mod_eq_of_lt high]
  refine ⟨fun leading => ?_, rfl⟩
  have positive : 0 < number / 256 ^ width := Nat.div_pos low (Nat.pow_pos (by decide))
  have small : number / 256 ^ width < 256 := Nat.div_lt_of_lt_mul (by rwa [← Nat.pow_succ])
  have zero := congrArg BitVec.toNat (Option.some.inj leading)
  rw [BitVec.toNat_ofNat, shiftRight_bytes, Nat.mod_eq_of_lt small] at zero
  exact positive.ne' zero

def putUint32 (number : BitVec 32) : List Byte :=
  [24, 16, 8, 0].map fun shift => BitVec.ofNat 8 (number.toNat / 2 ^ shift)

def uint32 (bytes : List Byte) : BitVec 32 := BitVec.ofNat 32 (ofBigEndian bytes)

@[simp] theorem putUint32_length (number : BitVec 32) : (putUint32 number).length = 4 := rfl

theorem uint32_putUint32 (number : BitVec 32) : uint32 (putUint32 number) = number := by
  have bytes : putUint32 number = lowBytes 4 number.toNat := by
    simp [putUint32, lowBytes, Nat.shiftRight_eq_div_pow]
  have bound : number.toNat < 256 ^ 4 := number.isLt
  rw [uint32, bytes, ofBigEndian_lowBytes, Nat.mod_eq_of_lt bound, BitVec.ofNat_toNat,
    BitVec.setWidth_eq]

end Bclib.Data
