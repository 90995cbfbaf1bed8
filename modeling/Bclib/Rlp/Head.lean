import Bclib.Data.BigEndian

namespace Bclib.Rlp

open Data

/-! Item headers: the size of a string or list payload, either inside the tag
byte or as a minimal big-endian number after it. -/

def toByte (number : Nat) : Byte := BitVec.ofNat 8 number

@[simp] theorem toNat_toByte (number : Nat) :
    (toByte number).toNat = number % 256 := by
  simp [toByte]

def putint (i : Nat) : List Byte :=
  if i < 2 ^ 8 then
    [toByte i]
  else if i < 2 ^ 16 then
    [toByte (i >>> 8), toByte i]
  else if i < 2 ^ 24 then
    [toByte (i >>> 16), toByte (i >>> 8), toByte i]
  else if i < 2 ^ 32 then
    [toByte (i >>> 24), toByte (i >>> 16), toByte (i >>> 8), toByte i]
  else if i < 2 ^ 40 then
    [toByte (i >>> 32), toByte (i >>> 24), toByte (i >>> 16),
      toByte (i >>> 8), toByte i]
  else if i < 2 ^ 48 then
    [toByte (i >>> 40), toByte (i >>> 32), toByte (i >>> 24),
      toByte (i >>> 16), toByte (i >>> 8), toByte i]
  else if i < 2 ^ 56 then
    [toByte (i >>> 48), toByte (i >>> 40), toByte (i >>> 32),
      toByte (i >>> 24), toByte (i >>> 16), toByte (i >>> 8), toByte i]
  else
    [toByte (i >>> 56), toByte (i >>> 48), toByte (i >>> 40),
      toByte (i >>> 32), toByte (i >>> 24), toByte (i >>> 16),
      toByte (i >>> 8), toByte i]

/-- The loop of `intsize`; a 64-bit number leaves it within eight rounds. -/
def intsizeFrom : Nat → Nat → Nat → Nat
  | 0, _, size => size
  | rounds + 1, i, size =>
      if i >>> 8 = 0 then size else intsizeFrom rounds (i >>> 8) (size + 1)

def intsize (i : Nat) : Nat := intsizeFrom 8 i 1

def headsize (size : Nat) : Nat :=
  if size < 56 then 1 else 1 + intsize size

def puthead (smalltag largetag : Byte) (size : Nat) : List Byte :=
  if size < 56 then
    [smalltag + toByte size]
  else
    (largetag + toByte (putint size).length) :: putint size

private theorem putint_eq_lowBytes {i : Nat} (positive : 0 < i) (fits : i < 2 ^ 64) :
    ∃ width, putint i = lowBytes (width + 1) i ∧ 256 ^ width ≤ i ∧ i < 256 ^ (width + 1) := by
  unfold putint
  split_ifs
  · exact ⟨0, rfl, positive, by omega⟩
  · exact ⟨1, rfl, by omega, by omega⟩
  · exact ⟨2, rfl, by omega, by omega⟩
  · exact ⟨3, rfl, by omega, by omega⟩
  · exact ⟨4, rfl, by omega, by omega⟩
  · exact ⟨5, rfl, by omega, by omega⟩
  · exact ⟨6, rfl, by omega, by omega⟩
  · exact ⟨7, rfl, by omega, by omega⟩

theorem putint_eq_bigEndian {i : Nat} (positive : 0 < i) (fits : i < 2 ^ 64) :
    putint i = bigEndian i := by
  obtain ⟨width, bytes, low, high⟩ := putint_eq_lowBytes positive fits
  rw [bytes, lowBytes_eq_bigEndian low high]

theorem putint_ofBigEndian {bytes : List Byte} (positive : 0 < bytes.length)
    (short : bytes.length ≤ 8) (minimal : NoLeadingZero bytes) :
    putint (ofBigEndian bytes) = bytes := by
  have denoted := bigEndian_ofBigEndian minimal
  have fits : ofBigEndian bytes < 2 ^ 64 :=
    calc
      ofBigEndian bytes < 256 ^ bytes.length := ofBigEndian_lt bytes
      _ ≤ 256 ^ 8 := Nat.pow_le_pow_right (by decide) short
  have nonzero : 0 < ofBigEndian bytes := by
    rw [Nat.pos_iff_ne_zero]
    intro zero
    rw [zero, bigEndian_zero] at denoted
    rw [← denoted] at positive
    exact absurd positive (Nat.lt_irrefl 0)
  rw [putint_eq_bigEndian nonzero fits, denoted]

theorem putint_length_pos (i : Nat) : 0 < (putint i).length := by
  unfold putint
  split_ifs <;> simp

theorem putint_length_le (i : Nat) : (putint i).length ≤ 8 := by
  unfold putint
  split_ifs <;> simp

private theorem intsizeFrom_eq (rounds size : Nat) {i : Nat} (positive : 0 < i)
    (fits : i < 256 ^ rounds) :
    intsizeFrom rounds i size + 1 = size + (bigEndian i).length := by
  induction rounds generalizing i size with
  | zero => simp at fits; omega
  | succ rounds ih =>
      have shifted : i >>> 8 = i / 256 := Nat.shiftRight_eq_div_pow i 8
      have digits : (bigEndian i).length = (bigEndian (i / 256)).length + 1 := by
        rw [bigEndian_length, bigEndian_length,
          Nat.digits_def' (by decide) positive, List.length_cons]
      rw [intsizeFrom, shifted, digits]
      split_ifs with done
      · simp [done]
      · rw [ih _ (by omega) (by rw [Nat.pow_succ] at fits; omega)]
        omega

theorem intsize_eq_length {i : Nat} (fits : i < 2 ^ 64) :
    intsize i = (putint i).length := by
  rcases Nat.eq_zero_or_pos i with rfl | positive
  · rfl
  · have counted := intsizeFrom_eq 8 1 positive
      (by simpa using fits)
    rw [putint_eq_bigEndian positive fits, intsize]
    omega

theorem puthead_length {smalltag largetag : Byte} {size : Nat}
    (fits : size < 2 ^ 64) :
    (puthead smalltag largetag size).length = headsize size := by
  unfold puthead headsize
  split_ifs
  · rfl
  · simp [intsize_eq_length fits, Nat.add_comm]

theorem puthead_length_mono (smalltag largetag : Byte) {left right : Nat} (le : left ≤ right)
    (fits : right < 2 ^ 64) :
    (puthead smalltag largetag left).length ≤ (puthead smalltag largetag right).length := by
  unfold puthead
  split_ifs with leftSmall rightSmall rightSmall
  · exact Nat.le_refl _
  · exact Nat.succ_le_succ (Nat.zero_le _)
  · exact absurd (Nat.lt_of_le_of_lt le rightSmall) leftSmall
  · rw [List.length_cons, List.length_cons, putint_eq_bigEndian (by omega) (by omega),
      putint_eq_bigEndian (by omega) fits]
    exact Nat.succ_le_succ (bigEndian_length_le_iff.2
      (Nat.lt_of_le_of_lt le (bigEndian_length_le_iff.1 (Nat.le_refl _))))

theorem headsize_le {size : Nat} (fits : size < 2 ^ 64) : headsize size ≤ 9 := by
  have short := putint_length_le size
  unfold headsize
  rw [intsize_eq_length fits]
  split_ifs <;> omega

theorem puthead_eq_of_small {smalltag largetag byte : Byte} {size : Nat}
    (small : size < 56) (tag : byte.toNat = smalltag.toNat + size) :
    puthead smalltag largetag size = [byte] := by
  rw [puthead, if_pos small]
  congr 1
  apply BitVec.eq_of_toNat_eq
  have bound := byte.isLt
  rw [BitVec.toNat_add, toNat_toByte]
  omega

theorem puthead_eq_of_large {smalltag largetag byte : Byte} {size : Nat}
    (large : ¬ size < 56) (tag : byte.toNat = largetag.toNat + (putint size).length) :
    puthead smalltag largetag size = byte :: putint size := by
  rw [puthead, if_neg large]
  congr 1
  apply BitVec.eq_of_toNat_eq
  have bound := byte.isLt
  have short := putint_length_le size
  rw [BitVec.toNat_add, toNat_toByte]
  omega

theorem toNat_tag_small (smalltag : Byte) {size : Nat} (small : size < 56)
    (room : smalltag.toNat < 200) :
    (smalltag + toByte size).toNat = smalltag.toNat + size := by
  rw [BitVec.toNat_add, toNat_toByte]
  omega

theorem toNat_tag_large (largetag : Byte) (size : Nat)
    (room : largetag.toNat < 248) :
    (largetag + toByte (putint size).length).toNat =
      largetag.toNat + (putint size).length := by
  have short := putint_length_le size
  rw [BitVec.toNat_add, toNat_toByte]
  omega

theorem puthead_ne_nil (smalltag largetag : Byte) (size : Nat) :
    puthead smalltag largetag size ≠ [] := by
  unfold puthead
  split_ifs <;> simp

end Bclib.Rlp
