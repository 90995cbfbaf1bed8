import Bclib.Go.Memory

namespace Bclib.Go

open Data

/-! `math/big` on cells.  `SetBytes` reuses the word array of the number if it is
long enough, so two copies of a `big.Int` may share their words. -/

namespace Heap

/-- `nat.setBytes`: the words come from `nat.make`, which allocates four words
more than asked for, except for a single word. -/
def setNat (heap : Heap) (abs : SliceHeader) (buf : List Byte) : Heap × SliceHeader :=
  let count := (buf.length + 7) / 8
  let words : List (Cell wordType) := wordsOf count (ofBigEndian buf)
  let len := normLen words
  if count ≤ heap.cap wordType abs then
    match abs.base with
    | none => (heap, ⟨none, len⟩)
    | some address =>
        (heap.write wordType address
          (words ++ (heap.block wordType address).drop count), ⟨some address, len⟩)
  else
    let spare : List (Cell wordType) :=
      List.replicate (if count = 1 then 0 else 4) (zeroCell wordType)
    (heap.alloc wordType (words ++ spare), ⟨some (heap.size wordType), len⟩)

/-- `Int.SetBytes`. -/
def setBigInt (heap : Heap) (cell : BigIntCell) (buf : List Byte) : Heap × BigIntCell :=
  let (heap, abs) := heap.setNat cell.abs buf
  (heap, ⟨false, abs⟩)

end Heap

/-- `Int.Neg` of a number into itself. -/
def BigIntCell.negate (cell : BigIntCell) : BigIntCell :=
  { cell with neg := 0 < cell.abs.len && !cell.neg }

theorem wordsOf_length (count number : Nat) : (wordsOf count number).length = count := by
  induction count generalizing number with
  | zero => rfl
  | succ count ih => simp [wordsOf, ih]

theorem natOfWords_wordsOf {count number : Nat} (fits : number < 2 ^ (64 * count)) :
    natOfWords (wordsOf count number) = number := by
  induction count generalizing number with
  | zero =>
      simp only [Nat.mul_zero, Nat.pow_zero] at fits
      simp only [wordsOf, natOfWords]
      omega
  | succ count ih =>
      have smaller : number / 2 ^ 64 < 2 ^ (64 * count) := by
        rw [Nat.div_lt_iff_lt_mul (by decide), ← Nat.pow_add]
        exact fits
      simp only [wordsOf, natOfWords, ih smaller, BitVec.toNat_ofNat]
      omega

theorem normLen_le (words : List (BitVec 64)) : normLen words ≤ words.length := by
  induction words with
  | nil => exact Nat.le_refl _
  | cons word rest ih =>
      rw [normLen]
      split_ifs
      · exact Nat.zero_le _
      · exact Nat.succ_le_succ ih

private theorem natOfWords_eq_zero {words : List (BitVec 64)} (none : normLen words = 0) :
    natOfWords words = 0 := by
  induction words with
  | nil => rfl
  | cons word rest ih =>
      rw [normLen] at none
      split_ifs at none with zero
      rw [natOfWords, ih zero.1, zero.2]
      rfl

theorem natOfWords_take_normLen (words : List (BitVec 64)) :
    natOfWords (words.take (normLen words)) = natOfWords words := by
  induction words with
  | nil => rfl
  | cons word rest ih =>
      by_cases zero : normLen rest = 0 ∧ word = 0
      · have vanishes : normLen (word :: rest) = 0 := by rw [normLen, if_pos zero]
        rw [vanishes, natOfWords_eq_zero vanishes]
        rfl
      · rw [normLen, if_neg zero, List.take_succ_cons, natOfWords, natOfWords, ih]

private theorem ofBigEndian_lt_words (buf : List Byte) :
    ofBigEndian buf < 2 ^ (64 * ((buf.length + 7) / 8)) := by
  have bound := ofBigEndian_lt buf
  have power : (256 : Nat) ^ buf.length = 2 ^ (8 * buf.length) := by
    rw [Nat.pow_mul]
  rw [power] at bound
  exact Nat.lt_of_lt_of_le bound (Nat.pow_le_pow_right (by decide) (by omega))

/-- The words of the bytes, read back at their normal length out of a block that
starts with them. -/
private theorem natOfWords_take (buf : List Byte) (rest : List (BitVec 64)) :
    natOfWords
      ((wordsOf ((buf.length + 7) / 8) (ofBigEndian buf) ++ rest).take
        (normLen (wordsOf ((buf.length + 7) / 8) (ofBigEndian buf)))) =
      ofBigEndian buf := by
  rw [List.take_append_of_le_length (normLen_le _), natOfWords_take_normLen]
  exact natOfWords_wordsOf (ofBigEndian_lt_words buf)

theorem natOfWords_setNat (heap : Heap) (abs : SliceHeader) (buf : List Byte) :
    natOfWords ((heap.setNat abs buf).1.elems wordType (heap.setNat abs buf).2) =
      ofBigEndian buf := by
  by_cases enough : (buf.length + 7) / 8 ≤ heap.cap wordType abs
  · cases based : abs.base with
    | none =>
        have short : (buf.length + 7) / 8 = 0 := by
          simpa [Heap.cap, Heap.backing, based] using enough
        have empty : buf = [] := List.eq_nil_of_length_eq_zero (by omega)
        subst empty
        simp [Heap.setNat, based, Heap.elems, Heap.backing, natOfWords, ofBigEndian]
    | some address =>
        have value := natOfWords_take buf
          ((heap.block wordType address).drop ((buf.length + 7) / 8))
        simp only [Heap.setNat, if_pos enough, based, Heap.elems, Heap.backing]
        by_cases inside : address < heap.size wordType
        · rw [TypedHeap.block_write_self inside]
          exact value
        · have missing : heap.block wordType address = [] := by
            by_contra present
            exact inside (TypedHeap.lt_size_of_block_ne_nil present)
          have short : (buf.length + 7) / 8 = 0 := by
            simpa [Heap.cap, Heap.backing, based, missing] using enough
          have empty : buf = [] := List.eq_nil_of_length_eq_zero (by omega)
          subst empty
          simp [wordsOf, normLen, natOfWords, ofBigEndian]
  · simp only [Heap.setNat, if_neg enough, Heap.elems, Heap.backing,
      TypedHeap.block_alloc_self]
    exact natOfWords_take buf _

theorem loadBigInt_setBigInt (heap : Heap) (cell : BigIntCell) (buf : List Byte) :
    loadBigInt (heap.setBigInt cell buf).1 (heap.setBigInt cell buf).2 =
      (ofBigEndian buf : Int) := by
  simp [Heap.setBigInt, loadBigInt, natOfWords_setNat]

theorem loadBigInt_negate (heap : Heap) (abs : SliceHeader) :
    loadBigInt heap (BigIntCell.negate ⟨false, abs⟩) =
      -loadBigInt heap ⟨false, abs⟩ := by
  cases len : abs.len with
  | zero => simp [BigIntCell.negate, loadBigInt, Heap.elems, len, natOfWords]
  | succ len => simp [BigIntCell.negate, loadBigInt, len]

end Bclib.Go
