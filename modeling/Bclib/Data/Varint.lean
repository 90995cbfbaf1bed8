import Bclib.Data.BigEndian

namespace Bclib.Data.Varint

/-! Integers in groups of seven bits, the lowest first; all but the last byte have their
top bit set. -/

/-- `PutUvarint`, with room for so many bytes behind the first. -/
def putUvarint : Nat → Nat → List Byte
  | 0, number => [BitVec.ofNat 8 number]
  | room + 1, number =>
      if 128 ≤ number then
        BitVec.ofNat 8 (number % 128 + 128) :: putUvarint room (number / 128)
      else [BitVec.ofNat 8 number]

inductive Error where
  | eof
  | overflow
  deriving DecidableEq, Repr

/-- `ReadUvarint` from the given round on; the last round has room for one bit. -/
def readUvarint : (rounds shift sofar : Nat) → List Byte → Except Error (Nat × List Byte)
  | 0, _, _, _ => .error .overflow
  | _ + 1, _, _, [] => .error .eof
  | rounds + 1, shift, sofar, byte :: rest =>
      if byte.toNat < 128 then
        if rounds = 0 ∧ 1 < byte.toNat then .error .overflow
        else .ok (sofar + byte.toNat * 2 ^ shift, rest)
      else readUvarint rounds (shift + 7) (sofar + byte.toNat % 128 * 2 ^ shift) rest

theorem readUvarint_putUvarint {room number : Nat} (small : number < 2 * 128 ^ room)
    (shift sofar : Nat) (rest : List Byte) :
    readUvarint (room + 1) shift sofar (putUvarint room number ++ rest) =
      .ok (sofar + number * 2 ^ shift, rest) := by
  induction room generalizing number shift sofar with
  | zero =>
      have low : (BitVec.ofNat 8 number).toNat = number := by
        rw [BitVec.toNat_ofNat]
        omega
      simp only [putUvarint, List.singleton_append, readUvarint, low]
      rw [if_pos (by omega), if_neg (by omega)]
  | succ room ih =>
      rw [putUvarint]
      split_ifs with large
      · have top : (BitVec.ofNat 8 (number % 128 + 128)).toNat = number % 128 + 128 := by
          rw [BitVec.toNat_ofNat]
          omega
        have less : number / 128 < 2 * 128 ^ room := by
          rw [Nat.pow_succ] at small
          omega
        rw [List.cons_append, readUvarint, top, if_neg (by omega), ih less]
        have whole : (number % 128 + 128) % 128 * 2 ^ shift + number / 128 * 2 ^ (shift + 7) =
            number * 2 ^ shift := by
          have split := Nat.div_add_mod number 128
          have low : (number % 128 + 128) % 128 = number % 128 := by omega
          rw [low, Nat.pow_add, Nat.mul_comm (2 ^ shift), ← Nat.mul_assoc, ← Nat.add_mul]
          congr 1
          omega
        rw [Nat.add_assoc, whole]
      · have low : (BitVec.ofNat 8 number).toNat = number := by
          rw [BitVec.toNat_ofNat]
          omega
        simp only [List.singleton_append, readUvarint, low]
        rw [if_pos (by omega), if_neg (by omega)]

/-- Signed numbers alternate with the sign in the lowest bit. -/
def zigzag : Int → Nat
  | .ofNat number => 2 * number
  | .negSucc number => 2 * number + 1

def unzigzag (number : Nat) : Int :=
  if number % 2 = 0 then .ofNat (number / 2) else .negSucc (number / 2)

theorem unzigzag_zigzag (number : Int) : unzigzag (zigzag number) = number := by
  cases number with
  | ofNat number =>
      rw [zigzag, unzigzag, if_pos (by omega), Nat.mul_div_cancel_left _ (by decide)]
  | negSucc number =>
      rw [zigzag, unzigzag, if_neg (by omega), show (2 * number + 1) / 2 = number by omega]

/-- `PutVarint` into a buffer of ten bytes. -/
def putVarint (number : Int) : List Byte := putUvarint 9 (zigzag number)

def readVarint (input : List Byte) : Except Error (Int × List Byte) :=
  match readUvarint 10 0 0 input with
  | .error err => .error err
  | .ok (number, rest) => .ok (unzigzag number, rest)

theorem readVarint_putVarint {number : Int} (low : -2 ^ 63 ≤ number) (high : number < 2 ^ 63)
    (rest : List Byte) : readVarint (putVarint number ++ rest) = .ok (number, rest) := by
  have small : zigzag number < 2 * 128 ^ 9 := by
    cases number with
    | ofNat number =>
        rw [Int.ofNat_eq_natCast] at high
        rw [zigzag]
        omega
    | negSucc number =>
        rw [zigzag]
        omega
  rw [readVarint, putVarint, readUvarint_putUvarint small]
  simp [unzigzag_zigzag]

theorem readUvarint_front {rounds shift sofar number : Nat} {input rest : List Byte}
    (read : readUvarint rounds shift sofar input = .ok (number, rest)) :
    ∃ front, input = front ++ rest ∧
      ∀ other, readUvarint rounds shift sofar (front ++ other) = .ok (number, other) := by
  induction rounds generalizing shift sofar input with
  | zero => cases read
  | succ rounds ih =>
      cases input with
      | nil => cases read
      | cons byte later =>
          rw [readUvarint] at read
          split_ifs at read with last overflows
          · cases read
            refine ⟨[byte], rfl, fun other => ?_⟩
            rw [List.singleton_append, readUvarint, if_pos last, if_neg overflows]
          · obtain ⟨front, rfl, again⟩ := ih read
            refine ⟨byte :: front, rfl, fun other => ?_⟩
            rw [List.cons_append, readUvarint, if_neg last]
            exact again other

theorem readVarint_front {number : Int} {input rest : List Byte}
    (read : readVarint input = .ok (number, rest)) :
    ∃ front, input = front ++ rest ∧
      ∀ other, readVarint (front ++ other) = .ok (number, other) := by
  rw [readVarint] at read
  split at read
  · cases read
  · rename_i unsigned rest' found
    cases read
    obtain ⟨front, rfl, again⟩ := readUvarint_front found
    refine ⟨front, rfl, fun other => ?_⟩
    rw [readVarint, again]

theorem readUvarint_part {rounds shift sofar number : Nat} {part missing rest : List Byte}
    (read : readUvarint rounds shift sofar (part ++ missing) = .ok (number, rest)) :
    readUvarint rounds shift sofar part = .error .eof ∨
      ∃ later, readUvarint rounds shift sofar part = .ok (number, later) ∧
        rest = later ++ missing := by
  induction rounds generalizing shift sofar part with
  | zero => cases read
  | succ rounds ih =>
      cases part with
      | nil => exact .inl rfl
      | cons byte others =>
          rw [List.cons_append, readUvarint] at read
          rw [readUvarint]
          split_ifs at read ⊢ with last overflows
          · cases read
            exact .inr ⟨others, rfl, rfl⟩
          · exact ih read

theorem readVarint_part {number : Int} {part missing rest : List Byte}
    (read : readVarint (part ++ missing) = .ok (number, rest)) :
    readVarint part = .error .eof ∨
      ∃ later, readVarint part = .ok (number, later) ∧ rest = later ++ missing := by
  rw [readVarint] at read
  split at read
  · cases read
  · rename_i unsigned rest' found
    cases read
    rcases readUvarint_part found with short | ⟨later, inside, surplus⟩
    · exact .inl (by rw [readVarint, short])
    · exact .inr ⟨later, by rw [readVarint, inside], surplus⟩

end Bclib.Data.Varint
