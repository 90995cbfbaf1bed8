import Bclib.Data.BigEndian
import Mathlib.Tactic.IntervalCases

namespace Bclib.Data.Base64

/-! Standard base64 with padding.  The decoder skips line breaks and does not look at
the bits the padding leaves unused, so several texts decode to the same bytes. -/

def pad : Byte := 61

def symbol (number : Nat) : Byte :=
  if number < 26 then BitVec.ofNat 8 (number + 65)
  else if number < 52 then BitVec.ofNat 8 (number + 71)
  else if number < 62 then BitVec.ofNat 8 (number - 4)
  else if number < 63 then 43
  else 47

def value? (char : Byte) : Option Nat :=
  if 65 ≤ char.toNat ∧ char.toNat ≤ 90 then some (char.toNat - 65)
  else if 97 ≤ char.toNat ∧ char.toNat ≤ 122 then some (char.toNat - 71)
  else if 48 ≤ char.toNat ∧ char.toNat ≤ 57 then some (char.toNat + 4)
  else if char.toNat = 43 then some 62
  else if char.toNat = 47 then some 63
  else none

def isBreak (char : Byte) : Bool := char = 10 || char = 13

def encode : List Byte → List Byte
  | [] => []
  | [a] => [symbol (a.toNat / 4), symbol (a.toNat % 4 * 16), pad, pad]
  | [a, b] =>
      [symbol (a.toNat / 4), symbol (a.toNat % 4 * 16 + b.toNat / 16),
        symbol (b.toNat % 16 * 4), pad]
  | a :: b :: c :: rest =>
      symbol (a.toNat / 4) :: symbol (a.toNat % 4 * 16 + b.toNat / 16) ::
        symbol (b.toNat % 16 * 4 + c.toNat / 64) :: symbol (c.toNat % 64) :: encode rest

def firstByte (w x : Nat) : Byte := BitVec.ofNat 8 (w * 4 + x / 16)

def secondByte (x y : Nat) : Byte := BitVec.ofNat 8 (x % 16 * 16 + y / 4)

def thirdByte (y z : Nat) : Byte := BitVec.ofNat 8 (y % 4 * 64 + z)

/-- Quanta of four characters, the last of which may be padded. -/
def decodeQuanta : List Byte → Option (List Byte)
  | [] => some []
  | w :: x :: y :: z :: rest =>
      match value? w, value? x, value? y, value? z with
      | some w, some x, some y, some z =>
          match decodeQuanta rest with
          | some bytes => some (firstByte w x :: secondByte x y :: thirdByte y z :: bytes)
          | none => none
      | some w, some x, some y, none =>
          if z = pad ∧ rest = [] then some [firstByte w x, secondByte x y] else none
      | some w, some x, none, none =>
          if y = pad ∧ z = pad ∧ rest = [] then some [firstByte w x] else none
      | _, _, _, _ => none
  | _ => none

/-- `DecodeString`; nothing for corrupt input. -/
def decode (text : List Byte) : Option (List Byte) :=
  decodeQuanta (text.filter fun char => !isBreak char)

/-- The bits in front of the padding that belong to no byte are zero. -/
def zeroTail : List Byte → Bool
  | [_, x, y, z] =>
      if z = pad then
        if y = pad then decide ((value? x).getD 0 % 16 = 0)
        else decide ((value? y).getD 0 % 4 = 0)
      else true
  | _ :: _ :: _ :: _ :: rest => zeroTail rest
  | _ => true

theorem value?_symbol {number : Nat} (small : number < 64) :
    value? (symbol number) = some number := by
  interval_cases number <;> rfl

theorem symbol_value? {char : Byte} {number : Nat} (found : value? char = some number) :
    symbol number = char ∧ number < 64 := by
  have bound := char.isLt
  unfold value? at found
  split_ifs at found with upper lower digit plus slash
  all_goals
    have same := Option.some.inj found
    refine ⟨?_, by omega⟩
    apply BitVec.eq_of_toNat_eq
    unfold symbol
    split_ifs <;> simp <;> omega

theorem value?_pad : value? pad = none := rfl

theorem symbol_plain {number : Nat} (small : number < 64) :
    isBreak (symbol number) = false ∧ symbol number ≠ 46 ∧ symbol number ≠ pad := by
  interval_cases number <;> decide

/-! The bytes of a quantum and back. -/

section Quantum

variable (a b c : Byte)

private theorem parts_lt :
    a.toNat / 4 < 64 ∧ a.toNat % 4 * 16 < 64 ∧ a.toNat % 4 * 16 + b.toNat / 16 < 64 ∧
      b.toNat % 16 * 4 < 64 ∧ b.toNat % 16 * 4 + c.toNat / 64 < 64 ∧ c.toNat % 64 < 64 := by
  have first := a.isLt
  have second := b.isLt
  have third := c.isLt
  omega

private theorem firstByte_parts (low : Nat) (small : low < 16) :
    firstByte (a.toNat / 4) (a.toNat % 4 * 16 + low) = a := by
  have bound := a.isLt
  apply BitVec.eq_of_toNat_eq
  simp only [firstByte, BitVec.toNat_ofNat]
  omega

private theorem secondByte_parts (high low : Nat) (small : low < 4) :
    secondByte (high * 16 + b.toNat / 16) (b.toNat % 16 * 4 + low) = b := by
  have bound := b.isLt
  apply BitVec.eq_of_toNat_eq
  simp only [secondByte, BitVec.toNat_ofNat]
  omega

private theorem thirdByte_parts (high : Nat) :
    thirdByte (high * 4 + c.toNat / 64) (c.toNat % 64) = c := by
  have bound := c.isLt
  apply BitVec.eq_of_toNat_eq
  simp only [thirdByte, BitVec.toNat_ofNat]
  omega

end Quantum

theorem decodeQuanta_encode (bytes : List Byte) : decodeQuanta (encode bytes) = some bytes := by
  induction bytes using encode.induct with
  | case1 => rfl
  | case2 a =>
      obtain ⟨w, x, -⟩ := parts_lt a 0 0
      have first := firstByte_parts a 0 (by decide)
      rw [Nat.add_zero] at first
      simp [encode, decodeQuanta, value?_symbol w, value?_symbol x, value?_pad, first]
  | case3 a b =>
      obtain ⟨w, -, x, y, -⟩ := parts_lt a b 0
      have first := firstByte_parts a (b.toNat / 16) (by have := b.isLt; omega)
      have second := secondByte_parts b (a.toNat % 4) 0 (by decide)
      rw [Nat.add_zero] at second
      simp [encode, decodeQuanta, value?_symbol w, value?_symbol x, value?_symbol y,
        value?_pad, first, second]
  | case4 a b c rest ih =>
      obtain ⟨w, -, x, -, y, z⟩ := parts_lt a b c
      have first := firstByte_parts a (b.toNat / 16) (by have := b.isLt; omega)
      have second := secondByte_parts b (a.toNat % 4) (c.toNat / 64)
        (by have := c.isLt; omega)
      have third := thirdByte_parts c (b.toNat % 16)
      simp [encode, decodeQuanta, value?_symbol w, value?_symbol x, value?_symbol y,
        value?_symbol z, first, second, third, ih]

theorem encode_plain (bytes : List Byte) :
    ∀ char ∈ encode bytes, isBreak char = false ∧ char ≠ 46 := by
  have pads : isBreak pad = false ∧ pad ≠ 46 := by decide
  have symbols : ∀ {number}, number < 64 →
      isBreak (symbol number) = false ∧ symbol number ≠ 46 :=
    fun small => ⟨(symbol_plain small).1, (symbol_plain small).2.1⟩
  induction bytes using encode.induct with
  | case1 => simp [encode]
  | case2 a =>
      obtain ⟨w, x, -⟩ := parts_lt a 0 0
      simp only [encode, List.forall_mem_cons]
      exact ⟨symbols w, symbols x, pads, pads, by simp⟩
  | case3 a b =>
      obtain ⟨w, -, x, y, -⟩ := parts_lt a b 0
      simp only [encode, List.forall_mem_cons]
      exact ⟨symbols w, symbols x, symbols y, pads, by simp⟩
  | case4 a b c rest ih =>
      obtain ⟨w, -, x, -, y, z⟩ := parts_lt a b c
      simp only [encode, List.forall_mem_cons]
      exact ⟨symbols w, symbols x, symbols y, symbols z, ih⟩

theorem filter_breaks {text : List Byte} (plain : ∀ char ∈ text, isBreak char = false) :
    (text.filter fun char => !isBreak char) = text :=
  List.filter_eq_self.mpr fun char member => by simp [plain char member]

theorem decode_encode (bytes : List Byte) : decode (encode bytes) = some bytes := by
  rw [decode, filter_breaks fun char member => (encode_plain bytes char member).1,
    decodeQuanta_encode]

theorem decode_append_break (text : List Byte) {char : Byte} (isBreaking : isBreak char = true) :
    decode (text ++ [char]) = decode text := by
  simp [decode, isBreaking]

theorem decodeQuanta_length_le (text : List Byte) {bytes : List Byte}
    (decoded : decodeQuanta text = some bytes) : bytes.length ≤ text.length := by
  induction text using decodeQuanta.induct generalizing bytes with
  | case1 =>
      obtain rfl := Option.some.inj decoded
      exact Nat.le_refl _
  | case2 w x y z rest _ _ _ _ foundW foundX foundY foundZ others found ih =>
      simp only [decodeQuanta, foundW, foundX, foundY, foundZ, found] at decoded
      obtain rfl := Option.some.inj decoded
      have shorter := ih found
      simp only [List.length_cons]
      omega
  | case4 w x y z rest _ _ _ foundW foundX foundY foundZ padded =>
      simp only [decodeQuanta, foundW, foundX, foundY, foundZ, if_pos padded] at decoded
      obtain rfl := Option.some.inj decoded
      simp only [List.length_cons, List.length_nil]
      omega
  | case6 w x y z rest _ _ foundW foundX foundY foundZ padded =>
      simp only [decodeQuanta, foundW, foundX, foundY, foundZ, if_pos padded] at decoded
      obtain rfl := Option.some.inj decoded
      simp only [List.length_cons, List.length_nil]
      omega
  | _ => simp_all [decodeQuanta]

theorem decode_length_le {text bytes : List Byte} (decoded : decode text = some bytes) :
    bytes.length ≤ text.length :=
  Nat.le_trans (decodeQuanta_length_le _ decoded) (List.length_filter_le _ _)

private theorem quantum_full {w x y z : Nat} (small : w < 64 ∧ x < 64 ∧ y < 64 ∧ z < 64) :
    (firstByte w x).toNat / 4 = w ∧
      (firstByte w x).toNat % 4 * 16 + (secondByte x y).toNat / 16 = x ∧
      (secondByte x y).toNat % 16 * 4 + (thirdByte y z).toNat / 64 = y ∧
      (thirdByte y z).toNat % 64 = z := by
  simp only [firstByte, secondByte, thirdByte, BitVec.toNat_ofNat]
  omega

private theorem zeroTail_rest {w x y z : Byte} {rest : List Byte} {last : Nat}
    (found : value? z = some last) : zeroTail (w :: x :: y :: z :: rest) = zeroTail rest := by
  have other : z ≠ pad := by
    rintro rfl
    simp [value?_pad] at found
  cases rest with
  | nil => simp [zeroTail, other]
  | cons next rest => simp [zeroTail]

private theorem encode_quantum {w x y z : Byte} {first second third fourth : Nat}
    (foundW : value? w = some first) (foundX : value? x = some second)
    (foundY : value? y = some third) (foundZ : value? z = some fourth)
    (rest bytes : List Byte) :
    (w :: x :: y :: z :: rest = encode (firstByte first second ::
      secondByte second third :: thirdByte third fourth :: bytes)) ↔ rest = encode bytes := by
  obtain ⟨symbolW, smallW⟩ := symbol_value? foundW
  obtain ⟨symbolX, smallX⟩ := symbol_value? foundX
  obtain ⟨symbolY, smallY⟩ := symbol_value? foundY
  obtain ⟨symbolZ, smallZ⟩ := symbol_value? foundZ
  obtain ⟨sameW, sameX, sameY, sameZ⟩ := quantum_full ⟨smallW, smallX, smallY, smallZ⟩
  rw [encode, sameW, sameX, sameY, sameZ, symbolW, symbolX, symbolY, symbolZ]
  simp

private theorem encode_two {w x y : Byte} {first second third : Nat}
    (foundW : value? w = some first) (foundX : value? x = some second)
    (foundY : value? y = some third) :
    [w, x, y, pad] = encode [firstByte first second, secondByte second third] ↔
      third % 4 = 0 := by
  obtain ⟨symbolW, smallW⟩ := symbol_value? foundW
  obtain ⟨symbolX, smallX⟩ := symbol_value? foundX
  obtain ⟨symbolY, smallY⟩ := symbol_value? foundY
  obtain ⟨sameW, sameX, -⟩ := quantum_full ⟨smallW, smallX, smallY, smallY⟩
  have bits : (secondByte second third).toNat % 16 * 4 = third - third % 4 := by
    simp only [secondByte, BitVec.toNat_ofNat]
    omega
  rw [encode, sameW, sameX, symbolW, symbolX, bits]
  constructor
  · intro same
    have last : y = symbol (third - third % 4) := by simpa using same
    have back := @value?_symbol (third - third % 4) (by omega)
    rw [← last, foundY] at back
    have := Option.some.inj back
    omega
  · intro zero
    rw [zero, Nat.sub_zero, symbolY]

private theorem encode_one {w x : Byte} {first second : Nat}
    (foundW : value? w = some first) (foundX : value? x = some second) :
    [w, x, pad, pad] = encode [firstByte first second] ↔ second % 16 = 0 := by
  obtain ⟨symbolW, smallW⟩ := symbol_value? foundW
  obtain ⟨symbolX, smallX⟩ := symbol_value? foundX
  obtain ⟨sameW, -⟩ := quantum_full ⟨smallW, smallX, smallX, smallX⟩
  have bits : (firstByte first second).toNat % 4 * 16 = second - second % 16 := by
    simp only [firstByte, BitVec.toNat_ofNat]
    omega
  rw [encode, sameW, symbolW, bits]
  constructor
  · intro same
    have last : x = symbol (second - second % 16) := by simpa using same
    have back := @value?_symbol (second - second % 16) (by omega)
    rw [← last, foundX] at back
    have := Option.some.inj back
    omega
  · intro zero
    rw [zero, Nat.sub_zero, symbolX]

/-- Without line breaks, a text is the encoding of its bytes exactly when its unused
bits are zero. -/
theorem eq_encode_iff : (text : List Byte) → {bytes : List Byte} →
    decodeQuanta text = some bytes → (text = encode bytes ↔ zeroTail text = true)
  | [], _, decoded => by
      obtain rfl := Option.some.inj decoded
      simp [encode, zeroTail]
  | [_], _, decoded => by simp [decodeQuanta] at decoded
  | [_, _], _, decoded => by simp [decodeQuanta] at decoded
  | [_, _, _], _, decoded => by simp [decodeQuanta] at decoded
  | w :: x :: y :: z :: rest, bytes, decoded => by
      rw [decodeQuanta] at decoded
      cases foundW : value? w with
      | none => simp [foundW] at decoded
      | some first =>
          cases foundX : value? x with
          | none => simp [foundW, foundX] at decoded
          | some second =>
              cases foundY : value? y with
              | none =>
                  cases foundZ : value? z with
                  | some fourth => simp [foundW, foundX, foundY, foundZ] at decoded
                  | none =>
                      simp only [foundW, foundX, foundY, foundZ,
                        Option.ite_none_right_eq_some] at decoded
                      obtain ⟨⟨rfl, rfl, rfl⟩, same⟩ := decoded
                      rw [← Option.some.inj same, encode_one foundW foundX]
                      simp [zeroTail, foundX]
              | some third =>
                  have other : y ≠ pad := by
                    rintro rfl
                    simp [value?_pad] at foundY
                  cases foundZ : value? z with
                  | none =>
                      simp only [foundW, foundX, foundY, foundZ,
                        Option.ite_none_right_eq_some] at decoded
                      obtain ⟨⟨rfl, rfl⟩, same⟩ := decoded
                      rw [← Option.some.inj same, encode_two foundW foundX foundY]
                      simp [zeroTail, other, foundY]
                  | some fourth =>
                      cases later : decodeQuanta rest with
                      | none => simp [foundW, foundX, foundY, foundZ, later] at decoded
                      | some more =>
                          simp only [foundW, foundX, foundY, foundZ, later] at decoded
                          obtain rfl := Option.some.inj decoded
                          rw [encode_quantum foundW foundX foundY foundZ,
                            eq_encode_iff rest later, zeroTail_rest foundZ]

end Bclib.Data.Base64
